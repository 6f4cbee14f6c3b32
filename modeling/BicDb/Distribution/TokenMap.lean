import BicDb.Distribution.Fencing
import BicDb.Distribution.Atomicity
import BicDb.Foundation.Run

/-!
# The token map over the life of a store

The operations advance the topology, so along any run the epochs fence off every change and no id is
given out twice. A topology read or installed is taken over when its generation is higher, whether
or not it descends from the one in memory.

## What this module delivers

* `FencedMoments`: one owner a token, epochs that rise with every change, ids used once.
* `epochs_fence_token_map`: it holds along every run that adopts only descendants.
* `installed_forks_not_fenced`: two forks of one topology, installed one after the other.
-/

namespace BicDb.Distribution

open BicDb.Foundation List DistributionStore

/-! ## Runs -/

/-- What changes the topology of a store. -/
inductive StoreAction where
  | call (io : Io) (file : TopologyFile) (call : Call)
  | refresh (io : Io) (file : TopologyFile)
  | install (io : Io) (file : TopologyFile) (topology : ClusterTopology)
  | fork

/-- The store after a call that succeeded. -/
def DistributionStore.succeed {α : Type} (store : DistributionStore) (outcome : Outcome α) :
    Option DistributionStore :=
  match outcome.result with
  | .ok _ => some { store with topology := outcome.topology }
  | .error _ => none

section Runs

variable (digest : ClusterTopology → String)

/-- One action. -/
def storeStep (store : DistributionStore) : StoreAction → Option DistributionStore
  | .call io file call => store.succeed (store.call digest io file call)
  | .refresh io file => store.succeed (store.refresh digest io file)
  | .install io file topology =>
    store.succeed (store.installAuthoritativeTopology digest io file topology)
  | .fork => some store.forkEphemeral

/-- One topology comes from another by successful operations. -/
inductive Descends (topology : ClusterTopology) : ClusterTopology → Prop where
  | refl : Descends topology topology
  | call {store : DistributionStore} {io : Io} {file : TopologyFile} {call : Call} {reply : Reply} :
      Descends topology store.topology → (store.call digest io file call).result = .ok reply →
        Descends topology (store.call digest io file call).topology

/-- What is read or installed descends from memory. -/
def AdoptsDescendants (store : DistributionStore) : StoreAction → Prop
  | .call _ _ _ => True
  | .refresh io file =>
    ∀ topology, loadTopology digest io file = .ok topology → Descends digest store.topology topology
  | .install _ _ topology => Descends digest store.topology topology
  | .fork => True

end Runs

/-! ## One step -/

variable {digest : ClusterTopology → String} {store store' : DistributionStore} {io : Io}
  {file : TopologyFile}

theorem succeed_eq_some {α : Type} {outcome : Outcome α} (h : store.succeed outcome = some store') :
    (∃ value, outcome.result = .ok value) ∧ store'.topology = outcome.topology := by
  unfold succeed at h
  split at h
  · rename_i value hvalue
    cases h
    exact ⟨⟨value, hvalue⟩, rfl⟩
  · cases h

theorem commitChange_eq_ok {topology : ClusterTopology} {actor : ClusterNodeId} {nowMs : Nat}
    {summary : String}
    (h : (commitChange digest store io file topology actor nowMs summary).result = .ok ()) :
    (commitChange digest store io file topology actor nowMs summary).topology =
        topology.recordChange actor nowMs summary store.config.topologyHistoryLimit ∧
      TopologyOk (topology.recordChange actor nowMs summary store.config.topologyHistoryLimit) := by
  unfold commitChange at h ⊢
  by_cases hephemeral : store.ephemeral = true
  · simp only [if_pos hephemeral] at h ⊢
    exact ⟨trivial, validate_eq_ok.1 h⟩
  · simp only [if_neg hephemeral] at h ⊢
    split at h
    · cases h
    split_ifs at h with hstale
    split at h
    · cases h
    · rename_i hvalid
      simp only [if_neg hstale]
      exact ⟨trivial, validate_eq_ok.1 hvalid⟩

theorem call_advances {call : Call} {reply : Reply} (h : TopologyOk store.topology)
    (hresult : (store.call digest io file call).result = .ok reply) :
    TopologyOk (store.call digest io file call).topology ∧
      Advances store.topology (store.call digest io file call).topology := by
  have hadvancing := @editOf_advancing _ store.config call h
  unfold DistributionStore.call at hresult ⊢
  cases hedit : editOf store.config store.topology call with
  | refuse =>
    rw [hedit] at hresult
    cases hresult
  | answer value => exact ⟨h, .refl h.ranges.toMapOk⟩
  | commit topology actor nowMs summary value =>
    rw [hedit] at hresult hadvancing
    simp only [carryOut] at hresult ⊢
    have hcommit := @commitChange_eq_ok digest store io file topology actor nowMs summary
    revert hresult hcommit
    rcases commitChange digest store io file topology actor nowMs summary with
      ⟨_ | _, after, file'⟩
    · simp
    · intro _ hcommit
      obtain ⟨rfl, hvalid⟩ := hcommit rfl
      -- recording the change touches neither the ranges nor the ids
      exact ⟨hvalid, { hadvancing with }⟩

theorem Descends.advances {topology topology' : ClusterTopology} (h : TopologyOk topology)
    (hdescends : Descends digest topology topology') :
    TopologyOk topology' ∧ Advances topology topology' := by
  induction hdescends with
  | refl => exact ⟨h, .refl h.ranges.toMapOk⟩
  | call _ hresult ih =>
    obtain ⟨hok, hadvances⟩ := call_advances ih.1 hresult
    exact ⟨hok, ih.2.trans hadvances ih.1.ranges.toMapOk⟩

/-- **The step lemma.** -/
theorem storeStep_advances {action : StoreAction} (h : TopologyOk store.topology)
    (hadopts : AdoptsDescendants digest store action)
    (hstep : storeStep digest store action = some store') :
    TopologyOk store'.topology ∧ Advances store.topology store'.topology := by
  cases action with
  | call =>
    obtain ⟨⟨reply, hresult⟩, htopology⟩ := succeed_eq_some hstep
    exact htopology ▸ call_advances h hresult
  | refresh io file =>
    obtain ⟨⟨value, hresult⟩, htopology⟩ := succeed_eq_some hstep
    rw [htopology]
    unfold refresh at hresult ⊢
    split at hresult
    · cases hresult
    rename_i topology hload
    split at hresult
    · cases hresult
    · simp only
      exact (hadopts topology hload).advances h
  | install io file topology =>
    obtain ⟨⟨value, hresult⟩, htopology⟩ := succeed_eq_some hstep
    have hold : TopologyOk store.topology ∧ Advances store.topology store.topology :=
      ⟨h, .refl h.ranges.toMapOk⟩
    rw [htopology]
    unfold installAuthoritativeTopology
    split
    · exact hold
    split_ifs
    · exact hold
    · exact hold
    · exact hold
    · split
      · exact hold
      · exact hadopts.advances h
  | fork =>
    cases hstep
    exact ⟨h, .refl h.ranges.toMapOk⟩

/-! ## Whole runs -/

/-- **The run lemma.** -/
theorem reach_advances (h : TopologyOk store.topology)
    (hrun : Reach (storeStep digest) (AdoptsDescendants digest) store store') :
    TopologyOk store'.topology ∧ Advances store.topology store'.topology := by
  refine Reach.invariant
    (fun store' => TopologyOk store'.topology ∧ Advances store.topology store'.topology)
    ⟨h, .refl h.ranges.toMapOk⟩ ?_ hrun
  intro s action s' hs hadopts hstep
  obtain ⟨hok, hadvances⟩ := storeStep_advances hs.1 hadopts hstep
  exact ⟨hok, hs.2.trans hadvances hs.1.ranges.toMapOk⟩

variable {topology : ClusterTopology}

theorem initialTopology_ok {config : DistributionConfig} {nowMs : Nat}
    (h : initialTopology config nowMs = .ok topology) : TopologyOk topology := by
  have hnew : ∀ node, ClusterTopology.new config node nowMs = .ok topology →
      TopologyOk topology := by
    intro node hnew
    rw [ClusterTopology.new, andThen_eq_ok, bind_eq_ok] at hnew
    obtain ⟨-, made, -, hnew⟩ := hnew
    rw [andThen_eq_ok] at hnew
    obtain ⟨hvalid, ⟨⟩⟩ := hnew
    exact validate_eq_ok.1 hvalid
  rw [initialTopology, andThen_eq_ok, andThen_eq_ok, bind_eq_ok] at h
  obtain ⟨-, -, node, -, h⟩ := h
  split at h
  · exact hnew node h
  · rw [andThen_eq_ok] at h
    exact hnew _ h.2

/-- The ids of all ranges. -/
def rangeIdsOf (topology : ClusterTopology) : List RangeId :=
  topology.ranges.values.map (·.id)

variable {topology' : ClusterTopology}

variable {range range' : RangeDescriptor}

theorem Advances.start_eq (h : Advances topology topology') (hok : TopologyOk topology)
    (hr : range ∈ topology.ranges.values) (hr' : range' ∈ topology'.ranges.values)
    (hid : range.id = range'.id) :
    range.startToken = range'.startToken := by
  rcases h.ranges range' hr' with ⟨origin, horigin, hsame, hstart⟩ | hnew
  · rwa [inj_on_of_nodup_map hok.ranges.rangeIds hr horigin (hid.trans hsame.symm)]
  · exact absurd (hok.rangeIds range hr) (not_lt.2 (hnew.trans_eq hid.symm))

/-- Three moments of a run, in order. -/
structure FencedMoments (now later last : ClusterTopology) : Prop where
  /-- a token has one owner, which the lookup finds -/
  owner : ∀ token, ∃ range, now.rangeForToken token = .ok range ∧
    ∀ other ∈ now.ranges.values, other.containsToken token = true ↔ other = range
  /-- the epoch of the owner does not fall, and rises with its configuration -/
  epochs : ∀ token range range', now.rangeForToken token = .ok range →
    later.rangeForToken token = .ok range' →
      range.epoch ≤ range'.epoch ∧
        (range'.configuration ≠ range.configuration → range.epoch < range'.epoch)
  /-- an id in use at both moments is of one range, which starts where it did -/
  sameRange : ∀ range ∈ now.ranges.values, ∀ range' ∈ later.ranges.values,
    range.id = range'.id → range.startToken = range'.startToken
  /-- an id in use at both moments is of one replica, in its range and on its node -/
  sameReplica : ∀ range ∈ now.ranges.values, ∀ replica ∈ range.replicas,
    ∀ range' ∈ later.ranges.values, ∀ replica' ∈ range'.replicas,
      replica.id = replica'.id → range.id = range'.id ∧ replica.nodeId = replica'.nodeId
  /-- an id that is gone does not come back -/
  rangeIds : ∀ id ∈ rangeIdsOf now, id ∉ rangeIdsOf later → id ∉ rangeIdsOf last
  replicaIds : ∀ id ∈ replicaIdsOf now.ranges.values, id ∉ replicaIdsOf later.ranges.values →
    id ∉ replicaIdsOf last.ranges.values

/-- **Epochs fence off every change of the token map**, where what is read or installed descends
from memory. -/
theorem epochs_fence_token_map (digest : ClusterTopology → String) (config : DistributionConfig)
    (nowMs : Nat) (first : ClusterTopology) (hfirst : initialTopology config nowMs = .ok first)
    (s s' s'' : DistributionStore)
    (hrun : Reach (storeStep digest) (AdoptsDescendants digest) ⟨false, config, first⟩ s)
    (hrun' : Reach (storeStep digest) (AdoptsDescendants digest) s s')
    (hrun'' : Reach (storeStep digest) (AdoptsDescendants digest) s' s'') :
    FencedMoments s.topology s'.topology s''.topology := by
  obtain ⟨hok, -⟩ := reach_advances (initialTopology_ok hfirst) hrun
  obtain ⟨hok', hadvances⟩ := reach_advances hok hrun'
  obtain ⟨-, hadvances'⟩ := reach_advances hok' hrun''
  have hmap := hok.ranges.toMapOk
  refine ⟨fun token => ?_, fun token range range' hrange hrange' => ?_,
    fun range hr range' hr' => hadvances.start_eq hok hr hr',
    fun range hr replica hreplica range' hr' replica' hreplica' hid => ?_,
    fun id hid hgone hback => ?_, fun id hid hgone hback => ?_⟩
  · obtain ⟨owner, howner, howns⟩ := hmap.exists_owner token
    refine ⟨owner, (rangeForToken_eq_ok hmap).2 ⟨howner, howns⟩, fun other hother =>
      ⟨fun h => ?_, ?_⟩⟩
    · exact hmap.owner_unique hother howner h howns
    · rintro rfl
      exact howns
  · obtain ⟨hr, howns⟩ := (rangeForToken_eq_ok hmap).1 hrange
    obtain ⟨hr', howns'⟩ := (rangeForToken_eq_ok hok'.ranges.toMapOk).1 hrange'
    have hfenced := hadvances.fenced token range hr range' hr' howns howns'
    exact ⟨hfenced.monotone, hfenced.strict⟩
  · -- a replica stays in its range and on its node for as long as its id is in use
    rcases hadvances.replicas range' hr' replica' hreplica' with
      ⟨origin, horigin, hrangeId, old, hold, hsame, hnode⟩ | hnew
    · -- a replica id belongs to one replica of one range
      have hreplicaId := hid.trans hsame.symm
      obtain rfl : range = origin := by
        by_contra hne
        have hsymm : Std.Symm (Function.onFun List.Disjoint fun range : RangeDescriptor =>
            range.replicas.map (·.id)) := ⟨fun _ _ h => List.Disjoint.symm h⟩
        exact (nodup_flatMap.1 hok.ranges.replicaIds).2.forall hr horigin hne
          (mem_map_of_mem hreplica) (mem_map.2 ⟨old, hold, hreplicaId.symm⟩)
      obtain rfl :=
        inj_on_of_nodup_map (hok.ranges.each range hr).replicaIds hreplica hold hreplicaId
      exact ⟨hrangeId, hnode⟩
    · have hlt := hok.replicaIds _ (mem_replicaIdsOf.2 ⟨range, hr, replica, hreplica, rfl⟩)
      exact absurd hlt (not_lt.2 (hnew.trans_eq hid.symm))
  · -- an id in use is below the next one, and new ids are not
    obtain ⟨range, hr, rfl⟩ := mem_map.1 hid
    obtain ⟨back, hr', heq⟩ := mem_map.1 hback
    rcases hadvances'.ranges back hr' with ⟨found, hfound, hsame, -⟩ | hnew
    · exact hgone (mem_map.2 ⟨found, hfound, hsame.trans heq⟩)
    · exact absurd (hok.rangeIds range hr) (not_lt.2 (hadvances.nextRangeId.trans (heq ▸ hnew)))
  · obtain ⟨back, hr', replica, hreplica, rfl⟩ := mem_replicaIdsOf.1 hback
    rcases hadvances'.replicas back hr' replica hreplica with
      ⟨found, hr, -, old, hold, hsame, -⟩ | hnew
    · exact hgone (mem_replicaIdsOf.2 ⟨found, hr, old, hold, hsame⟩)
    · exact absurd (hok.replicaIds _ hid) (not_lt.2 (hadvances.nextReplicaId.trans hnew))

/-- A split at the token 7 and its merge, on a fork. -/
theorem split_and_merge_fenced : ∃ (first : ClusterTopology) (s s' : DistributionStore),
    initialTopology soloConfig 0 = .ok first ∧
    storeStep blankDigest ⟨true, soloConfig, first⟩
      (.call calm .missing (.splitRange 1 7 soloConfig.nodeId 5)) = some s ∧
    storeStep blankDigest s (.call calm .missing (.mergeRanges 1 2 soloConfig.nodeId 6)) = some s' ∧
    rangeIdsOf s.topology = [1, 2] ∧ rangeIdsOf s'.topology = [1] ∧
    FencedMoments first s.topology s'.topology := by
  obtain ⟨first, hfirst, hrun⟩ := exists_ok (initialTopology soloConfig 0) (fun first =>
    (storeStep blankDigest ⟨true, soloConfig, first⟩
      (.call calm .missing (.splitRange 1 7 soloConfig.nodeId 5))).any (fun s =>
        (storeStep blankDigest s
          (.call calm .missing (.mergeRanges 1 2 soloConfig.nodeId 6))).any fun s' =>
            decide (rangeIdsOf s.topology = [1, 2] ∧ rangeIdsOf s'.topology = [1])) = true)
    (by decide +kernel)
  obtain ⟨s, hs, hrun⟩ := (Option.any_eq_true _ _).1 hrun
  obtain ⟨s', hs', hrun⟩ := (Option.any_eq_true _ _).1 hrun
  obtain ⟨hids, hids'⟩ := of_decide_eq_true hrun
  exact ⟨first, s, s', hfirst, hs, hs', hids, hids', epochs_fence_token_map blankDigest soloConfig 0
    first hfirst ⟨true, soloConfig, first⟩ s s' (.next (a := .fork) .start trivial rfl)
    (.next .start (by trivial) hs) (.next .start (by trivial) hs')⟩

/-- One fork splits the range, the other has the higher generation. Installed in this order, the
epoch falls from 2 to 1 and the next split gives the id 2 out again. -/
theorem installed_forks_not_fenced : ∃ (first left right : ClusterTopology)
    (s s' s'' : DistributionStore), initialTopology soloConfig 0 = .ok first ∧
    Descends blankDigest first left ∧ Descends blankDigest first right ∧
    storeStep blankDigest ⟨false, soloConfig, first⟩ (.install calm .missing left) = some s ∧
    storeStep blankDigest s (.install calm .missing right) = some s' ∧
    storeStep blankDigest s' (.call calm (.envelope ⟨right, ""⟩)
      (.splitRange 1 9 soloConfig.nodeId 5)) = some s'' ∧
    ((s.topology.rangeForToken 0).map (·.epoch)).toOption = some 2 ∧
    ((s'.topology.rangeForToken 0).map (·.epoch)).toOption = some 1 ∧
    s.topology.ranges.values.map (fun range => (range.id, range.startToken)) = [(1, 0), (2, 7)] ∧
    s'.topology.ranges.values.map (fun range => (range.id, range.startToken)) = [(1, 0)] ∧
    s''.topology.ranges.values.map (fun range => (range.id, range.startToken)) =
      [(1, 0), (2, 9)] := by
  obtain ⟨first, hfirst, hleft, honce, htwice, hrun⟩ :=
    exists_ok (initialTopology soloConfig 0) (fun first =>
      let fork : DistributionStore := ⟨true, soloConfig, first⟩
      let left := fork.call blankDigest calm .missing (.splitRange 1 7 soloConfig.nodeId 5)
      let once := fork.call blankDigest calm .missing (soloHeartbeat ∅ 5)
      let twice := call blankDigest ⟨true, soloConfig, once.topology⟩ calm .missing
        (soloHeartbeat ∅ 6)
      left.result = .ok (.range 2) ∧ once.result = .ok (.changed true) ∧
      twice.result = .ok (.changed true) ∧
      ((storeStep blankDigest ⟨false, soloConfig, first⟩
          (.install calm .missing left.topology)).any fun s =>
        (storeStep blankDigest s (.install calm .missing twice.topology)).any fun s' =>
          (storeStep blankDigest s' (.call calm (.envelope ⟨twice.topology, ""⟩)
            (.splitRange 1 9 soloConfig.nodeId 5))).any fun s'' => decide (
              ((s.topology.rangeForToken 0).map (·.epoch)).toOption = some 2 ∧
              ((s'.topology.rangeForToken 0).map (·.epoch)).toOption = some 1 ∧
              s.topology.ranges.values.map (fun range => (range.id, range.startToken)) =
                [(1, 0), (2, 7)] ∧
              s'.topology.ranges.values.map (fun range => (range.id, range.startToken)) = [(1, 0)] ∧
              s''.topology.ranges.values.map (fun range => (range.id, range.startToken)) =
                [(1, 0), (2, 9)])) = true) (by decide +kernel)
  obtain ⟨s, hs, hrun⟩ := (Option.any_eq_true _ _).1 hrun
  obtain ⟨s', hs', hrun⟩ := (Option.any_eq_true _ _).1 hrun
  obtain ⟨s'', hs'', hrun⟩ := (Option.any_eq_true _ _).1 hrun
  exact ⟨first, _, _, s, s', s'', hfirst, .call .refl hleft,
    .call (.call .refl honce) htwice, hs, hs', hs'', of_decide_eq_true hrun⟩

end BicDb.Distribution
