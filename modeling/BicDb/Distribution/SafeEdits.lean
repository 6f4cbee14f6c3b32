import BicDb.Distribution.Reshaping

/-!
# How operations on members and ranges end

An operation edits the topology before it knows that it will succeed. For each one there is what
its body leaves when it stops, when the topology it hands to `commit_change` is valid, and whether
that topology is a new one.

## What this module delivers

* `SameLog`: no body writes the generation or the history.
* `Ends`: a refusal leaves the topology as it was exactly under `clean`; what is committed is valid
  exactly under `valid` and the old topology exactly under `repeats`.
* `Safe`: the bodies that never leave an edit behind and commit only valid, changed topologies.
* `joinNode_ends`, `joinMetadataLearner_ends`, `heartbeatWithCertificate_ends`: members, where only
  the final validation sees that a node is not valid.
* `splitRange_ends`, `setRangePlacement_ends`: ranges, where the ids or epochs run out after the
  first edit.
-/

namespace BicDb.Distribution

open BicDb.Foundation List OrderedMap ClusterNode
open BicDb.Metadata (ClusterNodeLifecycle MetadataMemberRole)

/-- The generation and the history are those of `topology`: only `commit_change` writes them. -/
structure SameLog (topology topology' : ClusterTopology) : Prop where
  generation : topology'.generation = topology.generation
  history : topology'.history = topology.history

/-- How the body of an operation ends. -/
def Ends {α : Type} (topology : ClusterTopology) (clean valid repeats : Prop) (edit : Edit α) :
    Prop :=
  edit.All (fun topology' => SameLog topology topology' ∧ (topology' = topology ↔ clean))
    fun topology' => SameLog topology topology' ∧ (TopologyOk topology' ↔ valid) ∧
      (topology' = topology ↔ repeats)

/-- Refusals change nothing, and what is committed is valid and new. -/
abbrev Safe {α : Type} (topology : ClusterTopology) (edit : Edit α) : Prop :=
  Ends topology True True False edit

variable {α β : Type} {topology topology' : ClusterTopology} {id nodeId actor : ClusterNodeId}
  {node old new : ClusterNode} {rangeId : RangeId} {nowMs : Nat} {clean valid repeats : Prop}

theorem Ends.refuse {error : BicDbError} (h : clean) :
    Ends topology clean valid repeats (.refuse error topology : Edit α) :=
  ⟨⟨rfl, rfl⟩, iff_of_true rfl h⟩

theorem Ends.checkedIf {check : Except BicDbError β} {rest : β → Edit α}
    (hclean : ∀ error, check = .error error → clean)
    (h : ∀ value, check = .ok value → Ends topology clean valid repeats (rest value)) :
    Ends topology clean valid repeats (Edit.checked topology check rest) := by
  cases check with
  | error error => exact .refuse (hclean error rfl)
  | ok value => exact h value rfl

theorem Ends.checked {check : Except BicDbError β} {rest : β → Edit α}
    (h : ∀ value, check = .ok value → Ends topology True valid repeats (rest value)) :
    Ends topology True valid repeats (Edit.checked topology check rest) :=
  .checkedIf (fun _ _ => trivial) h

theorem Ends.require {p : Prop} [Decidable p] {error : BicDbError} {rest : Unit → Edit α}
    (h : p → Ends topology True valid repeats (rest ())) :
    Ends topology True valid repeats (Edit.checked topology (require p error) rest) :=
  .checked fun _ hcheck => h (require_eq_ok.1 hcheck)

theorem Ends.commit {summary : String} {value : α} (hlog : SameLog topology topology')
    (hvalid : TopologyOk topology' ↔ valid) (hne : topology' ≠ topology) :
    Ends topology clean valid False (.commit topology' actor nowMs summary value) :=
  ⟨hlog, hvalid, iff_of_false hne id⟩

theorem Safe.commit {summary : String} {value : α} (hlog : SameLog topology topology')
    (hok : TopologyOk topology') (hne : topology' ≠ topology) :
    Ends topology clean True False (.commit topology' actor nowMs summary value) :=
  Ends.commit hlog (iff_of_true hok trivial) hne

theorem setNode_ne (h : topology.nodes.get? id ≠ some new) :
    topology.setNode id new ≠ topology := by
  intro heq
  apply h
  rw [← heq, ClusterTopology.setNode, get?_insert, if_pos rfl]

/-! ## Members -/

/-- A node that joins is not the one that is there. -/
theorem ne_of_checkRejoin (hjoins : checkRejoin topology node = .ok true) :
    topology.nodes.get? node.id ≠ some node := by
  intro hget
  simp only [checkRejoin, hget] at hjoins
  split_ifs at hjoins
  · cases hjoins
  · rw [andThen_eq_ok, andThen_eq_ok, require_eq_ok, require_eq_ok] at hjoins
    exact lt_irrefl _ hjoins.2.1

section Members

variable (h : TopologyOk topology)

include h

theorem TopologyOk.nodeOk (hget : topology.nodes.get? id = some node) : NodeOk id node :=
  h.nodes.each (id, node) (get?_eq_some_iff.1 hget)

theorem TopologyOk.voter_of_hasReplica (hget : topology.nodes.get? id = some node)
    {range : RangeDescriptor} (hr : range ∈ topology.ranges.values)
    (hreplica : range.hasReplica id = true) : node.metadataRole = .voter := by
  obtain ⟨replica, hmem, hid⟩ := any_eq_true.1 hreplica
  obtain ⟨host, hhost, hvoter⟩ := (h.ranges.each range hr).hosts replica hmem
  rw [of_decide_eq_true hid, hget] at hhost
  cases hhost
  exact hvoter

theorem TopologyOk.updateNode (hget : topology.nodes.get? id = some old) (hnode : NodeOk id new)
    (hrole : old.metadataRole = .voter → new.metadataRole = .voter)
    (hlife : new.lifecycle = .decommissioned → old.lifecycle = .decommissioned) :
    TopologyOk (topology.setNode id new) := by
  refine h.setNode hnode (fun range hr hreplica =>
    hrole (h.voter_of_hasReplica hget hr hreplica)) (any_voter_insert h.nodes.voter ?_)
  intro found hfound hvotes
  rw [hget] at hfound
  cases hfound
  simp only [isMetadataVoter, Bool.and_eq_true, decide_eq_true_eq] at hvotes ⊢
  exact ⟨fun hdead => hvotes.1 (hlife hdead), hrole hvotes.2⟩

theorem joinNode_ends :
    Ends topology True (NodeOk node.id node) False (joinNode topology node actor nowMs) := by
  refine .require fun hrole => .checked fun _ _ => .require fun hactive =>
    .checked fun joins hjoins => ?_
  split_ifs with hjoin
  · subst hjoin
    refine .commit ⟨rfl, rfl⟩
      ⟨fun h' => h'.nodes.each (node.id, node) (mem_insert_iff.2 (.inl rfl)),
      fun hnode => h.setNode hnode (fun _ _ _ => hrole) (any_voter_insert h.nodes.voter ?_)⟩
      (setNode_ne (ne_of_checkRejoin hjoins))
    intro _ _ _
    simp [isMetadataVoter, hactive, hrole]
  · trivial

theorem joinMetadataLearner_ends :
    Ends topology True (NodeOk node.id node ∧
        ∀ range ∈ topology.ranges.values, range.hasReplica node.id = false) False
      (joinMetadataLearner topology node actor nowMs) := by
  refine .require fun hrole => .checked fun _ _ => .checked fun _ _ =>
    .checked fun joins hjoins => ?_
  split_ifs with hjoin
  · subst hjoin
    refine .commit ⟨rfl, rfl⟩
      ⟨fun h' => ⟨h'.nodes.each (node.id, node) (mem_insert_iff.2 (.inl rfl)),
      fun range hr => ?_⟩, fun ⟨hnode, hempty⟩ => h.setNode hnode (fun range hr hreplica => ?_)
        (any_voter_insert h.nodes.voter ?_)⟩ (setNode_ne (ne_of_checkRejoin hjoins))
    · -- a replica on the node would make it a voter
      by_contra hreplica
      have hget : (topology.setNode node.id node).nodes.get? node.id = some node := by
        rw [ClusterTopology.setNode, get?_insert, if_pos rfl]
      have hvoter := h'.voter_of_hasReplica hget hr (by simpa using hreplica)
      rw [hrole] at hvoter
      cases hvoter
    · rw [hempty range hr] at hreplica
      cases hreplica
    · -- only a decommissioned node is replaced, and that one does not vote
      intro existing hexisting hvotes
      simp only [checkRejoin, hexisting] at hjoins
      split_ifs at hjoins
      · simp at hjoins
      · rw [andThen_eq_ok, require_eq_ok] at hjoins
        simp [isMetadataVoter, hjoins.1] at hvotes
  · trivial

theorem promoteMetadataLearner_safe :
    Safe topology (promoteMetadataLearner topology nodeId actor nowMs) := by
  refine .checked fun _ _ => .checked fun node hnode => .checked fun _ _ => ?_
  rw [knownNode_eq_ok] at hnode
  split_ifs
  · trivial
  · rename_i hrole
    refine Safe.commit ⟨rfl, rfl⟩ (h.updateNode hnode { h.nodeOk hnode with } (fun _ => rfl) id)
      (setNode_ne ?_)
    rw [hnode, ne_eq, Option.some.injEq]
    exact fun heq => hrole (congrArg ClusterNode.metadataRole heq)

theorem stageTlsCertificateRotation_safe {next : String} :
    Safe topology (stageTlsCertificateRotation topology nodeId next actor nowMs) := by
  refine .checked fun _ _ => .checked fun _ _ => .checked fun _ hsha =>
    .checked fun node hnode => .checked fun _ _ => .checked fun stages hstages => ?_
  rw [knownNode_eq_ok] at hnode
  rw [validateCertificateSha256, require_eq_ok] at hsha
  split_ifs with hstage
  · subst hstage
    unfold checkRotation at hstages
    split at hstages
    · cases hstages
    rename_i active hactive
    split_ifs at hstages with hsame
    · rw [andThen_eq_ok] at hstages
      cases hstages.2
    split at hstages
    · rename_i hpending
      refine Safe.commit ⟨rfl, rfl⟩ (h.updateNode hnode { h.nodeOk hnode with pending := ?_ } id id)
        (setNode_ne ?_)
      · intro sha256 hmem
        cases hmem
        refine ⟨hsha, ?_, ?_⟩
        · simp [hactive]
        · simpa only [hactive, ne_eq, Option.some.injEq] using hsame
      · rw [hnode, ne_eq, Option.some.injEq]
        intro heq
        have := congrArg ClusterNode.pendingTlsCertificateSha256 heq
        simp [hpending] at this
    · rw [andThen_eq_ok] at hstages
      cases hstages.2
  · trivial

theorem abortTlsCertificateRotation_safe :
    Safe topology (abortTlsCertificateRotation topology nodeId actor nowMs) := by
  refine .checked fun _ _ => .checked fun _ _ => .checked fun node hnode => .checked fun _ _ => ?_
  rw [knownNode_eq_ok] at hnode
  split_ifs with hnone
  · trivial
  · refine Safe.commit ⟨rfl, rfl⟩
      (h.updateNode hnode { h.nodeOk hnode with pending := nofun } id id)
      (setNode_ne ?_)
    rw [hnode, ne_eq, Option.some.injEq]
    intro heq
    have := congrArg ClusterNode.pendingTlsCertificateSha256 heq
    simp [this] at hnone

theorem beginDrain_safe : Safe topology (beginDrain topology nodeId actor nowMs) := by
  refine .checked fun _ _ => .checked fun node hnode => ?_
  rw [knownNode_eq_ok] at hnode
  split
  · rename_i hactive
    refine Safe.commit ⟨rfl, rfl⟩ (h.updateNode hnode { h.nodeOk hnode with } id nofun)
      (setNode_ne ?_)
    rw [hnode, ne_eq, Option.some.injEq]
    intro heq
    have := congrArg ClusterNode.lifecycle heq
    simp [hactive] at this
  · trivial
  · exact .refuse trivial

theorem decommissionNode_safe {localNode : ClusterNodeId} :
    Safe topology (decommissionNode topology localNode nodeId actor nowMs) := by
  refine .checked fun _ _ => .checked fun _ _ => .checked fun safety hsafety =>
    .require fun hcan => .checked fun node hnode => ?_
  rw [knownNode_eq_ok] at hnode
  split
  · exact .refuse trivial
  · rename_i hdraining
    have hrole : ∀ range ∈ topology.ranges.values, range.hasReplica nodeId = true →
        node.metadataRole = .voter := fun _ hr => h.voter_of_hasReplica hnode hr
    refine Safe.commit ⟨rfl, rfl⟩ (h.setNode { h.nodeOk hnode with } hrole ?_) (setNode_ne ?_)
    rotate_left
    · rw [hnode, ne_eq, Option.some.injEq]
      intro heq
      have := congrArg ClusterNode.lifecycle heq
      simp [hdraining] at this
    -- the node was assessed as removable, so an active voter other than the node remains
    rw [assessNodeRemoval, bind_eq_ok] at hsafety
    obtain ⟨found, hfound, ⟨⟩⟩ := hsafety
    cases hnode.symm.trans (knownNode_eq_ok.1 hfound)
    have hremain : topology.replicationFactor ≤
        (topology.nodes.values.filter (remainsActive nodeId)).length := by
      simp only [hdraining, List.isEmpty_iff] at hcan
      by_contra hfew
      simp only [if_pos (not_le.1 hfew)] at hcan
      simp at hcan
    have hpos := Nat.lt_of_lt_of_le (Nat.pos_of_ne_zero h.replicationFactor) hremain
    obtain ⟨other, hother⟩ := exists_mem_of_length_pos hpos
    obtain ⟨hmem, hactive⟩ := mem_filter.1 hother
    obtain ⟨key, hentry⟩ := mem_values_iff.1 hmem
    simp only [remainsActive, Bool.and_eq_true, decide_eq_true_eq] at hactive
    have hkey : key ≠ nodeId := by
      have hid : key = other.id := (h.nodes.each (key, other) hentry).id_eq
      exact hid ▸ hactive.1.1
    refine any_eq_true.2 ⟨other, mem_values_iff.2 ⟨key, mem_insert_iff.2 (.inr ⟨hentry, hkey⟩)⟩, ?_⟩
    simp [isMetadataVoter, hactive.1.2, hactive.2]
  · trivial

end Members

/-! ## Heartbeats -/

/-- What the validator asks of the reserved labels. -/
structure ReservedLabelOk (key value : String) : Prop where
  schema : key = schemaCompatibilityNodeLabel ∨ key = schemaCompatibilityTargetNodeLabel →
    isLowerSha256 value = true
  bootstrap : key = schemaBootstrapNodeLabel → value = "true"

variable {labels labels' : Labels} {certificate : Option String}

theorem NodeOk.bindCertificate (h : NodeOk nodeId node)
    (hcheck : checkHeartbeatCertificate nodeId node certificate = .ok ()) :
    NodeOk nodeId (bindCertificate node certificate) := by
  unfold Distribution.bindCertificate
  split
  · exact h
  rename_i fingerprint
  simp only [checkHeartbeatCertificate, validateCertificateSha256, andThen_eq_ok,
    require_eq_ok] at hcheck
  have hsha : ∀ sha256 ∈ some fingerprint, isLowerSha256 sha256 = true := by
    intro sha256 hmem
    cases hmem
    exact hcheck.1
  split_ifs with hpending hnone
  · exact { h with certificate := hsha, pending := nofun }
  · refine { h with certificate := hsha, pending := fun sha256 hmem => ?_ }
    -- a certificate is pending only beside an active one
    have := (h.pending sha256 hmem).2.1
    simp [hnone] at this
  · exact h

theorem bindCertificate_role :
    (bindCertificate node certificate).metadataRole = node.metadataRole ∧
      (bindCertificate node certificate).lifecycle = node.lifecycle := by
  unfold bindCertificate
  split
  · exact ⟨rfl, rfl⟩
  · split_ifs <;> exact ⟨rfl, rfl⟩

/-- A heartbeat that is written changes its node. -/
theorem heartbeat_ne {usedBytes capacityBytes : Nat}
    (hchanged : ¬ (node.usedBytes = usedBytes ∧ node.capacityBytes = capacityBytes ∧
      node.labels = labels ∧ ¬ (node.tlsCertificateSha256 = none ∧ certificate.isSome = true) ∧
      (∀ pending ∈ node.pendingTlsCertificateSha256, certificate ≠ some pending) ∧
      node.lastHeartbeatMs = nowMs)) :
    { bindCertificate node certificate with
      usedBytes := usedBytes
      capacityBytes := capacityBytes
      labels := labels
      lastHeartbeatMs := nowMs } ≠ node := by
  intro heq
  have htls := congrArg ClusterNode.tlsCertificateSha256 heq
  have hpending := congrArg ClusterNode.pendingTlsCertificateSha256 heq
  apply hchanged
  refine ⟨(congrArg ClusterNode.usedBytes heq).symm, (congrArg ClusterNode.capacityBytes heq).symm,
    (congrArg ClusterNode.labels heq).symm, ?_, ?_, (congrArg ClusterNode.lastHeartbeatMs heq).symm⟩
  · rintro ⟨hnone, hsome⟩
    obtain ⟨fingerprint, rfl⟩ := Option.isSome_iff_exists.1 hsome
    simp only [bindCertificate] at htls
    split_ifs at htls with hstaged
    · simp [hnone] at htls
    · simp [hnone] at htls
  · rintro pending hmem rfl
    have hstaged : node.pendingTlsCertificateSha256 = some pending := hmem
    simp [bindCertificate, hstaged] at hpending

/-- The reserved labels that a heartbeat would leave on a node have valid values. -/
def HeartbeatLabelsOk (topology : ClusterTopology) (nodeId : ClusterNodeId) (labels : Labels) :
    Prop :=
  ∀ node labels', topology.knownNode nodeId = .ok node →
    heartbeatLabels nodeId node labels = .ok labels' →
      ∀ label ∈ labels'.entries, ReservedLabelOk label.1 label.2

theorem heartbeatWithCertificate_ends {incarnation usedBytes capacityBytes : Nat}
    (h : TopologyOk topology) :
    Ends topology True (HeartbeatLabelsOk topology nodeId labels) False
      (heartbeatWithCertificate topology nodeId incarnation usedBytes capacityBytes labels
        certificate nowMs) := by
  refine .checked fun node hknown => .checked fun _ _ => .checked fun _ _ =>
    .require fun hcapacity => .checked fun labels' hmerge => .checked fun _ hformat =>
    .checked fun _ hcertificate => ?_
  have hnode := knownNode_eq_ok.1 hknown
  rw [forAll_eq_ok] at hformat
  split_ifs with hlate hsame
  · trivial
  · trivial
  · have hold := h.nodeOk hnode
    have hbound := hold.bindCertificate hcertificate
    obtain ⟨hrole, hlife⟩ := @bindCertificate_role node certificate
    refine .commit ⟨rfl, rfl⟩ ⟨fun h' => ?_, fun hlabels => h.updateNode hnode { hbound with
      capacity := hcapacity.1, used := hcapacity.2, labels := fun label hmem => ?_ }
      (fun hvoter => hrole.trans hvoter) (fun hdead => hlife.symm.trans hdead)⟩
      (setNode_ne
        (by rw [hnode, ne_eq, Option.some.injEq]; exact fun heq => heartbeat_ne hsame heq.symm))
    · intro found merged hfound hmerged label hmem
      cases hknown.symm.trans hfound
      cases hmerge.symm.trans hmerged
      have hok := (h'.nodes.each (nodeId, _) (mem_insert_iff.2 (.inl rfl))).labels label hmem
      exact ⟨hok.schema, hok.bootstrap⟩
    · obtain ⟨hkey, hvalue⟩ := validateLabel_eq_ok.1 (hformat label hmem)
      have hreserved := hlabels node labels' hknown hmerge label hmem
      exact ⟨hkey, hvalue, hreserved.schema, hreserved.bootstrap⟩

/-! ## Ranges -/

variable (h : TopologyOk topology)

include h

/-- A split that passes its checks stops, if at all, where there is no range id to take. -/
def SplitStopsFirst (topology : ClusterTopology) (rangeId : RangeId) (splitToken : Nat)
    (actor : ClusterNodeId) : Prop :=
  ∀ entry, topology.ensureActor actor = .ok () →
    topology.ensureNoRelocation "split range" rangeId = .ok () →
    topology.rangeEntry rangeId = .ok entry →
    entry.2.startToken < splitToken ∧ (∀ stop ∈ entry.2.endToken, splitToken < stop) →
      u64Max ≤ topology.nextRangeId

theorem splitRange_ends {splitToken : Nat} :
    Ends topology (SplitStopsFirst topology rangeId splitToken actor) True False
      (splitRange topology rangeId splitToken actor nowMs) := by
  refine .checkedIf (fun _ herror _ hok => ?_) fun _ hactor =>
    .checkedIf (fun _ herror _ _ hok => ?_)
    fun _ hcheck => .checkedIf (fun _ herror _ _ _ hok => ?_) fun entry hentry =>
    .checkedIf (fun _ herror found _ _ hfound hok => ?_) fun _ hinside => ?_
  · cases hok.symm.trans herror
  · cases hok.symm.trans herror
  · cases hok.symm.trans herror
  · cases hfound.symm.trans hentry
    rw [require, if_pos hok] at herror
    cases herror
  obtain ⟨start, original⟩ := entry
  have hidle := ensureNoRelocation_eq_ok.1 hcheck
  rw [require_eq_ok] at hinside
  obtain ⟨hmem, hid⟩ := rangeEntry_eq_ok hentry
  split
  · rename_i hfull
    exact .refuse fun _ _ _ _ _ => checkedSucc_eq_none.1 hfull
  rename_i nextRangeId hnext
  obtain ⟨hlt, rfl⟩ := checkedSucc_eq_some.1 hnext
  -- the range id has been taken
  have hharmed : ¬ SplitStopsFirst topology rangeId splitToken actor := fun hstops =>
    absurd (hstops (start, original) hactor hcheck hentry hinside) (not_le.2 hlt)
  have hne : ∀ topology' : ClusterTopology, topology'.nextRangeId = topology.nextRangeId + 1 →
      topology' ≠ topology := by
    rintro _ hid rfl
    exact absurd hid (Nat.lt_succ_self _).ne
  split
  · exact ⟨⟨rfl, rfl⟩, iff_of_false (hne _ rfl) hharmed⟩
  rename_i nextEpoch hepoch
  obtain ⟨-, rfl⟩ := checkedSucc_eq_some.1 hepoch
  split
  · exact ⟨⟨rfl, rfl⟩, iff_of_false (hne _ rfl) hharmed⟩
  rename_i copies nextReplicaId hcopies
  subst hid
  exact Safe.commit ⟨rfl, rfl⟩
    (h.split hmem hidle hinside.1 hinside.2 (Nat.succ_ne_zero _) hcopies) (hne _ rfl)

omit h in
/-- The right one of two merged ranges is gone. -/
theorem erased_ne {ranges : Ranges} {entry : Nat × RangeDescriptor}
    (hentry : entry ∈ topology.ranges.entries) :
    { topology with ranges := ranges.erase entry.1 } ≠ topology := by
  intro heq
  have hget := congrArg (fun topology : ClusterTopology => topology.ranges.get? entry.1) heq
  simp only [get?_erase, if_true] at hget
  rw [get?_eq_some_iff.2 hentry] at hget
  cases hget

theorem mergeRanges_safe {firstId secondId : RangeId} :
    Safe topology (mergeRanges topology firstId secondId actor nowMs) := by
  refine .checked fun _ _ => .require fun hne => .checked fun _ hidle =>
    .checked fun _ hidle' => .checked fun first hfirst => .checked fun second hsecond =>
    .require fun hmeet => .checked fun _ _ => ?_
  rw [ensureNoRelocation_eq_ok] at hidle hidle'
  obtain ⟨hfirstMem, rfl⟩ := rangeEntry_eq_ok hfirst
  obtain ⟨hsecondMem, rfl⟩ := rangeEntry_eq_ok hsecond
  split
  · exact .refuse trivial
  rename_i epoch hepoch
  have hraised : epoch ≠ 0 := by
    rw [(checkedSucc_eq_some.1 hepoch).2]
    exact Nat.succ_ne_zero _
  by_cases hlt : first.1 < second.1
  · simp only [if_pos hlt] at hmeet ⊢
    exact Safe.commit ⟨rfl, rfl⟩
      (h.merge hfirstMem hsecondMem hlt hmeet rfl rfl rfl rfl rfl rfl hraised hidle hidle')
      (erased_ne hsecondMem)
  · simp only [if_neg hlt] at hmeet ⊢
    -- the two entries are different, so the second one stands first
    have hlt' : second.1 < first.1 := by
      refine lt_of_le_of_ne (not_lt.1 hlt) fun heq => hne ?_
      rw [inj_on_of_nodup_map topology.ranges.keys_nodup hsecondMem hfirstMem heq]
    exact Safe.commit ⟨rfl, rfl⟩
      (h.merge hsecondMem hfirstMem hlt' hmeet rfl rfl rfl rfl rfl rfl hraised hidle' hidle)
      (erased_ne hfirstMem)

/-- A change of placement that passes its checks and has something to change does not stop. -/
def PlacementStopsFirst (topology : ClusterTopology) (rangeId : RangeId)
    (placement : PlacementPolicy) (actor : ClusterNodeId) : Prop :=
  ∀ range, topology.ensureActor actor = .ok () →
    topology.ensureNoRelocation "change placement for range" rangeId = .ok () →
    placement.normalize.validate = .ok () → topology.knownRange rangeId = .ok range →
      range.placement = placement.normalize

theorem setRangePlacement_ends {placement : PlacementPolicy} :
    Ends topology (PlacementStopsFirst topology rangeId placement actor) True False
      (setRangePlacement topology rangeId placement actor nowMs) := by
  refine .checkedIf (fun _ herror _ hok => ?_) fun _ hactor =>
    .checkedIf (fun _ herror _ _ hok => ?_)
    fun _ hcheck => .checkedIf (fun _ herror _ _ _ hok => ?_) fun _ hplacement =>
    .checkedIf (fun _ herror _ _ _ _ hok => ?_) fun range hrange => ?_
  · cases hok.symm.trans herror
  · cases hok.symm.trans herror
  · cases hok.symm.trans herror
  · cases hok.symm.trans herror
  have hidle := ensureNoRelocation_eq_ok.1 hcheck
  have hids := h.ranges.rangeIds
  obtain ⟨hr, hid⟩ := (knownRange_eq_ok h.ranges.toMapOk).1 hrange
  split_ifs with hsame
  · trivial
  have hharmed : ¬ PlacementStopsFirst topology rangeId placement actor := fun hstops =>
    hsame (hstops range hactor hcheck hplacement hrange)
  have hok := h.ranges.each range hr
  subst hid
  split
  · refine ⟨⟨rfl, rfl⟩, iff_of_false (fun heq => hsame ?_) hharmed⟩
    exact (congrArg RangeDescriptor.placement ((modifyRange_eq_iff hids hr rfl).1 heq)).symm
  · rename_i epoch hepoch
    obtain ⟨-, rfl⟩ := checkedSucc_eq_some.1 hepoch
    refine Safe.commit ⟨rfl, rfl⟩ (h.modifyRange hr ⟨rfl, rfl, rfl⟩
      { hok with epoch_ne := Nat.succ_ne_zero _, placement := hplacement }
      (fun replica hreplica => mem_map_of_mem hreplica) (fun hbusy => absurd hidle hbusy))
      fun heq => hsame ?_
    exact (congrArg RangeDescriptor.placement ((modifyRange_eq_iff hids hr rfl).1 heq)).symm

theorem updateRangeLoad_safe {bytes qps : Nat} :
    Safe topology (updateRangeLoad topology rangeId bytes qps actor nowMs) := by
  refine .checked fun _ _ => .checked fun range hrange => ?_
  obtain ⟨hr, rfl⟩ := (knownRange_eq_ok h.ranges.toMapOk).1 hrange
  split_ifs with hsame
  · trivial
  · refine Safe.commit ⟨rfl, rfl⟩ (h.modifyRange hr ⟨rfl, rfl, rfl⟩ { h.ranges.each range hr with }
      (fun replica hreplica => mem_map_of_mem hreplica) (fun _ => ⟨rfl, rfl⟩)) fun heq => hsame ?_
    have hrange := (modifyRange_eq_iff h.ranges.rangeIds hr rfl).1 heq
    exact ⟨(congrArg RangeDescriptor.approximateBytes hrange).symm,
      (congrArg RangeDescriptor.approximateQps hrange).symm⟩

end BicDb.Distribution
