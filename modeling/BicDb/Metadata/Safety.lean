import BicDb.Metadata.Appends

/-!
# Safety of metadata consensus

No two nodes commit different entries at one index, no commit index falls, and at most one node
becomes leader in a term. Both need that no append request meets a stale suffix, the last that voter
sets overlap enough.

## What this module delivers

* `inv_of_reach`: the invariant in every run.
* `metadataStateMachineSafety`, `metadataElectionSafety`: the two results.
* `staleSuffix_commits_two_entries`, `disjointVoters_elect_two_leaders`: runs without the
  conditions.
-/

namespace BicDb.Metadata

open BicDb.Foundation MetadataCluster List

variable {ι ρ δ : Type*} [DecidableEq ι] [DecidableEq ρ]
  {P : Platform ι ρ δ} {B : Bootstrap P} {M : Care}
  {H H' : History ι (MetadataLogEntry ι ρ)} {a a' : ι → Replica ι (MetadataLogEntry ι ρ)}
  {c c' : MetadataCluster ι ρ δ}

/-! ## The invariant along runs -/

omit [DecidableEq ρ] in
/-- The invariant holds at the start. -/
theorem inv_init (B : Bootstrap P) (M : Care) :
    Inv B M (init P B) History.empty fun _ => ⟨0, none, .follower, [], 0⟩ where
  protocol :=
    { sound := History.Sound.init _
      wellFormed := fun _ => logOk_nil.wellFormed (M := M)
      elections := nofun
      node := fun n =>
        { voted := rfl
          candidate := nofun
          standing := nofun
          elected := nofun
          leads := nofun
          commit_le := le_rfl, settled := .nil, single := Nat.zero_le _ }
      retired := nofun
      voteTerm := nofun
      ballots := nofun }
  logs := fun _ => logOk_nil
  short := fun _ => by
    show 0 < u64Max
    decide
  node := fun n => StoreInv.persist
    { state := ⟨none, rfl⟩, activation := fun _ => rfl
      fresh := nofun
      reached := nofun
      lone := nofun
      committed := nofun
      installed := nofun }
  recorded := nofun
  voteRequests := nofun
  voteResponses := nofun
  appendRequests := nofun
  appendResponses := nofun
  leaders := nofun

/-- The conditions on a step for the invariant. -/
def SafeStep (M : Care) (c : MetadataCluster ι ρ δ) (act : Action ι ρ) : Prop :=
  CountersBelow c act ∧ NoStaleSuffix c act ∧ VotersOverlap c act ∧
    (M.carry → CarriesActivations c act) ∧ (M.carry → M.frozen → TopologyFrozen c act)

variable {act : Action ι ρ}

/-- **One step** keeps the invariant; no settled length falls. -/
theorem inv_step (h : Inv B M c H a) (hok : SafeStep M c act)
    (hstep : clusterStep P B c act = some c') : Continues B M c' a := by
  obtain ⟨hcount, hstale, hoverlap, hcarries, hfrozen⟩ := hok
  cases act with
  | startElection n =>
    cases hstep
    exact h.startElection hcount
  | handleVoteRequest =>
    simp only [clusterStep, call] at hstep
    split at hstep
    · cases hstep
    next request hreq =>
    cases hstep
    exact h.handleVoteRequest (mem_of_getElem? hreq)
  | becomeLeader n votes =>
    simp only [clusterStep, call] at hstep
    split at hstep
    · next hvotes =>
        cases hstep
        exact h.becomeLeader hvotes hcount hcarries
    · cases hstep
  | proposeTopology =>
    cases hstep
    exact h.proposeTopology hcount hoverlap hfrozen
  | proposeRestoreActivation =>
    cases hstep
    exact h.proposeRestoreActivation hcount
  | appendRequestFrom n nextIndex maxEntries =>
    cases hstep
    exact h.appendRequestFrom nextIndex maxEntries
  | handleAppendRequest =>
    simp only [clusterStep, call] at hstep
    split at hstep
    · cases hstep
    next request hreq =>
    cases hstep
    exact h.handleAppendRequest (mem_of_getElem? hreq) (hstale request hreq)
      fun hcarry => hcarries hcarry request hreq
  | recordAppendResponse =>
    simp only [clusterStep, call] at hstep
    split at hstep
    · cases hstep
    next leader response hans =>
    split at hstep
    · next hto =>
        subst hto
        cases hstep
        exact h.recordAppendResponse (mem_of_getElem? hans)
    · cases hstep
  | observeRemoteTerm n term =>
    cases hstep
    exact h.observeRemoteTerm n term
  | relinquishLeadership n =>
    cases hstep
    exact h.relinquishLeadership n
  | restart n =>
    simp only [clusterStep, call] at hstep
    split at hstep
    · cases hstep
      exact h.continues
    · next nd hopen =>
        cases hstep
        exact h.restart hopen

/-- **Every reachable cluster** has a history and replicas. -/
theorem inv_of_reach (h : Reach (clusterStep P B) (SafeStep M) (init P B) c) :
    ∃ H a, Inv B M c H a := by
  refine h.invariant (fun c => ∃ H a, Inv B M c H a) ⟨_, _, inv_init B M⟩ ?_
  rintro s act s' ⟨H, a, hinv⟩ hok hstep
  obtain ⟨H', a', hinv', -⟩ := inv_step hinv hok hstep
  exact ⟨H', a', hinv'⟩

/-! ## What nodes commit -/

omit [DecidableEq ρ] in
theorem Inv.comparable (h : Inv B M c H a) (m n : ι) :
    (a m).log.take (a m).commit <+: (a n).log.take (a n).commit ∨
      (a n).log.take (a n).commit <+: (a m).log.take (a m).commit :=
  (h.protocol.node m).settled.comparable h.protocol.sound h.protocol.wellFormed
    h.protocol.elections (h.protocol.node n).settled

omit [DecidableEq ρ] in
theorem Inv.common_log (h : Inv B M c H a) (m n : ι) :
    ∃ L, LogOk B M L ∧ (a m).log.take (a m).commit <+: L ∧ (a n).log.take (a n).commit <+: L := by
  rcases h.comparable m n with hp | hp
  · exact ⟨_, (h.logOk n).anti <| take_prefix _ _, hp, prefix_rfl⟩
  · exact ⟨_, (h.logOk m).anti <| take_prefix _ _, prefix_rfl, hp⟩

omit [DecidableEq ρ] in
theorem SnapshotOf.agrees {L p : List (MetadataLogEntry ι ρ)} {S : MetadataSnapshot ι ρ}
    (hL : LogOk B M L) (hp : p <+: L) (hS : SnapshotOf B M p S) {e : MetadataLogEntry ι ρ}
    (he : e ∈ L) (hidx : e.index = S.lastIncludedIndex) :
    S.lastIncludedTerm = e.term ∧ S.topology = e.topology := by
  have hlen : e.index = p.length := hidx.trans hS.index
  rcases eq_nil_or_concat' p with rfl | ⟨q, x, rfl⟩
  · -- indexes start at one, so no entry has the index of the empty prefix
    obtain ⟨k, hk, rfl⟩ := mem_iff_getElem.mp he
    have hpos := hL.indexed.get (getElem?_eq_getElem hk)
    rw [length_nil] at hlen
    omega
  · have hx : x ∈ L := hp.subset (mem_append_right q (mem_singleton.mpr rfl))
    have hxidx : x.index = q.length + 1 := by
      have hget := (hL.indexed.anti hp).get (getElem?_concat_length)
      omega
    rw [length_append, length_singleton, ← hxidx] at hlen
    have hex : e = x := hL.indexed.eq_of_index he hx hlen
    rw [hS.term, hS.topology, hex]
    exact ⟨lastTerm_concat _ _, topologyAt_concat _ _ _⟩

/-- What two nodes have committed agrees. -/
structure CommitsAgree (c : MetadataCluster ι ρ δ) (m n : ι) : Prop where
  entries : ∀ e ∈ (c.node m).store.committed, ∀ e' ∈ (c.node n).store.committed,
    e.index = e'.index → e = e'
  snapshot : ∀ S ∈ (c.node m).store.installed, ∀ e ∈ (c.node n).store.committed,
    e.index = S.lastIncludedIndex → S.lastIncludedTerm = e.term ∧ S.topology = e.topology
  snapshots : ∀ S ∈ (c.node m).store.installed, ∀ S' ∈ (c.node n).store.installed,
    S.lastIncludedIndex = S'.lastIncludedIndex →
      S.lastIncludedTerm = S'.lastIncludedTerm ∧ S.topology = S'.topology

omit [DecidableEq ρ] in
theorem Inv.commitsAgree (h : Inv B M c H a) (m n : ι) : CommitsAgree c m n := by
  obtain ⟨L, hL, hm, hn⟩ := h.common_log m n
  obtain ⟨-, -, hmc, hms⟩ := (h.node m).committed
  obtain ⟨-, -, hnc, hns⟩ := (h.node n).committed
  refine ⟨?_, ?_, ?_⟩
  · intro e he e' he' hidx
    exact hL.indexed.eq_of_index (hm.subset (hmc e he)) (hn.subset (hnc e' he')) hidx
  · intro S hS e he hidx
    obtain ⟨p, hp, hof⟩ := hms S hS
    exact hof.agrees hL (hp.trans hm) (hn.subset (hnc e he)) hidx
  · intro S hS S' hS' hidx
    obtain ⟨p, hp, hof⟩ := hms S hS
    obtain ⟨p', hp', hof'⟩ := hns S' hS'
    have heq : p = p' := by
      have hlen : p.length = p'.length := by rw [← hof.index, hidx, hof'.index]
      exact (prefix_of_prefix_length_le (hp.trans hm) (hp'.trans hn) hlen.le).eq_of_length hlen
    subst heq
    rw [hof.term, hof'.term, hof.topology, hof'.topology]
    exact ⟨rfl, rfl⟩

/-! ## State-machine safety -/

/-- The conditions on a step for agreement. -/
def CommitSafe (c : MetadataCluster ι ρ δ) (act : Action ι ρ) : Prop :=
  CountersBelow c act ∧ NoStaleSuffix c act ∧ SingleVoterChange c act

instance (c : MetadataCluster ι ρ δ) (act : Action ι ρ) : Decidable (CommitSafe c act) :=
  inferInstanceAs (Decidable (_ ∧ _ ∧ _))

def plainCare : Care := ⟨False, False⟩

omit [DecidableEq ρ] in
theorem votersOverlap_of_single (h : SingleVoterChange c act) :
    VotersOverlap c act := by
  cases act with
  | proposeTopology =>
    exact overlap_of_distance_le_one (ClusterTopology.metadataVoters_nodup _)
      (ClusterTopology.metadataVoters_nodup _) h
  | _ => trivial

omit [DecidableEq ρ] in
theorem CommitSafe.safeStep (h : CommitSafe c act) : SafeStep plainCare c act :=
  ⟨h.1, h.2.1, votersOverlap_of_single h.2.2, fun hc => hc.elim, fun hc => hc.elim⟩

/-- **State-machine safety**, in a run that changes one voter at a time and meets no stale suffix.
-/
theorem metadataStateMachineSafety (B : Bootstrap P)
    (h : Reach (clusterStep P B) CommitSafe (MetadataCluster.init P B) c) :
    (∀ m n, CommitsAgree c m n) ∧
      ∀ act c', CommitSafe c act → clusterStep P B c act = some c' →
        ∀ n, (c.state n).commitIndex ≤ (c'.state n).commitIndex := by
  obtain ⟨H, a, hinv⟩ := inv_of_reach (h.mono fun _ _ hok => hok.safeStep)
  refine ⟨hinv.commitsAgree, ?_⟩
  intro act c' hok hstep n
  obtain ⟨H', a', hinv', hgrow⟩ := inv_step hinv hok.safeStep hstep
  exact (hinv.node n).committed.1.trans_le ((hgrow n).trans_eq (hinv'.node n).committed.1.symm)

/-- Files hold the envelope itself, with constant checksums. -/
def plainPlatform : Platform Nat Unit (MetadataConsensusEnvelope Nat Unit) where
  restValid := fun _ => true
  topologySha256 := fun _ => List.replicate 64 'a'
  stateSha256 := fun _ => []
  toVecPretty := id
  fromSlice := some
  fromSlice_toVecPretty := fun _ => rfl

def plainTopology (generation : Nat) (nodes : List (Nat × Bool))
    (distinct : (nodes.map (·.1)).Nodup) : ClusterTopology Nat Unit where
  clusterId := 0
  generation := generation
  nodes := ⟨nodes.map fun v => ⟨v.1, .active, if v.2 then .voter else .learner⟩, by
    rw [List.map_map]
    exact distinct⟩
  rest := ()

def threeVoters (generation : Nat) : ClusterTopology Nat Unit :=
  plainTopology generation [(1, true), (2, true), (3, true)] (by decide)

def threeVoterBootstrap : Bootstrap plainPlatform := ⟨0, threeVoters 1, by decide, rfl⟩

def commitsOf (c : MetadataCluster ι ρ δ) (n : ι) :
    List (Nat × Nat × Nat) × List (Nat × Nat × Nat) :=
  ((c.node n).store.committed.map fun e => (e.index, e.term, e.topology.generation),
    (c.node n).store.installed.map fun S =>
      (S.lastIncludedIndex, S.lastIncludedTerm, S.topology.generation))

/-- Node `1` commits a barrier and a topology with node `2`; nodes `2` and `3` get a snapshot. -/
def quietRun : List (Action Nat Unit) :=
  [.startElection 1, .handleVoteRequest 2 0, .becomeLeader 1 [1, 2], .appendRequestFrom 1 1 10,
    .handleAppendRequest 2 0, .recordAppendResponse 1 2 0, .proposeTopology 1 (threeVoters 2),
    .appendRequestFrom 1 2 10, .handleAppendRequest 2 1, .recordAppendResponse 1 2 1,
    .appendRequestFrom 1 1 10, .handleAppendRequest 2 2, .handleAppendRequest 3 2]

/-- Commits and snapshots of three nodes agree. -/
theorem metadataStateMachineSafety_quietRun :
    ∃ c, Reach (clusterStep plainPlatform threeVoterBootstrap) CommitSafe
        (MetadataCluster.init plainPlatform threeVoterBootstrap) c ∧
      [1, 2, 3].map (commitsOf c) =
        [([(1, 1, 1), (2, 1, 2)], []), ([(1, 1, 1)], [(2, 1, 2)]), ([], [(2, 1, 2)])] ∧
      ∀ m n, CommitsAgree c m n :=
  exists_reach_imp (fun c => [1, 2, 3].map (commitsOf c) =
      [([(1, 1, 1), (2, 1, 2)], []), ([(1, 1, 1)], [(2, 1, 2)]), ([], [(2, 1, 2)])]) quietRun
    (by decide +kernel) fun hreach hcommits =>
      ⟨hcommits, (metadataStateMachineSafety threeVoterBootstrap hreach).1⟩

/-- Node `1` leads term `2` and takes the answer of node `2`, with node `2`'s own last index, for a
match. Node `2` leads term `3` and commits its own topology at that index. -/
def staleSuffixRun : List (Action Nat Unit) :=
  [.startElection 2, .handleVoteRequest 3 0, .becomeLeader 2 [2, 3], .appendRequestFrom 2 1 1,
    .handleAppendRequest 1 0, .proposeTopology 2 (threeVoters 2),
    .startElection 1, .handleVoteRequest 3 1, .becomeLeader 1 [1, 3], .appendRequestFrom 1 1 1,
    .handleAppendRequest 2 1, .recordAppendResponse 1 2 1,
    .startElection 2, .handleVoteRequest 3 2, .becomeLeader 2 [2, 3], .appendRequestFrom 2 1 10,
    .handleAppendRequest 3 2, .recordAppendResponse 2 3 2]

/-- A stale suffix: two entries are committed at one index. -/
theorem staleSuffix_commits_two_entries :
    ∃ c, Reach (clusterStep plainPlatform threeVoterBootstrap)
        (fun c act => CountersBelow c act ∧ SingleVoterChange c act)
        (MetadataCluster.init plainPlatform threeVoterBootstrap) c ∧
      ∃ e ∈ (c.node 1).store.committed, ∃ e' ∈ (c.node 2).store.committed,
        e.index = e'.index ∧ e ≠ e' :=
  exists_reach staleSuffixRun (by decide +kernel)

/-! ## Election safety -/

/-- The conditions on a step for one leader a term. -/
def ElectionSafe (c : MetadataCluster ι ρ δ) (act : Action ι ρ) : Prop :=
  CountersBelow c act ∧ NoStaleSuffix c act ∧ VotersOverlap c act

instance (c : MetadataCluster ι ρ δ) (act : Action ι ρ) : Decidable (ElectionSafe c act) :=
  inferInstanceAs (Decidable (_ ∧ _ ∧ _))

omit [DecidableEq ρ] in
theorem ElectionSafe.safeStep (h : ElectionSafe c act) : SafeStep plainCare c act :=
  ⟨h.1, h.2.1, h.2.2, fun hc => hc.elim, fun hc => hc.elim⟩

/-- **Election safety**, when proposed voter sets overlap enough with the committed ones and no
stale suffix is met. -/
theorem metadataElectionSafety (B : Bootstrap P)
    (h : Reach (clusterStep P B) ElectionSafe (MetadataCluster.init P B) c) (t : Nat)
    (m n : ι) (hm : (t, m) ∈ c.leaders) (hn : (t, n) ∈ c.leaders) : m = n := by
  obtain ⟨H, a, hinv⟩ := inv_of_reach (h.mono fun _ _ hok => hok.safeStep)
  obtain ⟨el, hwon, hel⟩ := hinv.leaders _ hm
  obtain ⟨el', hwon', hel'⟩ := hinv.leaders _ hn
  rw [hwon] at hwon'
  cases hwon'
  exact hel.symm.trans hel'

def fourVoters (generation spare : Nat) : ClusterTopology Nat Unit :=
  plainTopology generation
    [(1, true), (2, true), (3, decide (spare ≠ 3)), (4, true), (5, decide (spare ≠ 5))] (by simp)

def fourVoterBootstrap : Bootstrap plainPlatform := ⟨0, fourVoters 1 5, by decide, rfl⟩

/-- Node `1` replaces voter `3` by voter `5` in one proposal; node `5` then leads term `2`. -/
def replaceVoterRun : List (Action Nat Unit) :=
  [.startElection 1, .handleVoteRequest 2 0, .handleVoteRequest 4 0, .becomeLeader 1 [1, 2, 4],
    .appendRequestFrom 1 1 10, .handleAppendRequest 2 0, .handleAppendRequest 4 0,
    .handleAppendRequest 5 0, .recordAppendResponse 1 2 0, .recordAppendResponse 1 4 1,
    .proposeTopology 1 (fourVoters 2 3), .appendRequestFrom 1 2 10, .handleAppendRequest 2 1,
    .handleAppendRequest 4 1, .handleAppendRequest 5 1, .recordAppendResponse 1 2 3,
    .recordAppendResponse 1 4 4, .appendRequestFrom 1 3 10, .handleAppendRequest 2 2,
    .handleAppendRequest 4 2, .handleAppendRequest 5 2, .startElection 5, .handleVoteRequest 2 1,
    .handleVoteRequest 4 1, .becomeLeader 5 [2, 4, 5]]

/-- A voter is replaced, and the new one wins. -/
theorem metadataElectionSafety_replaceVoterRun :
    ∃ c, Reach (clusterStep plainPlatform fourVoterBootstrap) ElectionSafe
        (MetadataCluster.init plainPlatform fourVoterBootstrap) c ∧
      (2, 5) ∈ c.leaders ∧ ∀ n, (2, n) ∈ c.leaders → n = 5 :=
  exists_reach_imp (fun c => (2, 5) ∈ c.leaders) replaceVoterRun (by decide +kernel)
    fun hreach hmem => ⟨hmem, fun n hn =>
      metadataElectionSafety fourVoterBootstrap hreach 2 n 5 hn hmem⟩

def halfVotes (generation : Nat) (old : Bool) : ClusterTopology Nat Unit :=
  plainTopology generation [(1, old), (2, old), (3, old), (4, !old), (5, !old), (6, !old)] (by simp)

def halfVotesBootstrap : Bootstrap plainPlatform := ⟨0, halfVotes 1 true, by decide, rfl⟩

/-- Node `1` makes the other half the voters. In term `2` the new half elects node `4`, the old one
node `2`. -/
def disjointVotersRun : List (Action Nat Unit) :=
  [.startElection 1, .handleVoteRequest 2 0, .becomeLeader 1 [1, 2],
    .proposeTopology 1 (halfVotes 2 false), .appendRequestFrom 1 1 10, .handleAppendRequest 2 0,
    .handleAppendRequest 4 0, .handleAppendRequest 5 0, .recordAppendResponse 1 2 0,
    .recordAppendResponse 1 4 1, .recordAppendResponse 1 5 2, .appendRequestFrom 1 3 1,
    .handleAppendRequest 4 1, .handleAppendRequest 5 1, .startElection 4, .handleVoteRequest 5 1,
    .becomeLeader 4 [4, 5], .startElection 2, .handleVoteRequest 3 2, .becomeLeader 2 [2, 3]]

/-- Disjoint voter sets elect two leaders in one term. -/
theorem disjointVoters_elect_two_leaders :
    ∃ c, Reach (clusterStep plainPlatform halfVotesBootstrap)
        (fun c act => CountersBelow c act ∧ NoStaleSuffix c act)
        (MetadataCluster.init plainPlatform halfVotesBootstrap) c ∧
      (2, 4) ∈ c.leaders ∧ (2, 2) ∈ c.leaders :=
  exists_reach disjointVotersRun (by decide +kernel)

end BicDb.Metadata
