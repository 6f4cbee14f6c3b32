import BicDb.Replication.Steps

/-!
# State-machine safety of the replication consensus

The condition on the steps is needed: in `staleSuffix_splits_the_log` two nodes apply different
frames at index `1`.
-/

namespace BicDb.Replication

open BicDb.Foundation ConsensusState List

variable {ι β : Type*} [DecidableEq ι]

/-! ## The invariant along runs -/

theorem inv_init (clusterId : ι) (peers : List (ConsensusPeer ι)) :
    Inv (ConsensusConfig.voterIds ⟨clusterId, clusterId, peers⟩)
      (Cluster.init clusterId peers : Cluster ι β) History.empty where
  protocol :=
    { sound := History.Sound.init _
      wellFormed := fun _ => wellFormed_consensusRules _
      elections := nofun
      node := fun _ =>
        { voted := rfl
          candidate := nofun
          standing := nofun
          elected := nofun
          leads := nofun
          commit_le := le_rfl, settled := .nil, single := changeCount_consensusRules _ }
      retired := nofun
      voteTerm := nofun
      ballots := nofun }
  node := fun _ =>
    { voters := rfl, nodeId := rfl, indexed := trivial, short := Nat.zero_le _
      reached := nofun
      commit_le := le_rfl, committed := .inl rfl, applied_le := le_rfl }
  logs := fun _ => ⟨trivial, Nat.zero_le _⟩
  voteRequests := nofun
  voteResponses := nofun
  appendRequests := nofun
  appendResponses := nofun
  applied := fun _ => rfl

variable {V : VoterSet ι} {c c' : Cluster ι β}

variable {st : ConsensusState ι β}

theorem advances_set {n : ι} (h : Advances (c.node n) st) (m : ι) :
    Advances (c.node m) ((c.set n st).node m) :=
  c.forall_set n st (P := fun m s => Advances (c.node m) s) h (fun _ _ => ⟨le_rfl, le_rfl⟩) m

variable {st' : ConsensusState ι β}

omit [DecidableEq ι] in
theorem advances_of_sameNode (h : ConsensusState.SameNode st st') : Advances st st' :=
  ⟨h.commit.ge, h.applied.ge⟩

omit [DecidableEq ι] in
theorem advances_stepDown (st : ConsensusState ι β) (T : Nat) (l : Option ι) :
    Advances st (st.stepDown T l) := by
  unfold stepDown
  split <;> exact ⟨le_rfl, le_rfl⟩

theorem advances_handleRequestVote {request : RequestVote ι} {response : VoteResponse ι}
    (h : st.handleRequestVote request = .ok (response, st')) :
    Advances st st' := by
  unfold handleRequestVote at h
  split at h
  · cases h
  split at h
  · cases h
    exact ⟨le_rfl, le_rfl⟩
  · -- a vote touches neither watermark, with or without a step to the request's term
    have hkeep : ∀ st₁ : ConsensusState ι β, Advances st st₁ → Advances st
        (if st₁.grants request = true then { st₁ with votedFor := some request.candidateId }
          else st₁) := by
      intro st₁ h₁
      split <;> exact h₁
    cases h
    apply hkeep
    split
    · exact advances_stepDown _ _ _
    · exact ⟨le_rfl, le_rfl⟩

/-- **One admissible step** keeps the invariant and moves no watermark back. -/
theorem inv_step {a : Action ι β} (h : ∃ H, Inv V c H) (hok : Admissible c a)
    (hstep : clusterStep c a = some c') :
    (∃ H', Inv V c' H') ∧ ∀ m, Advances (c.node m) (c'.node m) := by
  obtain ⟨H, h⟩ := h
  cases a with
  | becomeCandidate n =>
    cases hstep
    exact ⟨h.becomeCandidate hok, advances_set ⟨le_rfl, le_rfl⟩⟩
  | handleRequestVote =>
    simp only [clusterStep] at hstep
    split at hstep
    · cases hstep
    next request hreq =>
    split at hstep
    · cases hstep
    next response st hrun =>
    cases hstep
    exact ⟨h.handleRequestVote (mem_of_getElem? hreq) hrun,
      advances_set (advances_handleRequestVote hrun)⟩
  | becomeLeader n votes =>
    simp only [clusterStep] at hstep
    split at hstep
    · next hwins =>
        split at hstep
        · cases hstep
        next st hrun =>
        cases hstep
        exact ⟨h.becomeLeader hwins hok hrun,
          advances_set (advances_of_sameNode (becomeLeader_spec hrun).2.1)⟩
    · cases hstep
  | appendLocalCommit n frame =>
    simp only [clusterStep] at hstep
    split at hstep
    · cases hstep
    next entry st hrun =>
    cases hstep
    exact ⟨h.appendLocalCommit hok hrun,
      advances_set (advances_of_sameNode (appendLocalCommit_spec hrun).2.1)⟩
  | appendEntriesFrom =>
    cases hstep
    exact ⟨⟨H, h.appendEntriesFrom hok.1 hok.2⟩, fun _ => ⟨le_rfl, le_rfl⟩⟩
  | handleAppendEntries =>
    simp only [clusterStep] at hstep
    split at hstep
    · cases hstep
    next request hreq =>
    split at hstep
    · cases hstep
    next response st hrun =>
    cases hstep
    obtain ⟨hinv, hadv⟩ := h.handleAppendEntries (mem_of_getElem? hreq) (hok request hreq) hrun
    exact ⟨hinv, advances_set hadv⟩
  | recordAppendResponse =>
    simp only [clusterStep] at hstep
    split at hstep
    · cases hstep
    next leader response hans =>
    split at hstep
    · next hto =>
        subst hto
        split at hstep
        · cases hstep
        next out st hrun =>
        cases hstep
        refine ⟨⟨H, h.recordAppendResponse (mem_of_getElem? hans) (hok _ hans) hrun⟩,
          advances_set ?_⟩
        unfold recordAppendResponse at hrun
        split at hrun
        · cases hrun
        split at hrun
        · cases hrun
          exact advances_stepDown _ _ _
        split at hrun
        · cases hrun
          exact ⟨le_rfl, le_rfl⟩
        split at hrun
        · cases hrun
        cases hrun
        rcases recomputeCommitIndex_spec (show Indexed (insertMatch _ _ _).log from
          (h.node _).indexed) with hsame | ⟨k, e, hnew, hgt, -⟩
        · rw [hsame]
          exact ⟨le_rfl, le_rfl⟩
        · rw [hnew]
          exact ⟨hgt.le, le_rfl⟩
    · cases hstep
  | applyCommittedPrefix n =>
    cases hstep
    refine ⟨⟨H, h.applyCommittedPrefix⟩, advances_set ?_⟩
    have hnode := h.node n
    unfold applyCommittedPrefix
    rw [applyLoop_spec _ _ _ hnode.indexed rfl hnode.applied_le hnode.commit_le hnode.short]
    exact ⟨le_rfl, hnode.applied_le⟩

/-- **Every reachable cluster** has a history that explains it. -/
theorem inv_of_reachable {clusterId : ι} {peers : List (ConsensusPeer ι)}
    (h : Reachable clusterId peers c) :
    ∃ H, Inv (ConsensusConfig.voterIds ⟨clusterId, clusterId, peers⟩) c H := by
  refine h.invariant (fun c => ∃ H, Inv _ c H) ⟨_, inv_init clusterId peers⟩ ?_
  intro s a s' hs hok hstep
  exact (inv_step hs hok hstep).1

/-! ## Safety -/

variable {H : History ι (ConsensusLogEntry β)}

theorem Inv.applied_indexes (h : Inv V c H) (a : ι) :
    (c.applied a).map Prod.fst = List.range' 1 (c.applied a).length := by
  have hidx : Indexed ((c.node a).log.take (c.node a).lastApplied) :=
    (h.node a).indexed.anti <| take_prefix _ _
  have hmap : (framesOf ((c.node a).log.take (c.node a).lastApplied)).map Prod.fst =
      ((c.node a).log.take (c.node a).lastApplied).map (·.index) := by
    rw [framesOf, map_map]
    rfl
  rw [h.applied a, hmap, hidx.map_index]
  simp [framesOf]

/-- An applied frame is the frame of an entry in the node's committed prefix. -/
theorem Inv.entry_of_applied (h : Inv V c H) {a : ι} {i : Nat} {f : CommitFrame β}
    (hf : (i, f) ∈ c.applied a) :
    ∃ k e, i = k + 1 ∧ e.frame = f ∧ ((c.node a).log.take (c.node a).commitIndex)[k]? = some e := by
  rw [h.applied a, framesOf, mem_map] at hf
  obtain ⟨e, he, heq⟩ := hf
  have hmem : e ∈ (c.node a).log.take (c.node a).commitIndex :=
    (take_prefix_take_left (h.node a).applied_le).subset he
  obtain ⟨k, hk, rfl⟩ := mem_iff_getElem.mp hmem
  have hget := getElem?_eq_getElem hk
  have hidx := ((h.node a).indexed.anti (List.take_prefix (c.node a).commitIndex _)).get hget
  cases heq
  exact ⟨k, _, by omega, rfl, hget⟩

/-- **State-machine safety**, in a run of admissible steps: frames agree, are applied once each and
in order, and no watermark falls. -/
theorem replicationSafety (clusterId : ι) (peers : List (ConsensusPeer ι))
    (h : Reachable clusterId peers c) :
    (∀ a b i f g, (i, f) ∈ c.applied a → (i, g) ∈ c.applied b → f = g) ∧
    (∀ a, (c.applied a).map Prod.fst = List.range' 1 (c.applied a).length) ∧
    ∀ act c', Admissible c act → clusterStep c act = some c' → ∀ a,
      (c.node a).commitIndex ≤ (c'.node a).commitIndex ∧
        (c.node a).lastApplied ≤ (c'.node a).lastApplied := by
  obtain ⟨H, hinv⟩ := inv_of_reachable h
  refine ⟨?_, hinv.applied_indexes, ?_⟩
  · intro a b i f g hf hg
    obtain ⟨k, e, hi, rfl, he⟩ := hinv.entry_of_applied hf
    obtain ⟨k', e', hi', rfl, he'⟩ := hinv.entry_of_applied hg
    have hk : k' = k := by omega
    subst hk
    rcases (hinv.node a).committed.comparable hinv.protocol (hinv.node b).committed with hp | hp
    · rw [prefix_get_eq hp he he']
    · rw [prefix_get_eq hp he' he]
  · intro act c' hok hstep
    exact (inv_step ⟨H, hinv⟩ hok hstep).2

def threePeers : List (ConsensusPeer Nat) := [⟨1, true⟩, ⟨2, true⟩, ⟨3, true⟩]

/-- Node `1` leads, commits a frame with node `2`, and both apply it. -/
def quietRun : List (Action Nat Nat) :=
  [.becomeCandidate 1, .handleRequestVote 2 0, .becomeLeader 1 [1, 2],
    .appendLocalCommit 1 ⟨7, 70⟩, .appendEntriesFrom 1 1, .handleAppendEntries 2 0,
    .recordAppendResponse 1 0, .applyCommittedPrefix 1, .appendEntriesFrom 1 2,
    .handleAppendEntries 2 1, .applyCommittedPrefix 2]

/-- Two nodes apply one frame. -/
theorem replicationSafety_quietRun : ∃ c : Cluster Nat Nat,
    Reachable 0 threePeers c ∧ (1, ⟨7, 70⟩) ∈ c.applied 1 ∧ (1, ⟨7, 70⟩) ∈ c.applied 2 ∧
    ∀ a b i f g, (i, f) ∈ c.applied a → (i, g) ∈ c.applied b → f = g :=
  exists_reach_imp (fun c => (1, ⟨7, 70⟩) ∈ c.applied 1 ∧ (1, ⟨7, 70⟩) ∈ c.applied 2) quietRun
    (by decide +kernel) fun hreach ⟨h₁, h₂⟩ =>
      ⟨h₁, h₂, (replicationSafety 0 threePeers hreach).1⟩

/-- **Leader completeness**: a leader holds what any node of no later term has committed. -/
theorem leader_completeness {clusterId : ι} {peers : List (ConsensusPeer ι)}
    (h : Reachable clusterId peers c) (a b : ι) (hrole : (c.node b).role = .leader)
    (hterm : (c.node a).currentTerm ≤ (c.node b).currentTerm) :
    (c.node a).log.take (c.node a).commitIndex <+: (c.node b).log := by
  obtain ⟨H, hinv⟩ := inv_of_reachable h
  have hb := hinv.protocol.node b
  have hleader := roleOf_eq_leader.2 hrole
  obtain ⟨el, hwon, -⟩ := hb.elected hleader
  rw [show (c.node b).log = _ from hb.leads hleader]
  exact ((hinv.node a).committed.mono (.refl H) hterm).carried hinv.protocol ⟨el, hwon⟩

/-- The leader holds what the second node has committed. -/
theorem leader_completeness_quietRun : ∃ c : Cluster Nat Nat, Reachable 0 threePeers c ∧
    (c.node 2).log.take 1 <+: (c.node 1).log :=
  exists_reach_imp (fun c => (c.node 2).commitIndex = 1 ∧ (c.node 1).role = .leader ∧
      (c.node 2).currentTerm ≤ (c.node 1).currentTerm) quietRun (by decide +kernel)
    fun hreach ⟨hcommit, hrole, hterm⟩ => hcommit ▸ leader_completeness hreach 2 1 hrole hterm

/-- Node `1` leads term `2` and sends node `2` an empty request; by the answer it commits its first
entry. Node `2` leads term `3` and commits its own. -/
def staleSuffixRun : List (Action Nat Nat) :=
  [.becomeCandidate 2, .handleRequestVote 3 0, .becomeLeader 2 [2, 3], .appendLocalCommit 2 ⟨1, 10⟩,
    .becomeCandidate 1, .becomeCandidate 1, .handleRequestVote 3 2, .becomeLeader 1 [1, 3],
    .appendEntriesFrom 1 1, .handleAppendEntries 2 0,
    .appendLocalCommit 1 ⟨1, 20⟩, .recordAppendResponse 1 0, .applyCommittedPrefix 1,
    .becomeCandidate 2, .handleRequestVote 3 3, .becomeLeader 2 [2, 3],
    .appendLocalCommit 2 ⟨2, 11⟩, .appendEntriesFrom 2 1, .handleAppendEntries 3 1,
    .recordAppendResponse 2 1, .applyCommittedPrefix 2]

/-- Without the condition two nodes apply different frames at index `1`. -/
theorem staleSuffix_splits_the_log : ∃ c : Cluster Nat Nat,
    Reach clusterStep (fun _ _ => True) (Cluster.init 0 threePeers) c ∧
    ∃ f g, f ≠ g ∧ (1, f) ∈ c.applied 1 ∧ (1, g) ∈ c.applied 2 :=
  exists_reach_imp (fun c => (1, ⟨1, 20⟩) ∈ c.applied 1 ∧ (1, ⟨1, 10⟩) ∈ c.applied 2) staleSuffixRun
    (by decide +kernel) fun _ ⟨h₁, h₂⟩ => ⟨⟨1, 20⟩, ⟨1, 10⟩, by decide, h₁, h₂⟩

end BicDb.Replication
