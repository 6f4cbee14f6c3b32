import BicDb.Replication.Invariant

/-!
# Every admissible step keeps the invariant

One lemma a call. A call changes one node (`Inv.replace`), and what it does to the replica is one
event of the abstract protocol, or none (`Inv.unmoved`).
-/

namespace BicDb.Replication

open BicDb.Foundation ConsensusState List Function History

variable {ι β : Type*} [DecidableEq ι]

namespace Cluster

variable (c : Cluster ι β) (n : ι) (st : ConsensusState ι β)

@[simp] theorem set_node_self : (c.set n st).node n = st := by simp [set]

theorem set_node_ne {m : ι} (h : m ≠ n) : (c.set n st).node m = c.node m := by simp [set, h]

theorem forall_set {P : ι → ConsensusState ι β → Prop} (hn : P n st)
    (hm : ∀ m, m ≠ n → P m (c.node m)) (m : ι) : P m ((c.set n st).node m) := by
  by_cases hmn : m = n
  · subst hmn
    rwa [set_node_self]
  · rw [set_node_ne c n st hmn]
    exact hm m hmn

theorem replicas_set : replicas (c.set n st) = update (replicas c) n (replicaOf st) := by
  funext m
  by_cases hmn : m = n
  · subst hmn
    rw [replicas, set_node_self, update_self]
  · rw [replicas, set_node_ne c n st hmn, update_of_ne hmn, replicas]

end Cluster

open Cluster

theorem set_set (c : Cluster ι β) (n : ι) (st st' : ConsensusState ι β) :
    (c.set n st).set n st' = c.set n st' := by
  simp [Cluster.set]

theorem set_self (c : Cluster ι β) (n : ι) : c.set n (c.node n) = c := by simp [Cluster.set]

variable {V : VoterSet ι} {H H' : History ι (ConsensusLogEntry β)} {c : Cluster ι β} {n : ι}
  {st : ConsensusState ι β}

/-! ## Assembling the invariant after one node changed -/

variable {s : ConsensusState ι β}

/-- Node `n` becomes `s` by an event of its replica, and the history becomes `H'`. -/
theorem Inv.replace (h : Inv V c H) (hle : H.Le H')
    (hproto : Consistent (consensusRules V) H' (update (replicas c) n (replicaOf s)))
    (hev : Evolves (replicas c) (update (replicas c) n (replicaOf s))) (hnode : NodeInv V H' n s)
    (hlogs : ∀ t, Indexed (H'.tlog t) ∧ (H'.tlog t).length ≤ u64Max)
    {app : ι → List (Nat × CommitFrame β)} (happ : ∀ m, m ≠ n → app m = c.applied m)
    (happ' : app n = framesOf (s.log.take s.lastApplied)) :
    Inv V { c.set n s with applied := app } H' where
  protocol := (c.replicas_set n s).symm ▸ hproto
  node := c.forall_set n s hnode fun m _ => (h.node m).mono hle
  logs := hlogs
  voteRequests := fun m hm => (h.voteRequests m hm).evolve ((c.replicas_set n s).symm ▸ hev)
  voteResponses := fun m hm hg => hle.vote (h.voteResponses m hm hg)
  appendRequests := fun m hm => (h.appendRequests m hm).mono hle
  appendResponses := fun m hm hsucc => hle.acked (h.appendResponses m hm hsucc)
  applied := c.forall_set n s (P := fun m s => app m = framesOf (s.log.take s.lastApplied)) happ'
    fun m hm => (happ m hm).trans (h.applied m)

theorem Inv.unmoved (h : Inv V c H) (hsame : replicaOf s = replicas c n) (hnode : NodeInv V H n s)
    {app : ι → List (Nat × CommitFrame β)} (happ : ∀ m, m ≠ n → app m = c.applied m)
    (happ' : app n = framesOf (s.log.take s.lastApplied)) :
    Inv V { c.set n s with applied := app } H := by
  have hself : update (replicas c) n (replicaOf s) = replicas c := by rw [hsame, update_eq_self]
  exact h.replace (.refl H) (hself.symm ▸ h.protocol) (hself.symm ▸ .refl _) hnode h.logs happ happ'

/-! ## Messages -/

theorem Inv.addVoteRequest (h : Inv V c H) {m : RequestVote ι}
    (hm : VoteRequestInv (replicas c) m) :
    Inv V { c with voteRequests := c.voteRequests ++ [m] } H :=
  { h with
    voteRequests := forall_mem_append.mpr ⟨h.voteRequests, forall_mem_singleton.mpr hm⟩ }

variable {k : ι}

theorem Inv.addVoteResponse (h : Inv V c H) {m : VoteResponse ι}
    (hm : m.voteGranted = true → H.vote m.voterId m.term = some k) :
    Inv V { c with voteResponses := c.voteResponses ++ [(k, m)] } H :=
  { h with
    voteResponses := forall_mem_append.mpr ⟨h.voteResponses, forall_mem_singleton.mpr hm⟩ }

theorem Inv.addAppendRequest (h : Inv V c H) {m : AppendEntries ι β} (hm : AppendRequestInv V H m) :
    Inv V { c with appendRequests := c.appendRequests ++ [m] } H :=
  { h with
    appendRequests := forall_mem_append.mpr ⟨h.appendRequests, forall_mem_singleton.mpr hm⟩ }

theorem Inv.addAppendResponse (h : Inv V c H) {m : AppendResponse ι}
    (hm : m.success = true → H.acked m.nodeId m.term m.matchIndex) :
    Inv V { c with appendResponses := c.appendResponses ++ [(k, m)] } H :=
  { h with
    appendResponses := forall_mem_append.mpr ⟨h.appendResponses, forall_mem_singleton.mpr hm⟩ }

variable {T : Nat} {l : Option ι}

theorem Inv.stepDown (h : Inv V c H) (hT : (c.node n).currentTerm ≤ T) :
    Inv V (c.set n ((c.node n).stepDown T l)) H := by
  obtain ⟨hterm, hrole, hlog, hcommit, happlied, hvoters, hid⟩ :=
    stepDown_facts l hT
  have hnode := h.node n
  have hadopt : replicaOf ((c.node n).stepDown T l) = (replicas c n).adopt T := by
    rw [replicaOf, hterm, hrole, hlog, ConsensusState.stepDown, apply_ite votedFor]
    rfl
  refine h.replace (.refl H) (hadopt ▸ h.protocol.adopt hT) (hadopt ▸ evolves_adopt hT) ?_ h.logs
    (fun _ _ => rfl) ?_
  · exact
      { voters := hvoters.trans hnode.voters, nodeId := hid.trans hnode.nodeId
        indexed := hlog ▸ hnode.indexed
        short := hlog ▸ hnode.short
        reached := fun hc => by rw [hrole] at hc; cases hc
        commit_le := by rw [hlog, hcommit]; exact hnode.commit_le
        committed := by rw [hterm, hlog, hcommit]; exact hnode.committed.mono (.refl H) hT
        applied_le := by rw [hcommit, happlied]; exact hnode.applied_le }
  · rw [hlog, happlied]
    exact h.applied n

/-! ## Casting a vote -/

theorem Inv.becomeCandidate (h : Inv V c H) (hmax : (c.node n).currentTerm < u64Max) :
    ∃ H', Inv V { c.set n (c.node n).becomeCandidate.2 with
      voteRequests := c.voteRequests ++ [(c.node n).becomeCandidate.1] } H' := by
  have hnode := h.node n
  have hterm : (c.node n).becomeCandidate.2.currentTerm = (c.node n).currentTerm + 1 :=
    satSucc_of_lt hmax
  have hstand : replicaOf (c.node n).becomeCandidate.2 = (replicas c n).stand n := by
    rw [replicaOf, hterm]
    simp only [ConsensusState.becomeCandidate, hnode.nodeId]
    rfl
  have hle := le_castVote (c := n) (l := (c.node n).log)
    (h.protocol.vote_none (Nat.lt_succ_self (c.node n).currentTerm))
  refine ⟨_, Inv.addVoteRequest
    (h.replace (s := (c.node n).becomeCandidate.2) hle (hstand ▸ h.protocol.stand)
    (hstand ▸ evolves_stand) ?_ h.logs (fun _ _ => rfl) (h.applied n)) ?_⟩
  · exact
      { voters := hnode.voters, nodeId := hnode.nodeId, indexed := hnode.indexed
        short := hnode.short
        reached := nofun
        commit_le := hnode.commit_le
        committed := hnode.committed.mono hle (hterm ▸ Nat.le_succ _)
        applied_le := hnode.applied_le }
  · -- the request describes the candidate's own log
    have hid : (c.node n).becomeCandidate.1.candidateId = n := hnode.nodeId
    show VoteRequestInv (replicas (c.set n _)) _
    rw [VoteRequestInv, hid, replicas, set_node_self]
    exact ⟨le_rfl, fun _ _ => ⟨lastLogIndex_eq hnode.indexed, rfl⟩⟩

theorem grants_iff (st : ConsensusState ι β) (request : RequestVote ι) :
    st.grants request = true ↔ (st.votedFor = none ∨ st.votedFor = some request.candidateId) ∧
      (st.lastLogTerm < request.lastLogTerm ∨
        request.lastLogTerm = st.lastLogTerm ∧ st.lastLogIndex ≤ request.lastLogIndex) ∧
      request.candidateId ∈ st.voters.ids := by
  simp [grants, and_assoc]

theorem Inv.grant (h : Inv V c H) {request : RequestVote ι} (hm : request ∈ c.voteRequests)
    (hterm : (c.node n).currentTerm = request.term)
    (hg : (c.node n).grants request = true) :
    ∃ H', Inv V (c.set n { c.node n with votedFor := some request.candidateId }) H' ∧
      H'.vote n request.term = some request.candidateId := by
  have hnode := h.node n
  have hvoted : H.vote n (c.node n).currentTerm = (c.node n).votedFor := (h.protocol.node n).voted
  obtain ⟨hfree, hlog, -⟩ := (grants_iff _ _).mp hg
  obtain ⟨hreached, hlast⟩ := h.voteRequests request hm
  rcases hfree with hfree | hsame
  · -- a first vote in this term
    have hle := le_castVote (c := request.candidateId) (l := (c.node n).log) (hvoted.trans hfree)
    refine ⟨H.castVote n (c.node n).currentTerm request.candidateId (c.node n).log,
      h.replace (s := { c.node n with votedFor := some request.candidateId }) hle
        (h.protocol.vote hfree (hterm.trans_le hreached) ?_) (evolves_vote _)
        { hnode.mono hle with } h.logs (fun _ _ => rfl) (h.applied n), ?_⟩
    · intro hc ht
      obtain ⟨hidx, hlt⟩ := hlast hc (ht.trans hterm)
      rw [hidx, hlt, lastLogIndex_eq hnode.indexed, lastLogTerm_eq] at hlog
      exact hlog.imp id fun ⟨hlog, hlen⟩ => ⟨hlog.symm, hlen⟩
    · rw [← hterm]
      exact castVote_vote_self _ _ _ _
  · refine ⟨H, ?_, ?_⟩
    · have hst : { c.node n with votedFor := some request.candidateId } = c.node n := by
        rw [← hsame]
      rwa [hst, set_self]
    · rw [← hterm, hvoted, hsame]

theorem Inv.handleRequestVote (h : Inv V c H) {request : RequestVote ι}
    (hm : request ∈ c.voteRequests) {response : VoteResponse ι}
    (hrun : (c.node n).handleRequestVote request = .ok (response, st)) :
    ∃ H', Inv V { c.set n st with
      voteResponses := c.voteResponses ++ [(request.candidateId, response)] } H' := by
  unfold ConsensusState.handleRequestVote at hrun
  split at hrun
  · cases hrun
  split at hrun
  · -- a request of an earlier term is answered with a refusal
    cases hrun
    rw [set_self]
    exact ⟨H, h.addVoteResponse nofun⟩
  next hge =>
  -- the node is brought to the term of the request first
  obtain ⟨st₁, hst₁, hinv, hterm⟩ : ∃ st₁, st₁ =
      (if request.term > (c.node n).currentTerm then (c.node n).stepDown request.term none
        else c.node n) ∧ Inv V (c.set n st₁) H ∧ st₁.currentTerm = request.term := by
    split
    · next hgt =>
        exact ⟨_, rfl, h.stepDown hgt.le, (stepDown_facts none hgt.le).1⟩
    · next hnot =>
        refine ⟨_, rfl, ?_, by omega⟩
        rwa [set_self]
  rw [← hst₁] at hrun
  dsimp only at hrun
  cases hg : st₁.grants request with
  | false =>
    rw [hg] at hrun
    cases hrun
    exact ⟨H, hinv.addVoteResponse nofun⟩
  | true =>
    rw [hg] at hrun
    cases hrun
    have hself : (c.set n st₁).node n = st₁ := set_node_self _ _ _
    obtain ⟨H', hinv', hvote⟩ := hinv.grant hm (by rw [hself]; exact hterm)
      (by rw [hself]; exact hg)
    rw [hself, set_set] at hinv'
    refine ⟨H', hinv'.addVoteResponse fun _ => ?_⟩
    have hid : st₁.nodeId = n := by
      have hnode := hinv.node n
      rw [hself] at hnode
      exact hnode.nodeId
    show H'.vote st₁.nodeId st₁.currentTerm = some request.candidateId
    rwa [hid, hterm]

/-! ## Winning a term -/

theorem wins_iff (c : Cluster ι β) (n : ι) (votes : List ι) : c.wins n votes = true ↔
    votes.Nodup ∧ n ∈ votes ∧ (∀ v ∈ votes, v ∈ (c.node n).voters.ids ∧ c.granted n v = true) ∧
      (c.node n).voters.ids.length < 2 * votes.length := by
  simp [Cluster.wins, and_assoc]

theorem Inv.vote_of_granted (h : Inv V c H) (hrole : (c.node n).role = .candidate) {v : ι}
    (hg : c.granted n v = true) : H.vote v (c.node n).currentTerm = some n := by
  simp only [Cluster.granted, Bool.or_eq_true, decide_eq_true_eq, any_eq_true,
    Bool.and_eq_true] at hg
  rcases hg with rfl | ⟨m, hm, ⟨⟨hto, hv⟩, ht⟩, hyes⟩
  · exact (h.protocol.node v).voted.trans
      ((h.protocol.node v).candidate (roleOf_eq_candidate.mpr hrole)).1
  · have hvote := h.voteResponses m hm hyes
    rwa [hto, hv, ht] at hvote

theorem Inv.quorum_of_wins (h : Inv V c H) {votes : List ι} (hwins : c.wins n votes = true) :
    HasQuorum votes.toFinset V.ids := by
  obtain ⟨hnodup, -, hvotes, hcard⟩ := (wins_iff c n votes).mp hwins
  rw [(h.node n).voters] at hvotes hcard
  have hsub : votes ⊆ V.ids.filter (fun v => decide (v ∈ votes.toFinset)) := fun v hv =>
    mem_filter.mpr ⟨(hvotes v hv).1, by simpa using hv⟩
  have hle := (hnodup.subperm hsub).length_le
  unfold HasQuorum
  omega

theorem Inv.leading (h : Inv V c H) (hsame : SameNode (c.node n) st) (hrole : st.role = .leader)
    (hle : H.Le H')
    (hproto : Consistent (consensusRules V) H' (update (replicas c) n (replicaOf st)))
    (hother : ∀ t, t ≠ (c.node n).currentTerm → H'.tlog t = H.tlog t)
    (hindexed : Indexed st.log) (hshort : st.log.length ≤ u64Max) (hlog : (c.node n).log <+: st.log)
    (hreached : ∀ v ∈ V.ids, st.matched v ≤ (c.node n).commitIndex ∨
      H'.acked v (c.node n).currentTerm (st.matched v)) : Inv V (c.set n st) H' := by
  have hnode := h.node n
  have hlead := hproto.node n
  rw [update_self] at hlead
  have htlog : st.log = H'.tlog st.currentTerm := hlead.leads (roleOf_eq_leader.mpr hrole)
  rw [hsame.term] at htlog
  have htake : ∀ {k}, k ≤ (c.node n).log.length → st.log.take k = (c.node n).log.take k := by
    intro k hk
    obtain ⟨rest, hrest⟩ := hlog
    rw [← hrest, take_append_of_le_length hk]
  refine h.replace hle hproto (evolves_update hsame.term.ge fun hc => ?_) ?_ ?_ (fun _ _ => rfl) ?_
  · rw [roleOf_eq_candidate.mp hc] at hrole
    cases hrole
  · exact
      { voters := hsame.voters.trans hnode.voters, nodeId := hsame.nodeId.trans hnode.nodeId
        indexed := hindexed, short := hshort
        reached := fun _ => by rw [hsame.commit, hsame.term]; exact hreached
        commit_le := by rw [hsame.commit]; exact hnode.commit_le.trans hlog.length_le
        committed := by
          rw [hsame.term, hsame.commit, htake hnode.commit_le]
          exact hnode.committed.mono hle le_rfl
        applied_le := by rw [hsame.commit, hsame.applied]; exact hnode.applied_le }
  · intro t
    by_cases ht : t = (c.node n).currentTerm
    · rw [ht, ← htlog]
      exact ⟨hindexed, hshort⟩
    · rw [hother t ht]
      exact h.logs t
  · rw [hsame.applied, htake (hnode.applied_le.trans hnode.commit_le)]
    exact h.applied n

/-- A win keeps the invariant. -/
theorem Inv.becomeLeader (h : Inv V c H) {votes : List ι} (hwins : c.wins n votes = true)
    (hmatch : ∀ v ∈ (c.node n).voters.ids, v ≠ n → (c.node n).matched v ≤ (c.node n).commitIndex)
    (hrun : (c.node n).becomeLeader = .ok st) : ∃ H', Inv V (c.set n st) H' := by
  have hnode := h.node n
  obtain ⟨hrole, hsame, hrole', hlog, hmatched⟩ := becomeLeader_spec hrun
  obtain ⟨-, -, hvotes, -⟩ := (wins_iff c n votes).mp hwins
  have hcand : (replicas c n).role = .candidate := roleOf_eq_candidate.mpr hrole
  have hballots : ∀ v ∈ votes.toFinset, H.vote v (replicas c n).term = some n := fun v hv =>
    h.vote_of_granted hrole (hvotes v (mem_toFinset.mp hv)).2
  have hquorum := h.quorum_of_wins hwins
  have hlead : replicaOf st = (replicas c n).lead := by
    rw [replicaOf, hsame.term, hsame.votedFor, hrole', hlog]
    rfl
  -- the election and the winner's own acknowledgement enter the history
  have hnew := h.protocol.not_led hcand hballots hquorum
  have hle : H.Le (H.elect _ ⟨n, (replicas c n).log, votes.toFinset⟩) :=
    le_elect h.protocol.sound hnew
  have hwon := h.protocol.lead hcand hballots hquorum
  have hown := hwon.node n
  have hproto := hwon.acknowledge (n := n) (k := (c.node n).log.length)
  rw [update_self] at hown hproto
  obtain ⟨el, hel, -⟩ := hown.elected rfl
  have htlog := hown.leads rfl
  replace hproto := hproto ⟨el, hel⟩ (htlog ▸ le_rfl) (htlog ▸ take_prefix _ _)
  refine ⟨_, h.leading hsame hrole' (hle.trans (le_acknowledge _ _ _))
    (by rw [hlead]; exact hproto) ?_
    (hlog ▸ hnode.indexed) (hlog ▸ hnode.short) (hlog ▸ prefix_rfl) ?_⟩
  · intro t ht
    exact update_of_ne ht _ _
  · intro v hv
    rw [hmatched, hnode.nodeId]
    split_ifs with hvn
    · rw [lastLogIndex_eq hnode.indexed]
      exact .inr (.inl ⟨hvn, rfl, rfl⟩)
    · exact .inl (hmatch v (by rw [hnode.voters]; exact hv) hvn)

/-! ## Writing an entry -/

theorem wellFormed_consensusRules (l : List (ConsensusLogEntry β)) :
    (consensusRules V).WellFormed l :=
  fun _ _ _ => ⟨fun _ => rfl, Rules.meet_self _ _⟩

omit [DecidableEq ι] in
theorem changeCount_consensusRules (l : List (ConsensusLogEntry β)) :
    (consensusRules V).changeCount l ≤ 1 :=
  (countP_eq_zero.mpr fun _ _ => Bool.false_ne_true).trans_le (Nat.zero_le 1)

/-- A local commit keeps the invariant. -/
theorem Inv.appendLocalCommit (h : Inv V c H) (hmax : (c.node n).lastLogIndex < u64Max)
    {frame : CommitFrame β} {entry : ConsensusLogEntry β}
    (hrun : (c.node n).appendLocalCommit frame = .ok (entry, st)) :
    ∃ H', Inv V (c.set n st) H' := by
  have hnode := h.node n
  obtain ⟨hrole, hsame, hrole', hlog, hentry, hmatched⟩ :=
    appendLocalCommit_spec hrun
  have hlen := lastLogIndex_eq hnode.indexed
  have hindex : entry.index = (c.node n).log.length + 1 := by
    rw [hentry, hlen]
    exact satSucc_of_lt (by omega)
  have hlead : (replicas c n).role = .leader := roleOf_eq_leader.mpr hrole
  have hwrite : replicaOf st = (replicas c n).write entry := by
    rw [replicaOf, hsame.term, hsame.votedFor, hrole', hlog, Replica.write, replicas, replicaOf,
      hrole]
  -- the entry and the leader's own acknowledgement of it enter the history
  have hwritten := h.protocol.write hlead (e := entry) (by rw [hentry]; rfl)
    (wellFormed_consensusRules _) (changeCount_consensusRules _)
  have hown := hwritten.node n
  have hproto := hwritten.acknowledge (n := n) (k := entry.index)
  rw [update_self] at hown hproto
  obtain ⟨el, hel, -⟩ := hown.elected hlead
  have htlog := hown.leads hlead
  have hlength :
      ((c.node n).log ++ [entry]).length = entry.index := by rw [length_append, hindex]; rfl
  replace hproto := hproto ⟨el, hel⟩ (htlog ▸ hlength.ge) (htlog ▸ take_prefix _ _)
  refine ⟨_, h.leading hsame hrole' ((le_extend _ entry).trans (le_acknowledge _ _ _))
    (by rw [hwrite]; exact hproto) (fun t ht => update_of_ne ht _ _) ?_ ?_
    (hlog ▸ prefix_append _ _) ?_⟩
  · rw [hlog, Indexed, indexedFrom_append, indexedFrom_singleton]
    exact ⟨hnode.indexed, by omega⟩
  · rw [hlog, hlength]
    omega
  · intro v hv
    rw [hmatched, hnode.nodeId]
    split_ifs with hvn
    · exact .inr (.inl ⟨hvn, rfl, rfl⟩)
    · exact (hnode.reached hrole v hv).imp id .inr

theorem Inv.leads (h : Inv V c H) (hrole : (c.node n).role = .leader) :
    H.Led (c.node n).currentTerm ∧ (c.node n).log = H.tlog (c.node n).currentTerm := by
  have hown := h.protocol.node n
  obtain ⟨el, hwon, -⟩ := hown.elected (roleOf_eq_leader.mpr hrole)
  exact ⟨⟨el, hwon⟩, hown.leads (roleOf_eq_leader.mpr hrole)⟩

theorem Inv.appendEntriesFrom (h : Inv V c H) {nextIndex : Nat}
    (hrole : (c.node n).role = .leader) (hnext : nextIndex ≤ (c.node n).lastLogIndex + 1) :
    Inv V { c with
      appendRequests := c.appendRequests ++ [(c.node n).appendEntriesFrom nextIndex] } H := by
  have hnode := h.node n
  obtain ⟨hled, hleads⟩ := h.leads hrole
  rw [lastLogIndex_eq hnode.indexed] at hnext
  have hprev : nextIndex - 1 ≤ (c.node n).log.length := by omega
  have hentries : ((c.node n).appendEntriesFrom nextIndex).entries =
      (c.node n).log.drop (nextIndex - 1) := by
    have hge := hnode.indexed.filter_ge (nextIndex - 1)
    rw [← hge]
    refine filter_congr fun e he => ?_
    have hpos := (hnode.indexed.mem he).1
    exact decide_eq_decide.mpr (by omega)
  refine h.addAppendRequest
    { led := hled, prev_le := hleads ▸ hprev, prev_term := ?_, entries := ?_
      commit_le := ?_, committed := hleads ▸ hnode.committed }
  · show (if nextIndex - 1 = 0 then 0 else _) =
      lastTerm (·.term) ((H.tlog (c.node n).currentTerm).take (nextIndex - 1))
    rw [← hleads]
    rcases Nat.eq_zero_or_pos (nextIndex - 1) with hzero | hpos
    · simp [hzero, lastTerm]
    obtain ⟨k, hk⟩ : ∃ k, nextIndex - 1 = k + 1 := ⟨nextIndex - 1 - 1, by omega⟩
    have hget : (c.node n).log[k]? = some ((c.node n).log[k]) :=
      getElem?_eq_getElem (by omega)
    rw [hk, if_neg (by omega), entryAt_succ hnode.indexed, lastTerm_take_succ hget, hget]
    rfl
  · rw [hentries]
    exact hleads ▸ prefix_rfl
  · rw [hentries, length_drop]
    show (c.node n).commitIndex ≤ nextIndex - 1 + ((c.node n).log.length - (nextIndex - 1))
    have hle := hnode.commit_le
    omega

/-! ## Answering a leader -/

/-- Commit and applied index do not fall. -/
def Advances (st st' : ConsensusState ι β) : Prop :=
  st.commitIndex ≤ st'.commitIndex ∧ st.lastApplied ≤ st'.lastApplied

variable {k : Nat}

variable (h : Inv V c H)

include h

/-- A follower takes over a log that keeps what it shares with the leader's, and a commit index
whose prefix is committed. -/
theorem Inv.follow (hled : H.Led (c.node n).currentTerm)
    (hrole : (c.node n).role = .follower) (new : List (ConsensusLogEntry β)) (commit : Nat)
    (hmatched : LogMatched H new) (hindexed : Indexed new)
    (hterms : ∀ e ∈ new, e.term ≤ (c.node n).currentTerm) (hshort : new.length ≤ u64Max)
    (hkeeps : ∀ q, q <+: H.tlog (c.node n).currentTerm → q <+: (c.node n).log → q <+: new)
    (hgrow : (c.node n).commitIndex ≤ commit) (hcommit_le : commit ≤ new.length)
    (hcommitted : Committed V H (c.node n).currentTerm (new.take commit)) :
    Inv V (c.set n { c.node n with log := new, commitIndex := commit }) H := by
  have hnode := h.node n
  have hfollower : (replicas c n).role = .follower := congrArg roleOf hrole
  refine h.replace (.refl H)
    (h.protocol.follow hled hfollower new 0 hmatched hterms hkeeps (Nat.zero_le _) .nil
      (changeCount_consensusRules _))
    (evolves_follow hfollower new 0) ?_ h.logs (fun _ _ => rfl) ?_
  · exact
      { voters := hnode.voters, nodeId := hnode.nodeId, indexed := hindexed, short := hshort
        reached := fun hc => by cases hrole.symm.trans hc
        commit_le := hcommit_le
        committed := hcommitted
        applied_le := hnode.applied_le.trans hgrow }
  · -- what was applied lies in the committed prefix, which both logs have
    have hkept := hkeeps _ (hnode.committed.carried h.protocol hled) <| take_prefix _ _
    have happlied := hnode.applied_le
    have htake : (c.node n).log.take (c.node n).lastApplied <+: new :=
      (take_prefix_take_left happlied).trans hkept
    rw [(take_eq_of_kept (happlied.trans hnode.commit_le) htake).2]
    exact h.applied n

theorem Inv.acknowledge (hled : H.Led (c.node n).currentTerm)
    (hk : k ≤ (H.tlog (c.node n).currentTerm).length)
    (hlog : (H.tlog (c.node n).currentTerm).take k <+: (c.node n).log) :
    Inv V c (H.acknowledge n (c.node n).currentTerm k) := by
  have hle := le_acknowledge (H := H) n (c.node n).currentTerm k
  exact
    { h with
      protocol := h.protocol.acknowledge hled hk hlog
      node := fun m => (h.node m).mono hle
      appendRequests := fun m hm => (h.appendRequests m hm).mono hle
      appendResponses := fun m hm hs => hle.acked (h.appendResponses m hm hs) }

/-- `handle_append_entries` on a follower of the request's term keeps the invariant when it meets
no stale suffix. -/
theorem Inv.acceptEntries {request : AppendEntries ι β}
    (hm : request ∈ c.appendRequests) (hterm : (c.node n).currentTerm = request.term)
    (hrole : (c.node n).role = .follower) (hstale : ¬ StaleSuffix (c.node n) request) :
    (∃ H', Inv V { c.set n ((c.node n).acceptEntries request).2 with
      appendResponses := c.appendResponses ++
        [(request.leaderId, ((c.node n).acceptEntries request).1)] } H') ∧
    Advances (c.node n) ((c.node n).acceptEntries request).2 := by
  have hnode := h.node n
  have hmatched := h.protocol.sound.log_matched n
  have hreq := h.appendRequests request hm
  have hled : H.Led (c.node n).currentTerm := hterm ▸ hreq.led
  have hcarried : (c.node n).log.take (c.node n).commitIndex <+: H.tlog request.term :=
    hterm ▸ hnode.committed.carried h.protocol hled
  have hfollows : ConsensusState.Follows H (H.tlog request.term) (c.node n) 0 :=
    { matched := hmatched, indexed := hnode.indexed, agree := nil_prefix
      commit_le := hnode.commit_le, committed := hcarried, applied_le := hnode.applied_le }
  rcases acceptEntries_spec (h.protocol.sound.tlog_matched request.term)
    (h.logs request.term).1 (h.logs request.term).2 hfollows hreq.prev_le
    hreq.prev_term hreq.entries with ⟨new, href, hout⟩ | ⟨hholds, new, st', hstored, rfl, hout⟩
  · -- refused: nothing committed is lost
    have hkept := href.keeps _ hcarried <| take_prefix _ _
    obtain ⟨hle, htake⟩ := take_eq_of_kept hnode.commit_le hkept
    have hdone := h.follow hled hrole new (c.node n).commitIndex href.matched href.indexed
      (fun e he => h.protocol.sound.log_le (href.shorter.subset he))
      (href.shorter.length_le.trans hnode.short) (hterm ▸ href.keeps) le_rfl hle
      (htake ▸ hnode.committed)
    rw [hout]
    exact ⟨⟨H, hdone.addAppendResponse nofun⟩, le_rfl, le_rfl⟩
  · -- stored: the whole new log is part of the leader's and is acknowledged
    have hpre : new <+: H.tlog request.term :=
      hstored.prefix_of_not_stale rfl hmatched hnode.indexed hreq.entries hreq.prev_le hholds hstale
    have hkept := hstored.keeps _ hcarried <| take_prefix _ _
    obtain ⟨hle, htake⟩ := take_eq_of_kept hnode.commit_le hkept
    have hcommitted : Committed V H (c.node n).currentTerm
        (new.take (max (c.node n).commitIndex (min request.leaderCommit new.length))) := by
      rcases max_choice (c.node n).commitIndex (min request.leaderCommit new.length) with
        hmax | hmax
      · rw [hmax, htake]
        exact hnode.committed
      · rw [hmax, hterm]
        apply hreq.committed.anti
        rw [prefix_take_iff]
        refine ⟨(List.take_prefix _ _).trans hpre, ?_⟩
        rw [length_take]
        omega
    have hdone := h.follow hled hrole new
      (max (c.node n).commitIndex (min request.leaderCommit new.length)) hstored.matched
      hstored.indexed (fun e he => hterm ▸ h.protocol.sound.tlog_le (hpre.subset he))
      (hpre.length_le.trans (h.logs _).2) (hterm ▸ hstored.keeps) (le_max_left _ _)
      (max_le hle (min_le_right _ _)) hcommitted
    rw [hout]
    have hack := hdone.acknowledge (n := n) (k := new.length)
    rw [set_node_self] at hack
    have heq : (H.tlog request.term).take new.length = new :=
      (prefix_iff_eq_take.mp hpre).symm
    refine ⟨⟨_, (hack hled (hterm ▸ hpre.length_le)
      (by dsimp only; rw [hterm, heq])).addAppendResponse fun _ => ?_⟩, le_max_left _ _, le_rfl⟩
    refine .inl ⟨hnode.nodeId, rfl, ?_⟩
    exact lastLogIndex_eq hstored.indexed

theorem Inv.handleAppendEntries {request : AppendEntries ι β}
    (hm : request ∈ c.appendRequests) {response : AppendResponse ι}
    (hstale : (c.node n).currentTerm ≤ request.term → ¬ StaleSuffix (c.node n) request)
    (hrun : (c.node n).handleAppendEntries request = .ok (response, st)) :
    (∃ H', Inv V { c.set n st with
      appendResponses := c.appendResponses ++ [(request.leaderId, response)] } H') ∧
    Advances (c.node n) st := by
  unfold ConsensusState.handleAppendEntries at hrun
  split at hrun
  · cases hrun
  split at hrun
  · cases hrun
    rw [set_self]
    exact ⟨⟨H, h.addAppendResponse nofun⟩, le_rfl, le_rfl⟩
  next hge =>
  have hT : (c.node n).currentTerm ≤ request.term := by omega
  -- the node follows the leader of the request's term first
  obtain ⟨hterm, hrole, hlog, hcommit, happlied, -⟩ :=
    stepDown_facts (some request.leaderId) hT
  have hinv := h.stepDown (l := some request.leaderId) hT
  have hdone := hinv.acceptEntries (n := n) hm
  rw [set_node_self, set_set] at hdone
  simp only [StaleSuffix, HoldsPrev, entryAt, lastLogIndex, lastLogTerm, hlog] at hdone
  obtain ⟨hH', hadv⟩ := hdone hterm hrole (hstale hT)
  rw [Except.ok.injEq] at hrun
  rw [hrun] at hH' hadv
  rw [Advances, hcommit, happlied] at hadv
  exact ⟨hH', hadv⟩

/-! ## Counting answers -/

theorem Inv.insertMatch {v : ι} {i : Nat} (hack : H.acked v (c.node n).currentTerm i) :
    Inv V (c.set n ((c.node n).insertMatch v i)) H := by
  have hnode := h.node n
  exact h.unmoved (s := (c.node n).insertMatch v i) rfl
    { hnode with
      reached := fun hrole w hw => by
        rw [matched_insertMatch]
        split_ifs with hwv
        · rw [hwv]
          exact .inr hack
        · exact hnode.reached hrole w hw }
    (fun _ _ => rfl) (h.applied n)

/-- An entry of the leader's term that half of the voters have reached, above the commit index, is
chosen. -/
theorem Inv.chosen_of_reached (hrole : (c.node n).role = .leader)
    {e : ConsensusLogEntry β} (hgt : (c.node n).commitIndex < k + 1)
    (he : (c.node n).log[k]? = some e) (hterm : e.term = (c.node n).currentTerm)
    (hhalf : (c.node n).voters.ids.length ≤ 2 * ((c.node n).voters.ids.filter
        (fun v => decide (k + 1 ≤ (c.node n).matched v))).length) :
    (consensusRules V).Chosen H (c.node n).currentTerm (k + 1) 0 := by
  have hnode := h.node n
  obtain ⟨hled, hleads⟩ := h.leads hrole
  have hlen : k < (c.node n).log.length := (List.getElem?_eq_some_iff.mp he).1
  rw [hnode.voters] at hhalf
  let A := (V.ids.filter (fun v => decide (k + 1 ≤ (c.node n).matched v))).toFinset
  have haccepts : (consensusRules (β := β) V).Accepts A V.ids := by
    have hfilter : V.ids.filter (fun v => decide (v ∈ A)) =
        V.ids.filter (fun v => decide (k + 1 ≤ (c.node n).matched v)) :=
      filter_congr fun v hv => decide_eq_decide.mpr (by simp [A, hv])
    unfold Rules.Accepts
    rw [hfilter]
    exact Nat.lt_succ_of_le hhalf
  refine
    { led := hled, le := hleads ▸ hlen, lt := Nat.succ_pos k, last := ?_
      single := changeCount_consensusRules _, quorum := ⟨A, ?_, haccepts, haccepts⟩ }
  · rwa [← hleads, lastTerm_take_succ he]
  · intro v hv
    rw [mem_toFinset, mem_filter, decide_eq_true_eq] at hv
    -- a voter counted here is above the commit index, so it acknowledged in this term
    rcases hnode.reached hrole v hv.1 with hle | hack
    · omega
    · exact ⟨_, hv.2, hack⟩

theorem Inv.recomputeCommitIndex (hrole : (c.node n).role = .leader) :
    Inv V (c.set n (c.node n).recomputeCommitIndex) H := by
  have hnode := h.node n
  rcases recomputeCommitIndex_spec hnode.indexed with
    hsame | ⟨k, e, hnew, hgt, he, hterm, hhalf⟩
  · rwa [hsame, set_self]
  rw [hnew]
  have hchosen := h.chosen_of_reached hrole hgt he hterm hhalf
  have hlen : k < (c.node n).log.length := (List.getElem?_eq_some_iff.mp he).1
  exact h.unmoved (s := { c.node n with commitIndex := k + 1 }) rfl
    { hnode with
      reached := fun hr v hv => (hnode.reached hr v hv).imp (fun hle => hle.trans hgt.le) id
      commit_le := hlen
      committed := .inr ⟨_, k + 1, le_rfl, hchosen, by rw [← (h.leads hrole).2]⟩
      applied_le := hnode.applied_le.trans hgt.le }
    (fun _ _ => rfl) (h.applied n)

/-- `record_append_response` keeps the invariant when no answer of an earlier term is counted. -/
theorem Inv.recordAppendResponse {response : AppendResponse ι}
    (hm : (n, response) ∈ c.appendResponses)
    (hfresh : (c.node n).role = .leader → response.success = true →
      (c.node n).currentTerm ≤ response.term) {out : Nat}
    (hrun : (c.node n).recordAppendResponse response.nodeId response = .ok (out, st)) :
    Inv V (c.set n st) H := by
  unfold ConsensusState.recordAppendResponse at hrun
  split at hrun
  · cases hrun
  split at hrun
  · next hgt =>
      cases hrun
      exact h.stepDown (le_of_lt hgt)
  next hle =>
  split at hrun
  · cases hrun
    rwa [set_self]
  next hcounts =>
  split at hrun
  · cases hrun
  cases hrun
  rw [not_or, not_not, Bool.not_eq_false] at hcounts
  obtain ⟨hrole, hsuccess⟩ := hcounts
  have hterm : response.term = (c.node n).currentTerm := by
    have hge := hfresh hrole hsuccess
    omega
  have hack := h.appendResponses _ hm hsuccess
  rw [hterm] at hack
  have hinv := (h.insertMatch hack).recomputeCommitIndex
    (by rw [set_node_self]; exact hrole)
  rwa [set_node_self, set_set] at hinv

omit h

/-! ## Applying -/

omit [DecidableEq ι] in
theorem zipIdx_frames {b : Nat} {l : List (ConsensusLogEntry β)} (h : IndexedFrom (·.index) b l) :
    ((l.map (·.frame)).zipIdx (b + 1)).map (fun fi => (fi.2, fi.1)) =
      ConsensusState.framesOf l := by
  induction l generalizing b with
  | nil => rfl
  | cons e l ih =>
    obtain ⟨he, hl⟩ := h
    have hrest := ih hl
    simp only [map_cons, zipIdx_cons, framesOf, he]
    rw [hrest]
    rfl

theorem Inv.applyCommittedPrefix (h : Inv V c H) :
    Inv V { c.set n (c.node n).applyCommittedPrefix.2 with
      applied := Function.update c.applied n
        (c.applied n ++ ((c.node n).applyCommittedPrefix.1.zipIdx ((c.node n).lastApplied + 1)).map
            fun fi => (fi.2, fi.1)) } H := by
  have hnode := h.node n
  have hrun : (c.node n).applyCommittedPrefix =
      ((((c.node n).log.take (c.node n).commitIndex).drop (c.node n).lastApplied).map (·.frame),
        { c.node n with lastApplied := (c.node n).commitIndex }) := by
    unfold ConsensusState.applyCommittedPrefix
    rw [applyLoop_spec _ _ _ hnode.indexed rfl hnode.applied_le hnode.commit_le
      hnode.short, nil_append]
  rw [hrun]
  refine h.unmoved (s := { c.node n with lastApplied := (c.node n).commitIndex }) rfl
    { hnode with applied_le := le_rfl } ?_ ?_
  · intro m hm
    rw [Function.update_of_ne hm]
  · -- the stretch just applied follows what was applied before
    have hindexed : IndexedFrom (·.index) (c.node n).lastApplied
        (((c.node n).log.take (c.node n).commitIndex).drop (c.node n).lastApplied) :=
      (hnode.indexed.anti <| take_prefix _ _).drop (Nat.zero_add _)
    rw [Function.update_self, zipIdx_frames hindexed, h.applied n]
    rw [framesOf, framesOf, framesOf, ← map_append]
    have hcut : (c.node n).log.take (c.node n).lastApplied =
        ((c.node n).log.take (c.node n).commitIndex).take (c.node n).lastApplied := by
      rw [take_take, Nat.min_eq_left hnode.applied_le]
    rw [hcut, take_append_drop]

end BicDb.Replication
