import BicDb.Foundation.JointReplication
import BicDb.Replication.NodeSpec

/-!
# The invariant of the replication consensus

The consensus is the protocol of `Foundation/JointReplication.lean` under `consensusRules`. What a
node has committed is kept beside its replica: it need not end where an entry was chosen
(`Committed`). `Inv` states what holds of a cluster and its history.
-/

namespace BicDb.Replication

open BicDb.Foundation List

variable {ι β : Type*}

/-! ## Nodes as replicas -/

/-- The instance of the protocol: the voters never change. -/
def consensusRules (V : VoterSet ι) : Rules ι (ConsensusLogEntry β) where
  termOf := (·.term)
  changes := fun _ => false
  votersAt := fun _ => V.ids
  halves := true

def roleOf : ConsensusRole → Role
  | .follower => .follower
  | .candidate => .candidate
  | .leader => .leader

@[simp] theorem roleOf_eq_candidate {r : ConsensusRole} : roleOf r = .candidate ↔
    r = .candidate := by
  cases r <;> simp [roleOf]

@[simp] theorem roleOf_eq_leader {r : ConsensusRole} : roleOf r = .leader ↔ r = .leader := by
  cases r <;> simp [roleOf]

/-- What the protocol sees of a node. -/
def replicaOf (st : ConsensusState ι β) : Replica ι (ConsensusLogEntry β) :=
  ⟨st.currentTerm, st.votedFor, roleOf st.role, st.log, 0⟩

def replicas (c : Cluster ι β) (n : ι) : Replica ι (ConsensusLogEntry β) := replicaOf (c.node n)

/-! ## Committed prefixes -/

section Committed

variable [DecidableEq ι] {V : VoterSet ι} {H H' : History ι (ConsensusLogEntry β)}

/-- Chosen in a term up to `T`. -/
def Committed (V : VoterSet ι) (H : History ι (ConsensusLogEntry β)) (T : Nat)
    (p : List (ConsensusLogEntry β)) : Prop :=
  p = [] ∨ ∃ t i, t ≤ T ∧ (consensusRules V).Chosen H t i 0 ∧ p <+: (H.tlog t).take i

variable {T : Nat} {p : List (ConsensusLogEntry β)}

theorem Committed.mono (hle : H.Le H') {T' : Nat} (hT : T ≤ T') (h : Committed V H T p) :
    Committed V H' T' p := by
  rcases h with rfl | ⟨t, i, ht, hch, hp⟩
  · exact .inl rfl
  · exact .inr ⟨t, i, ht.trans hT, hch.mono hle, by rwa [hle.take_tlog hch.le]⟩

theorem Committed.anti {q : List (ConsensusLogEntry β)} (h : Committed V H T p) (hq : q <+: p) :
    Committed V H T q := by
  rcases h with rfl | ⟨t, i, ht, hch, hp⟩
  · exact .inl (prefix_nil.mp hq)
  · exact .inr ⟨t, i, ht, hch, hq.trans hp⟩

variable {a : ι → Replica ι (ConsensusLogEntry β)}

/-- **Leader completeness.** What is committed in a term up to `T` lies in the log of the leader of
`T`. -/
theorem Committed.carried (hc : Consistent (consensusRules V) H a) (h : Committed V H T p)
    (hled : H.Led T) : p <+: H.tlog T := by
  rcases h with rfl | ⟨t, i, ht, hch, hp⟩
  · exact nil_prefix
  · exact hp.trans (hc.settled_le (.chosen hch .nil) hled (hch.last.le.trans ht))

theorem Committed.comparable (hc : Consistent (consensusRules V) H a) {T' : Nat}
    {q : List (ConsensusLogEntry β)} (hp : Committed V H T p) (hq : Committed V H T' q) :
    p <+: q ∨ q <+: p := by
  rcases hp with rfl | ⟨t, i, -, hch, hpi⟩
  · exact .inl nil_prefix
  rcases hq with rfl | ⟨t', i', -, hch', hqi⟩
  · exact .inr nil_prefix
  have hset : (consensusRules V).Settled H ((H.tlog t).take i) := .chosen hch .nil
  rcases hset.comparable hc.sound hc.wellFormed hc.elections (.chosen hch' .nil) with hle | hle
  · exact prefix_or_prefix_of_prefix (hpi.trans hle) hqi
  · exact prefix_or_prefix_of_prefix hpi (hqi.trans hle)

end Committed

/-! ## The invariant -/

section Invariant

variable [DecidableEq ι]

/-- The invariant of a node. -/
structure NodeInv (V : VoterSet ι) (H : History ι (ConsensusLogEntry β)) (n : ι)
    (st : ConsensusState ι β) : Prop where
  voters : st.voters = V
  nodeId : st.nodeId = n
  indexed : Indexed st.log
  short : st.log.length ≤ u64Max
  reached : st.role = .leader → ∀ v ∈ V.ids,
    st.matched v ≤ st.commitIndex ∨ H.acked v st.currentTerm (st.matched v)
  commit_le : st.commitIndex ≤ st.log.length
  committed : Committed V H st.currentTerm (st.log.take st.commitIndex)
  applied_le : st.lastApplied ≤ st.commitIndex

omit [DecidableEq ι] in
/-- A vote request describes the log of its candidate, as long as that stays a candidate of the same
term. -/
def VoteRequestInv (a : ι → Replica ι (ConsensusLogEntry β)) (m : RequestVote ι) : Prop :=
  m.term ≤ (a m.candidateId).term ∧
    ((a m.candidateId).role = .candidate → (a m.candidateId).term = m.term →
      m.lastLogIndex = (a m.candidateId).log.length ∧
        m.lastLogTerm = lastTerm (·.term) (a m.candidateId).log)

/-- An append request is a stretch of the leader log of its term, with a committed prefix of it. -/
structure AppendRequestInv (V : VoterSet ι) (H : History ι (ConsensusLogEntry β))
    (m : AppendEntries ι β) : Prop where
  led : H.Led m.term
  prev_le : m.prevLogIndex ≤ (H.tlog m.term).length
  prev_term : m.prevLogTerm = lastTerm (·.term) ((H.tlog m.term).take m.prevLogIndex)
  entries : m.entries <+: (H.tlog m.term).drop m.prevLogIndex
  commit_le : m.leaderCommit ≤ m.prevLogIndex + m.entries.length
  committed : Committed V H m.term ((H.tlog m.term).take m.leaderCommit)

/-- The invariant of the cluster. -/
structure Inv (V : VoterSet ι) (c : Cluster ι β) (H : History ι (ConsensusLogEntry β)) : Prop where
  protocol : Consistent (consensusRules V) H (replicas c)
  node : ∀ n, NodeInv V H n (c.node n)
  logs : ∀ t, Indexed (H.tlog t) ∧ (H.tlog t).length ≤ u64Max
  voteRequests : ∀ m ∈ c.voteRequests, VoteRequestInv (replicas c) m
  voteResponses : ∀ m ∈ c.voteResponses, m.2.voteGranted = true →
    H.vote m.2.voterId m.2.term = some m.1
  appendRequests : ∀ m ∈ c.appendRequests, AppendRequestInv V H m
  appendResponses : ∀ m ∈ c.appendResponses, m.2.success = true →
    H.acked m.2.nodeId m.2.term m.2.matchIndex
  applied : ∀ n, c.applied n = ConsensusState.framesOf ((c.node n).log.take (c.node n).lastApplied)

variable {V : VoterSet ι} {H H' : History ι (ConsensusLogEntry β)}

theorem AppendRequestInv.mono (hle : H.Le H') {m : AppendEntries ι β}
    (h : AppendRequestInv V H m) : AppendRequestInv V H' m := by
  have hsum : m.prevLogIndex + m.entries.length ≤ (H.tlog m.term).length := by
    have hlen := h.entries.length_le
    have hprev := h.prev_le
    rw [length_drop] at hlen
    omega
  refine ⟨hle.led h.led, h.prev_le.trans (hle.tlog _).length_le, ?_, ?_, h.commit_le, ?_⟩
  · rw [hle.take_tlog h.prev_le]
    exact h.prev_term
  · obtain ⟨r, hr⟩ := hle.tlog m.term
    rw [← hr, drop_append_of_le_length h.prev_le]
    exact h.entries.trans (prefix_append _ _)
  · rw [hle.take_tlog (h.commit_le.trans hsum)]
    exact h.committed.mono hle le_rfl

theorem NodeInv.mono (hle : H.Le H') {n : ι} {st : ConsensusState ι β} (h : NodeInv V H n st) :
    NodeInv V H' n st :=
  { h with
    reached := fun hrole v hv => (h.reached hrole v hv).imp id hle.acked
    committed := h.committed.mono hle le_rfl }

omit [DecidableEq ι] in
theorem VoteRequestInv.evolve {a a' : ι → Replica ι (ConsensusLogEntry β)} (hev : Evolves a a')
    {m : RequestVote ι} (h : VoteRequestInv a m) : VoteRequestInv a' m := by
  have hle := hev.term m.candidateId
  refine ⟨h.1.trans hle, fun hc ht => ?_⟩
  have hge := h.1
  obtain ⟨hc', hlog⟩ := hev.candidate _ hc (by omega)
  rw [hlog]
  exact h.2 hc' (by omega)

end Invariant

end BicDb.Replication
