import BicDb.Metadata.NodeSpec

/-!
# The invariant of metadata consensus

`Inv` relates a cluster to a history and replicas of its nodes: the replicas are consistent, every
node stores what its replica stands for, and each message describes a part of the leader log of its
term.
-/

namespace BicDb.Metadata

open BicDb.Foundation List

variable {ι ρ δ : Type*}

section Definitions

variable [DecidableEq ι] {P : Platform ι ρ δ} (B : Bootstrap P) (M : Care)

/-- The snapshot stands for the log `p`. -/
structure SnapshotOf (p : List (MetadataLogEntry ι ρ)) (S : MetadataSnapshot ι ρ) : Prop where
  index : S.lastIncludedIndex = p.length
  term : S.lastIncludedTerm = lastTerm (·.term) p
  topology : S.topology = topologyAt B.topology p
  activation : M.carry → S.restoreActivation = lastActivation p

/-- The store stands for the replica `r`. -/
structure StoreInv (H : History ι (MetadataLogEntry ι ρ)) (n : ι)
    (r : Replica ι (MetadataLogEntry ι ρ)) (s : MetadataConsensusStore ι ρ) : Prop where
  state : ∃ l, s.state = stateOf B n r l s.state.committedRestoreActivation
  activation : M.carry → s.state.committedRestoreActivation = lastActivation (r.log.take r.commit)
  fresh : r.role = .leader → lastTerm (·.term) r.log = r.term
  reached : r.role = .leader → ∀ v i, s.matchIndex v = some i → i ≤ r.commit ∨ H.acked v r.term i
  lone : M.carry → r.role = .leader →
    ∀ e ∈ (r.log.drop r.commit).dropLast, e.restoreActivation = none
  committed : ∀ e ∈ s.committed, e ∈ r.log.take r.commit
  installed : ∀ S ∈ s.installed, ∃ p, p <+: r.log.take r.commit ∧ SnapshotOf B M p S

/-- File and store stand for `r`, the store possibly in a later term. -/
structure NodeInv (H : History ι (MetadataLogEntry ι ρ)) (n : ι)
    (r : Replica ι (MetadataLogEntry ι ρ)) (nd : MetadataNode ι ρ δ) : Prop where
  disk : ∃ l, nd.disk = encodeState P (stateOf B n r l nd.store.state.committedRestoreActivation)
  store : StoreInv B M H n r nd.store ∨ ∃ T, r.term ≤ T ∧ StoreInv B M H n (r.adopt T) nd.store

omit [DecidableEq ι] in
/-- While its sender is a candidate in its term, the request shows the sender's log. -/
def VoteRequestInv (a : ι → Replica ι (MetadataLogEntry ι ρ)) (m : MetadataVoteRequest ι) : Prop :=
  m.term ≤ (a m.candidateId).term ∧
    ((a m.candidateId).role = .candidate → (a m.candidateId).term = m.term →
      m.lastLogIndex = (a m.candidateId).log.length ∧
        m.lastLogTerm = lastTerm (·.term) (a m.candidateId).log)

/-- Previous entry and entries lie in the leader log `L`, with at most one change behind the commit
index. -/
structure Stretch (L : List (MetadataLogEntry ι ρ)) (m : MetadataAppendRequest ι ρ) : Prop where
  prev_le : m.prevLogIndex ≤ L.length
  prev_term : m.prevLogTerm = lastTerm (·.term) (L.take m.prevLogIndex)
  entries : m.entries <+: L.drop m.prevLogIndex
  single : (metadataRules B.topology).changeCount
    ((L.take (m.prevLogIndex + m.entries.length)).drop m.leaderCommit) ≤ 1

omit [DecidableEq ι] in
/-- Each entry was committed by some node. -/
def Recorded (c : MetadataCluster ι ρ δ) (p : List (MetadataLogEntry ι ρ)) : Prop :=
  ∀ e ∈ p, ∃ k, e ∈ (c.node k).store.committed

/-- A stretch of the leader log, or a request behind its end. -/
structure AppendRequestInv (H : History ι (MetadataLogEntry ι ρ)) (c : MetadataCluster ι ρ δ)
    (m : MetadataAppendRequest ι ρ) : Prop where
  led : H.Led m.term
  stretch : Stretch B (H.tlog m.term) m ∨
    m.prevLogTerm = 0 ∧ 0 < m.prevLogIndex ∧ m.entries = [] ∧ m.snapshot = none
  commit_le_prev : m.leaderCommit ≤ m.prevLogIndex
  commit_le : m.leaderCommit ≤ (H.tlog m.term).length
  settled : (metadataRules B.topology).Settled H ((H.tlog m.term).take m.leaderCommit)
  snapshot : ∀ S ∈ m.snapshot, m.leaderCommit = m.prevLogIndex ∧
    SnapshotOf B M ((H.tlog m.term).take m.prevLogIndex) S
  recorded : Recorded c ((H.tlog m.term).take m.leaderCommit)

/-- The invariant of the cluster. -/
structure Inv (c : MetadataCluster ι ρ δ) (H : History ι (MetadataLogEntry ι ρ))
    (a : ι → Replica ι (MetadataLogEntry ι ρ)) : Prop where
  protocol : Consistent (metadataRules B.topology) H a
  logs : ∀ t, LogOk B M (H.tlog t)
  short : ∀ t, (H.tlog t).length < u64Max
  node : ∀ n, NodeInv B M H n (a n) (c.node n)
  recorded : ∀ n, Recorded c ((a n).log.take (a n).commit)
  voteRequests : ∀ m ∈ c.voteRequests, VoteRequestInv a m
  voteResponses : ∀ m ∈ c.voteResponses, m.2.voteGranted = true →
    H.vote m.2.voterId m.2.term = some m.1
  appendRequests : ∀ m ∈ c.appendRequests, AppendRequestInv B M H c m
  appendResponses : ∀ m ∈ c.appendResponses, m.2.success = true →
    H.acked m.2.nodeId m.2.term m.2.matchIndex
  leaders : ∀ m ∈ c.leaders, ∃ el, H.won m.1 = some el ∧ el.leader = m.2

end Definitions

/-! ## Frames -/

section Frames

variable [DecidableEq ι] {P : Platform ι ρ δ} {B : Bootstrap P} {M : Care}
  {H H' : History ι (MetadataLogEntry ι ρ)} {a a' : ι → Replica ι (MetadataLogEntry ι ρ)}
  {c c' : MetadataCluster ι ρ δ} {n : ι} {r : Replica ι (MetadataLogEntry ι ρ)}
  {s : MetadataConsensusStore ι ρ}

omit [DecidableEq ι] in
theorem StoreInv.mono (hle : H.Le H') (h : StoreInv B M H n r s) : StoreInv B M H' n r s :=
  { h with reached := fun hrole v i hv => (h.reached hrole v i hv).imp id hle.acked }

omit [DecidableEq ι] in
theorem NodeInv.mono {nd : MetadataNode ι ρ δ} (hle : H.Le H') (h : NodeInv B M H n r nd) :
    NodeInv B M H' n r nd := by
  refine ⟨h.disk, ?_⟩
  rcases h.store with hs | ⟨T, hT, hs⟩
  · exact .inl (hs.mono hle)
  · exact .inr ⟨T, hT, hs.mono hle⟩

omit [DecidableEq ι] in
theorem VoteRequestInv.evolve (hev : Evolves a a') {m : MetadataVoteRequest ι}
    (h : VoteRequestInv a m) : VoteRequestInv a' m := by
  have hle := hev.term m.candidateId
  refine ⟨h.1.trans hle, fun hc ht => ?_⟩
  have hge := h.1
  obtain ⟨hc', hlog⟩ := hev.candidate _ hc (by omega)
  rw [hlog]
  exact h.2 hc' (by omega)

variable {m : MetadataAppendRequest ι ρ}

omit [DecidableEq ι] in
theorem Stretch.sum_le {L : List (MetadataLogEntry ι ρ)} (h : Stretch B L m) :
    m.prevLogIndex + m.entries.length ≤ L.length := by
  have hlen := h.entries.length_le
  have hprev := h.prev_le
  rw [length_drop] at hlen
  omega

omit [DecidableEq ι] in
theorem Stretch.mono {L L' : List (MetadataLogEntry ι ρ)} (hL : L <+: L') (h : Stretch B L m) :
    Stretch B L' m := by
  have hsum := h.sum_le
  obtain ⟨t, rfl⟩ := hL
  refine ⟨?_, ?_, ?_, ?_⟩
  · rw [length_append]
    exact h.prev_le.trans (Nat.le_add_right _ _)
  · rw [take_append_of_le_length h.prev_le]
    exact h.prev_term
  · rw [drop_append_of_le_length h.prev_le]
    exact h.entries.trans (prefix_append _ _)
  · rw [take_append_of_le_length hsum]
    exact h.single

omit [DecidableEq ι] in
theorem Recorded.mono {p : List (MetadataLogEntry ι ρ)}
    (hgrow : ∀ k, (c.node k).store.committed ⊆ (c'.node k).store.committed)
    (h : Recorded c p) : Recorded c' p := by
  intro e he
  obtain ⟨k, hk⟩ := h e he
  exact ⟨k, hgrow k hk⟩

theorem AppendRequestInv.mono (hle : H.Le H')
    (hgrow : ∀ k, (c.node k).store.committed ⊆ (c'.node k).store.committed)
    (h : AppendRequestInv B M H c m) : AppendRequestInv B M H' c' m := by
  have hcommit := hle.take_tlog h.commit_le
  refine
    { led := hle.led h.led, stretch := h.stretch.imp (Stretch.mono (hle.tlog _)) id
      commit_le_prev := h.commit_le_prev
      commit_le := h.commit_le.trans (hle.tlog _).length_le, settled := ?_, snapshot := ?_
      recorded := ?_ }
  · rw [hcommit]
    exact h.settled.mono hle
  · intro S hS
    obtain ⟨heq, hof⟩ := h.snapshot S hS
    refine ⟨heq, ?_⟩
    rwa [← heq, hcommit, heq]
  · rw [hcommit]
    exact h.recorded.mono hgrow

theorem Inv.logOk (h : Inv B M c H a) (n : ι) : LogOk B M (a n).log :=
  fun p e hpe => h.logs _ p e (h.protocol.sound.log_matched n p e hpe).2

theorem Inv.short_of_matched (h : Inv B M c H a) {l : List (MetadataLogEntry ι ρ)}
    (hl : Matched (·.term) H l) : l.length < u64Max := by
  rcases eq_nil_or_concat' l with rfl | ⟨p, e, rfl⟩
  · show 0 < u64Max
    decide
  · exact (hl p e prefix_rfl).2.length_le.trans_lt (h.short _)

end Frames

end BicDb.Metadata
