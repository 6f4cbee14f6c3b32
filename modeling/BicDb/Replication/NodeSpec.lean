import BicDb.Foundation.LeaderLogs
import BicDb.Replication.Cluster

/-!
# What the node functions do to an indexed log

The functions of `Consensus.lean` on nodes whose log stores the indexes `1, 2, …`.
-/

namespace BicDb.Replication

open BicDb.Foundation List

variable {ι β : Type*}

/-- Entries lie at their indexes. -/
abbrev Indexed (l : List (ConsensusLogEntry β)) : Prop := IndexedFrom (·.index) 0 l

/-- The log agrees with the leader logs of its terms. -/
abbrev LogMatched (H : History ι (ConsensusLogEntry β)) (l : List (ConsensusLogEntry β)) : Prop :=
  Matched (·.term) H l

namespace ConsensusState

variable {st : ConsensusState ι β}

theorem lastLogIndex_eq (h : Indexed st.log) : st.lastLogIndex = st.log.length := by
  have hlast := h.last
  simpa [lastLogIndex] using hlast

theorem lastLogTerm_eq (st : ConsensusState ι β) : st.lastLogTerm = lastTerm (·.term) st.log := rfl

theorem entryAt_succ (h : Indexed st.log) (k : Nat) : st.entryAt (k + 1) = st.log[k]? := by
  have hfind := h.find_succ k
  simpa [entryAt] using hfind

theorem truncateFrom_succ (h : Indexed st.log) {k : Nat} (hk : k ≤ st.log.length)
    (hcommit : st.commitIndex ≤ k) (happlied : st.lastApplied ≤ st.commitIndex) :
    st.truncateFrom (k + 1) = { st with log := st.log.take k } := by
  have hfilter : st.log.filter (fun e => decide (e.index < k + 1)) = st.log.take k := by
    have hlt := h.filter_lt k
    simpa using hlt
  have htake : Indexed (st.log.take k) := h.anti <| take_prefix _ _
  have hlen : ((st.log.take k).getLast?).elim 0 (·.index) = k := by
    rw [htake.last, length_take_of_le hk]
    omega
  simp only [truncateFrom, hfilter, lastLogIndex, hlen, Nat.min_eq_left hcommit,
    Nat.min_eq_left happlied]

theorem stepDown_facts {T : Nat} (l : Option ι) (hT : st.currentTerm ≤ T) :
    (st.stepDown T l).currentTerm = T ∧ (st.stepDown T l).role = .follower ∧
      (st.stepDown T l).log = st.log ∧ (st.stepDown T l).commitIndex = st.commitIndex ∧
      (st.stepDown T l).lastApplied = st.lastApplied ∧
      (st.stepDown T l).voters = st.voters ∧ (st.stepDown T l).nodeId = st.nodeId := by
  unfold stepDown
  split
  · exact ⟨rfl, rfl, rfl, rfl, rfl, rfl, rfl⟩
  · next hnot => exact ⟨by dsimp only; omega, rfl, rfl, rfl, rfl, rfl, rfl⟩

/-- What a node keeps when it starts to lead, or appends as a leader. -/
structure SameNode (st st' : ConsensusState ι β) : Prop where
  nodeId : st'.nodeId = st.nodeId
  voters : st'.voters = st.voters
  term : st'.currentTerm = st.currentTerm
  votedFor : st'.votedFor = st.votedFor
  commit : st'.commitIndex = st.commitIndex
  applied : st'.lastApplied = st.lastApplied

theorem matched_insertMatch [DecidableEq ι] (st : ConsensusState ι β) (n v : ι) (i : Nat) :
    (st.insertMatch n i).matched v = if v = n then i else st.matched v := by
  by_cases hvn : v = n
  · subst hvn
    simp [insertMatch, matched]
  · simp [insertMatch, matched, hvn]

theorem becomeLeader_spec [DecidableEq ι] {st' : ConsensusState ι β}
    (hrun : st.becomeLeader = .ok st') :
    st.role = .candidate ∧ SameNode st st' ∧ st'.role = .leader ∧ st'.log = st.log ∧
      ∀ v, st'.matched v = if v = st.nodeId then st.lastLogIndex else st.matched v := by
  unfold becomeLeader at hrun
  split at hrun
  · cases hrun
  next hrole =>
    cases hrun
    exact ⟨not_not.mp hrole, ⟨rfl, rfl, rfl, rfl, rfl, rfl⟩, rfl, rfl, fun v =>
      matched_insertMatch _ _ _ _⟩

theorem appendLocalCommit_spec [DecidableEq ι] {st' : ConsensusState ι β} {frame : CommitFrame β}
    {entry : ConsensusLogEntry β} (hrun : st.appendLocalCommit frame = .ok (entry, st')) :
    st.role = .leader ∧ SameNode st st' ∧ st'.role = .leader ∧ st'.log = st.log ++ [entry] ∧
      entry = ⟨satSucc st.lastLogIndex, st.currentTerm, frame.commitSeq, frame⟩ ∧
      ∀ v, st'.matched v = if v = st.nodeId then entry.index else st.matched v := by
  unfold appendLocalCommit at hrun
  split at hrun
  · cases hrun
  next hrole =>
    cases hrun
    exact ⟨not_not.mp hrole, ⟨rfl, rfl, rfl, rfl, rfl, rfl⟩, not_not.mp hrole, rfl, rfl,
      fun v => matched_insertMatch _ _ _ _⟩

/-! ## Storing the entries of a leader -/

section Splice

variable {H : History ι (ConsensusLogEntry β)} {L : List (ConsensusLogEntry β)}

/-- A node that stores entries of `L`: it holds the first `p` of them, and what it has committed is
part of `L`. -/
structure Follows (H : History ι (ConsensusLogEntry β)) (L : List (ConsensusLogEntry β))
    (st : ConsensusState ι β) (p : Nat) : Prop where
  matched : LogMatched H st.log
  indexed : Indexed st.log
  agree : L.take p <+: st.log
  commit_le : st.commitIndex ≤ st.log.length
  committed : st.log.take st.commitIndex <+: L
  applied_le : st.lastApplied ≤ st.commitIndex

/-- The log after the entries of a request. -/
structure Stored (H : History ι (ConsensusLogEntry β)) (L old : List (ConsensusLogEntry β))
    (p n : Nat) (new : List (ConsensusLogEntry β)) : Prop where
  matched : LogMatched H new
  indexed : Indexed new
  agree : L.take (p + n) <+: new
  keeps : ∀ q, q <+: L → q <+: old → q <+: new
  shape : new = old ∨ new = L.take (p + n)

variable {p : Nat}

theorem prefix_take_of_conflict {l q : List (ConsensusLogEntry β)} {x e : ConsensusLogEntry β}
    (hx : l[p]? = some x) (he : L[p]? = some e) (hne : x.term ≠ e.term) (hqL : q <+: L)
    (hql : q <+: l) : q <+: L.take p := by
  have hlen : q.length ≤ p := by
    by_contra hlt
    have hq : q[p]? = some (q[p]) := getElem?_eq_getElem (by omega)
    exact hne (congrArg _ ((prefix_get_eq hql hq hx).symm.trans (prefix_get_eq hqL hq he)))
  exact prefix_take_iff.mpr ⟨hqL, hlen⟩

variable {st : ConsensusState ι β}

/-- A place where the log and `L` differ lies behind everything committed. -/
theorem Follows.commit_le_of_conflict {m : Nat} (h : Follows H L st m) {x e : ConsensusLogEntry β}
    (hx : st.log[p]? = some x) (he : L[p]? = some e) (hne : x.term ≠ e.term) :
    st.commitIndex ≤ p := by
  have hle := (prefix_take_of_conflict hx he hne h.committed <| take_prefix _ _).length_le
  rw [length_take_of_le h.commit_le] at hle
  exact hle.trans ( length_take_le _ _)

/-- A node whose log is the part of `L` up to and with place `p` goes on from there. -/
theorem Follows.restart (hL : LogMatched H L) (hi : Indexed L) (h : Follows H L st p)
    (hp : p < L.length) (hc : st.commitIndex ≤ p) :
    Follows H L { st with log := L.take (p + 1) } (p + 1) where
  matched := hL.anti (List.take_prefix _ _)
  indexed := hi.anti (List.take_prefix _ _)
  agree := List.prefix_rfl
  commit_le := by
    show st.commitIndex ≤ (L.take (p + 1)).length
    rw [length_take_of_le hp]
    omega
  committed := (List.take_prefix _ _).trans <| take_prefix _ _
  applied_le := h.applied_le

/-- **Storing entries of a leader log.** The log has `L` as far as they go, or becomes that part of
`L`. -/
theorem appendIncoming_spec (hL : LogMatched H L) (hi : Indexed L) (hmax : L.length ≤ u64Max)
    (entries : List (ConsensusLogEntry β)) (st : ConsensusState ι β) (p : Nat)
    (h : Follows H L st p) (hp : p ≤ L.length) (hsent : entries <+: L.drop p) :
    L.take (p + entries.length) <+: st.log ∧ st.appendIncoming entries = (true, st) ∨
    ¬ L.take (p + entries.length) <+: st.log ∧ st.appendIncoming entries =
      (true, { st with log := L.take (p + entries.length) }) := by
  induction entries generalizing st p with
  | nil => exact .inl ⟨h.agree, rfl⟩
  | cons e rest ih =>
    -- the entry at hand is the one of `L` at place `p`, with index `p + 1`
    obtain ⟨r, hr⟩ := hsent
    have he : L[p]? = some e := by
      have hhead : (L.drop p)[0]? = some e := by rw [← hr]; rfl
      rwa [getElem?_drop, Nat.add_zero] at hhead
    have hpL : p < L.length := (List.getElem?_eq_some_iff.mp he).1
    have hidx : e.index = p + 1 := by
      have hget := hi.get he
      omega
    have hrest : rest <+: L.drop (p + 1) := by
      rw [← tail_drop, ← hr]
      exact ⟨r, rfl⟩
    have hsum : p + (e :: rest).length = p + 1 + rest.length := by
      rw [length_cons]
      omega
    rw [hsum]
    -- once the log ends with `e`, the rest goes behind it
    have hpush : st.commitIndex ≤ p →
        ({ st with log := L.take (p + 1) } : ConsensusState ι β).appendIncoming rest =
          (true, { st with log := L.take (p + 1 + rest.length) }) := by
      intro hcommit
      have hle : L.take (p + 1) <+: L.take (p + 1 + rest.length) := take_prefix_take_left (by omega)
      rcases ih _ (p + 1) (h.restart hL hi hpL hcommit) hpL hrest with ⟨hpre, hrun⟩ | ⟨-, hrun⟩
      · rw [hrun, hle.eq_of_length_le hpre.length_le]
      · exact hrun
    cases hx : st.log[p]? with
    | some x =>
      by_cases hterm : x.term = e.term
      · -- already there: the node agrees with `L` one entry further
        have hagree : L.take (p + 1) <+: st.log := by
          rw [hL.take_eq h.matched he hx hterm.symm]
          exact take_prefix _ _
        have hskip : st.appendIncoming (e :: rest) = st.appendIncoming rest := by
          simp only [appendIncoming, hidx, entryAt_succ h.indexed, hx, hterm, ne_eq,
            not_true_eq_false, if_false]
        rw [hskip]
        exact ih st (p + 1) { h with agree := hagree } hpL hrest
      · -- a conflict: the log is cut here, which is behind everything committed
        have hcommit := h.commit_le_of_conflict hx he hterm
        have hlen : p < st.log.length := (List.getElem?_eq_some_iff.mp hx).1
        have hstate : (st.truncateFrom (p + 1)).push e =
            { st with log := L.take (p + 1) } := by
          rw [truncateFrom_succ h.indexed hlen.le hcommit h.applied_le]
          simp only [push, (take_eq_of_kept hp h.agree).2, take_succ_of_get he]
        refine .inr ⟨fun hpre => hterm (congrArg _ (prefix_get_eq hpre ?_ hx).symm), ?_⟩
        · rw [getElem?_take_of_lt (by omega), he]
        · simp only [appendIncoming, hidx, entryAt_succ h.indexed, hx, ne_eq, hterm,
            not_false_eq_true, if_true, hstate]
          exact hpush hcommit
    | none =>
      -- the log ends here: it is the part of `L` before `e`
      have hlen : st.log.length ≤ p := getElem?_eq_none_iff.mp hx
      have hlog : L.take p = st.log := by
        refine h.agree.eq_of_length_le ?_
        rwa [length_take_of_le hp]
      have hlast : satSucc st.lastLogIndex = p + 1 := by
        rw [lastLogIndex_eq h.indexed, ← hlog, length_take_of_le hp, satSucc_of_lt (by omega)]
      have hstate : st.push e = { st with log := L.take (p + 1) } := by
        simp only [push, ← hlog, take_succ_of_get he]
      refine .inr ⟨fun hpre => ?_, ?_⟩
      · have hle := hpre.length_le
        rw [length_take] at hle
        omega
      · simp only [appendIncoming, hidx, entryAt_succ h.indexed, hx, hlast, ne_eq,
          not_true_eq_false, if_false, hstate]
        exact hpush (h.commit_le.trans hlen)

/-- What a refused request of the leader of `L` makes of a log: nothing shared with `L` is lost. -/
structure Refused (H : History ι (ConsensusLogEntry β)) (L old new : List (ConsensusLogEntry β)) :
    Prop where
  matched : LogMatched H new
  indexed : Indexed new
  keeps : ∀ q, q <+: L → q <+: old → q <+: new
  shorter : new <+: old

/-- **An accepted leader's request** is refused, with at most a conflicting tail cut off, or stored.
-/
theorem acceptEntries_spec (hL : LogMatched H L) (hi : Indexed L) (hmax : L.length ≤ u64Max)
    {request : AppendEntries ι β} (h : Follows H L st 0) (hp : request.prevLogIndex ≤ L.length)
    (hterm : request.prevLogTerm = lastTerm (·.term) (L.take request.prevLogIndex))
    (hsent : request.entries <+: L.drop request.prevLogIndex) :
    (∃ new, Refused H L st.log new ∧ st.acceptEntries request =
      (({ st with log := new } : ConsensusState ι β).appendResponse false,
        { st with log := new })) ∨
    (HoldsPrev st request ∧ ∃ new, ∃ st' : ConsensusState ι β,
      Stored H L st.log request.prevLogIndex request.entries.length new ∧ st' = { st with
        log := new, commitIndex := max st.commitIndex (min request.leaderCommit new.length) } ∧
      st.acceptEntries request = (st'.appendResponse true, st')) := by
  -- storing, once the node is known to hold the previous entry
  have hstore : Follows H L st request.prevLogIndex → ∃ new, ∃ st' : ConsensusState ι β,
      Stored H L st.log request.prevLogIndex request.entries.length new ∧
      st' = { st with
        log := new, commitIndex := max st.commitIndex (min request.leaderCommit new.length) } ∧
      st.appendIncoming request.entries = (true, { st with log := new }) ∧
      lastLogIndex ({ st with log := new } : ConsensusState ι β) = new.length := by
    intro hf
    rcases appendIncoming_spec hL hi hmax request.entries st _ hf hp hsent with
      ⟨hpre, hrun⟩ | ⟨hpre, hrun⟩
    · exact ⟨st.log, _, ⟨h.matched, h.indexed, hpre, fun _ _ hq => hq, .inl rfl⟩, rfl, hrun,
        lastLogIndex_eq h.indexed⟩
    · have hidx := hi.anti <| take_prefix (request.prevLogIndex + request.entries.length) L
      refine ⟨_, _,
        ⟨hL.anti <| take_prefix _ _, hidx, prefix_rfl, fun q hqL hql => ?_, .inr rfl⟩, rfl,
        hrun, lastLogIndex_eq hidx⟩
      -- else the log would have all of it
      exact (List.prefix_or_prefix_of_prefix hqL <| take_prefix _ L).resolve_right fun hq =>
        hpre (hq.trans hql)
  rcases Nat.eq_zero_or_pos request.prevLogIndex with hzero | hpos
  · right
    refine ⟨.inl hzero, ?_⟩
    obtain ⟨new, st', hst, rfl, hrun, hlen⟩ := hstore (by rw [hzero]; exact h)
    refine ⟨new, _, hst, rfl, ?_⟩
    simp only [acceptEntries, hzero, gt_iff_lt, Nat.lt_irrefl, if_false, hrun, if_true, hlen]
  · obtain ⟨k, hk⟩ : ∃ k, request.prevLogIndex = k + 1 := ⟨request.prevLogIndex - 1, by omega⟩
    have hpos' : 0 < k + 1 := Nat.succ_pos k
    have hkL : k < L.length := by omega
    obtain ⟨e, he⟩ : ∃ e, L[k]? = some e := ⟨L[k], getElem?_eq_getElem hkL⟩
    rw [hk, lastTerm_take_succ he] at hterm
    cases hx : st.log[k]? with
    | none =>
      left
      refine ⟨st.log, ⟨h.matched, h.indexed, fun q _ hq => hq, prefix_rfl⟩, ?_⟩
      simp only [acceptEntries, hk, gt_iff_lt, hpos', if_true, entryAt_succ h.indexed, hx]
    | some x =>
      by_cases hxe : x.term = e.term
      · right
        refine ⟨.inr ⟨x, by rw [hk, entryAt_succ h.indexed, hx]; rfl, hxe.trans hterm.symm⟩, ?_⟩
        have hagree : L.take request.prevLogIndex <+: st.log := by
          rw [hk, hL.take_eq h.matched he hx hxe.symm]
          exact take_prefix _ _
        obtain ⟨new, st', hst, rfl, hrun, hlen⟩ := hstore { h with agree := hagree }
        refine ⟨new, _, hst, rfl, ?_⟩
        simp only [acceptEntries, hk, gt_iff_lt, hpos', if_true, entryAt_succ h.indexed, hx,
          hterm, hxe, ne_eq, not_true_eq_false, if_false, hrun, hlen]
      · left
        have hlen : k < st.log.length := (List.getElem?_eq_some_iff.mp hx).1
        refine ⟨st.log.take k, ⟨h.matched.anti <| take_prefix _ _,
          h.indexed.anti <| take_prefix _ _, ?_, take_prefix _ _⟩, ?_⟩
        · intro q hqL hql
          have hle := (prefix_take_of_conflict hx he hxe hqL hql).length_le
          exact prefix_take_iff.mpr ⟨hql, hle.trans ( length_take_le _ _)⟩
        · simp only [acceptEntries, hk, gt_iff_lt, hpos', if_true, entryAt_succ h.indexed, hx,
            hterm, ne_eq, hxe, not_false_eq_true,
            truncateFrom_succ h.indexed hlen.le (h.commit_le_of_conflict hx he hxe) h.applied_le]

/-- Without a stale suffix the log that an answer counts as matched is part of the leader's. -/
theorem Stored.prefix_of_not_stale {request : AppendEntries ι β} {new : List (ConsensusLogEntry β)}
    (hL : L = H.tlog request.term) (hlog : LogMatched H st.log) (hidx : Indexed st.log)
    (hsent : request.entries <+: L.drop request.prevLogIndex) (hp : request.prevLogIndex ≤ L.length)
    (hholds : HoldsPrev st request)
    (hstored : Stored H L st.log request.prevLogIndex request.entries.length new)
    (hstale : ¬ StaleSuffix st request) : new <+: L := by
  rcases hstored.shape with rfl | rfl
  · -- the old log was kept whole: exclude each way in which it could leave `L`
    by_cases hshort : st.lastLogIndex ≤ request.prevLogIndex + request.entries.length
    · rw [lastLogIndex_eq hidx] at hshort
      have hle := hsent.length_le
      rw [length_drop] at hle
      rw [← hstored.agree.eq_of_length_le (by rw [length_take]; omega)]
      exact take_prefix _ _
    · refine by_contra fun hnot => hstale ⟨hholds, by omega, fun hsame => hnot ?_, ?_⟩
      · rw [hL, ← hsame]
        exact hlog.prefix_tlog
      · intro e he x hx hxe
        -- an entry sent sits in `L` and in the log at the same place
        have hmem : e ∈ L.take (request.prevLogIndex + request.entries.length) := by
          rw [take_add]
          refine mem_append_right _ ?_
          obtain ⟨r, hr⟩ := hsent
          rwa [← hr, take_left]
        rw [hidx.eq_of_index hx (hstored.agree.subset hmem) hxe]
  · exact take_prefix _ _

end Splice

/-! ## The middle match index -/

theorem length_sub_le_filter_of_sorted {l : List Nat} (h : l.Pairwise (· ≤ ·)) {j m : Nat}
    (hm : l[j]? = some m) : l.length - j ≤ (l.filter (fun x => decide (m ≤ x))).length := by
  obtain ⟨hj, rfl⟩ := List.getElem?_eq_some_iff.mp hm
  have hrest := h.sublist ( drop_sublist j l)
  have hfilter : (l.drop j).filter (fun x => decide (l[j] ≤ x)) = l.drop j := by
    rw [drop_eq_getElem_cons hj] at hrest ⊢
    refine filter_eq_self.mpr fun x hx => decide_eq_true ?_
    rcases mem_cons.mp hx with rfl | hx
    · exact le_rfl
    · exact rel_of_pairwise_cons hrest hx
  calc l.length - j = ((l.drop j).filter (fun x => decide (l[j] ≤ x))).length := by
        rw [hfilter, length_drop]
    _ ≤ (l.filter (fun x => decide (l[j] ≤ x))).length :=
        ((drop_sublist j l).filter _).length_le

/-- **`recompute_commit_index`** stays, or moves up to an entry of the current term that half of the
voters have reached. -/
theorem recomputeCommitIndex_spec (h : Indexed st.log) :
    st.recomputeCommitIndex = st ∨
      ∃ k e, st.recomputeCommitIndex = { st with commitIndex := k + 1 } ∧
        st.commitIndex < k + 1 ∧ st.log[k]? = some e ∧ e.term = st.currentTerm ∧
        st.voters.ids.length ≤
          2 * (st.voters.ids.filter (fun v => decide (k + 1 ≤ st.matched v))).length := by
  unfold recomputeCommitIndex
  dsimp only
  split
  · exact .inl rfl
  next m hm =>
  split
  · exact .inl rfl
  next hgt =>
  split
  · exact .inl rfl
  next e he =>
  split
  · next hterm =>
    right
    obtain ⟨k, rfl⟩ : ∃ k, m = k + 1 := ⟨m - 1, by omega⟩
    rw [entryAt_succ h] at he
    refine ⟨k, e, rfl, by omega, he, hterm, ?_⟩
    -- from the middle of the sorted indexes on, half of the voters have reached the index
    have hcount := length_sub_le_filter_of_sorted (pairwise_insertionSort (· ≤ ·) _) hm
    rw [((perm_insertionSort (· ≤ ·) _).filter _).length_eq, length_insertionSort, length_map,
      filter_map, length_map] at hcount
    simp only [Function.comp_def] at hcount
    omega
  · exact .inl rfl

/-! ## Applying the committed prefix -/

/-- The frames with their indexes. -/
def framesOf (l : List (ConsensusLogEntry β)) : List (Nat × CommitFrame β) :=
  l.map fun e => (e.index, e.frame)

/-- **`apply_committed_prefix`.** Everything between the two watermarks is applied, in order. -/
theorem applyLoop_spec (fuel : Nat) (st : ConsensusState ι β) (frames : List (CommitFrame β))
    (h : Indexed st.log) (hfuel : st.commitIndex - st.lastApplied = fuel)
    (hle : st.lastApplied ≤ st.commitIndex) (hlen : st.commitIndex ≤ st.log.length)
    (hmax : st.log.length ≤ u64Max) :
    applyLoop fuel st frames =
      (frames ++ ((st.log.take st.commitIndex).drop st.lastApplied).map (·.frame),
        { st with lastApplied := st.commitIndex }) := by
  induction fuel generalizing st frames with
  | zero =>
    have heq : st.lastApplied = st.commitIndex := by omega
    have hnil : (st.log.take st.commitIndex).drop st.commitIndex = [] := by simp
    have hst : { st with lastApplied := st.commitIndex } = st := by
      rcases st
      dsimp only at heq
      rw [heq]
    rw [applyLoop, heq, hnil, hst, map_nil, append_nil]
  | succ fuel ih =>
    have hlt : st.lastApplied < st.commitIndex := by omega
    have hget : st.lastApplied < st.log.length := by omega
    have hnext : satSucc st.lastApplied = st.lastApplied + 1 := satSucc_of_lt (by omega)
    have hentry : st.entryAt (st.lastApplied + 1) = some st.log[st.lastApplied] := by
      rw [entryAt_succ h, getElem?_eq_getElem hget]
    have hcut : (st.log.take st.commitIndex).drop st.lastApplied =
        st.log[st.lastApplied] :: (st.log.take st.commitIndex).drop (st.lastApplied + 1) := by
      have hlen' : st.lastApplied < (st.log.take st.commitIndex).length := by
        rw [length_take]
        omega
      rw [drop_eq_getElem_cons hlen', getElem_take]
    simp only [applyLoop, hlt, if_true, hnext, hentry]
    rw [ih { st with lastApplied := st.lastApplied + 1 } _ h (by dsimp only; omega)
      (by dsimp only; omega) hlen hmax]
    simp [hcut]

end ConsensusState

end BicDb.Replication
