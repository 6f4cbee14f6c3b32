import BicDb.Metadata.Replica

/-!
# What the node functions do to the replica

Committing an entry, counting the answers, writing an entry, and storing the entries of an append
request, on states that stand for a replica.
-/

namespace BicDb.Metadata

open BicDb.Foundation List MetadataConsensusStore

variable {ι ρ δ : Type*}

section Cut

variable {log : List (MetadataLogEntry ι ρ)} {b : Nat}

theorem filter_lt_drop (hidx : IndexedFrom (·.index) 0 log) {i : Nat} (hi : b ≤ i) :
    (log.drop b).filter (fun e => decide (i < e.index)) = log.drop i := by
  have hge := (hidx.drop (Nat.zero_add b)).filter_ge (i - b)
  rwa [drop_drop, Nat.add_sub_cancel' hi] at hge

end Cut

/-! ## Committing -/

section Commit

variable [DecidableEq ι] {P : Platform ι ρ δ} {B : Bootstrap P} {M : Care} {n : ι}
  {r : Replica ι (MetadataLogEntry ι ρ)} {l : Option ι}
  {act : Option (MetadataRestoreActivation ι)} {s : MetadataConsensusStore ι ρ}

/-- After `reset_match_indexes` only the node itself is not at zero. -/
theorem resetMatchIndexes_spec {v : ι} {i : Nat} (h : s.resetMatchIndexes.matchIndex v = some i) :
    v = s.state.nodeId ∧ i = s.state.lastLogIndex ∨ i = 0 := by
  simp only [resetMatchIndexes] at h
  split_ifs at h with hv
  · cases h
    exact .inl ⟨hv, rfl⟩
  · cases h
    exact .inr rfl

theorem commitEntry_stateOf (hs : s.state = stateOf B n r l act) (hok : LogOk B M r.log) {k : Nat}
    {e : MetadataLogEntry ι ρ} (he : r.log[k]? = some e) (hk : r.commit ≤ k) :
    ∃ s', s.commitEntry P e = (.ok (), s') ∧
      s'.state = stateOf B n (r.commitTo (k + 1)) l (nextActivation act e) ∧
      s'.committed = s.committed ++ (r.log.take (k + 1)).drop r.commit ∧
      s'.installed = s.installed ∧
      ∀ v i, s'.matchIndex v = some i → i ≤ r.log.length := by
  have hlen : k < r.log.length := (List.getElem?_eq_some_iff.mp he).1
  have hindex : e.index = k + 1 := by
    have hget := hok.indexed.get he
    omega
  have hshape : validateLogEntryShape P e s.state.clusterId = .ok () := by
    rw [hs]
    exact hok.shape (mem_of_getElem? he)
  have hstate : s.state.commit e =
      stateOf B n (r.commitTo (k + 1)) l (nextActivation act e) := by
    have hkept := filter_lt_drop hok.indexed (show r.commit ≤ k + 1 by omega)
    simp only [hs, MetadataConsensusState.commit, stateOf, Replica.commitTo, hindex, hkept,
      take_succ_of_get he, topologyAt_concat, lastTerm_concat]
    rfl
  unfold commitEntry
  rw [hshape]
  refine ⟨_, rfl, hstate, ?_, rfl, ?_⟩
  · show s.committed ++ s.state.log.filter (fun x => decide (x.index ≤ e.index)) = _
    rw [hs, hindex]
    have hlt := (hok.indexed.drop (Nat.zero_add r.commit)).filter_lt (k + 1 - r.commit)
    rw [Nat.add_sub_cancel' (by omega)] at hlt
    refine congrArg _ ?_
    rw [drop_take, ← hlt]
    exact filter_congr fun e _ => decide_eq_decide.mpr Nat.lt_succ_iff.symm
  · intro v i hv
    rcases resetMatchIndexes_spec hv with ⟨-, rfl⟩ | rfl
    · dsimp only
      rw [hstate, lastLogIndex_stateOf (r := r.commitTo (k + 1)) hok.indexed hlen]
      exact le_rfl
    · exact Nat.zero_le _

/-- `maybe_commit_leader_proposal` does nothing, or commits the whole log once both quorums hold it.
-/
theorem maybeCommit_stateOf (hs : s.state = stateOf B n r l act) (hok : LogOk B M r.log)
    (hfresh : lastTerm (·.term) r.log = r.term) :
    s.maybeCommitLeaderProposal P = (.ok false, s) ∨
    ∃ k e s', r.log.length = k + 1 ∧ r.commit ≤ k ∧ r.log[k]? = some e ∧
      hasQuorum (s.replicated (k + 1))
        (topologyVoters (topologyAt B.topology (r.log.take r.commit))) = true ∧
      hasQuorum (s.replicated (k + 1)) (topologyVoters (topologyAt B.topology r.log)) = true ∧
      s.commitEntry P e = (.ok (), s') ∧ s.maybeCommitLeaderProposal P = (.ok true, s') := by
  have hlog : s.state.log = r.log.drop r.commit := by rw [hs]; rfl
  have hterm : s.state.currentTerm = r.term := by rw [hs]; rfl
  rcases Nat.lt_or_ge r.commit r.log.length with hlt | hge
  · rcases eq_nil_or_lastTerm (fun e : MetadataLogEntry ι ρ => e.term) r.log with
      hnil | ⟨p, e, hpe, he⟩
    · rw [hnil] at hlt
      simp at hlt
    · -- the newest entry of the term is the last one
      have hlen : r.log.length = p.length + 1 := by rw [hpe]; simp
      have hget : r.log[p.length]? = some e := by rw [hpe]; simp
      have hfind : s.state.log.reverse.find? (fun x => x.term == s.state.currentTerm) =
          some e := by
        have hdrop : r.log.drop r.commit = p.drop r.commit ++ [e] := by
          rw [hpe, drop_append_of_le_length (by omega)]
        have heq : e.term = r.term := he.symm.trans hfresh
        rw [hlog, hterm, hdrop]
        simp [heq]
      have hindex : e.index = p.length + 1 := by
        have hidx := hok.indexed.get hget
        omega
      have htopo : topologyAt B.topology r.log = e.topology := by rw [hpe, topologyAt_concat]
      obtain ⟨s', hcommit, -⟩ := commitEntry_stateOf hs hok hget (by omega)
      have hct : s.state.committedTopology = topologyAt B.topology (r.log.take r.commit) := by
        rw [hs]
        rfl
      unfold maybeCommitLeaderProposal
      rw [hfind]
      dsimp only
      rw [hcommit, hindex, hct, ← htopo]
      split
      · exact .inl rfl
      · next hq =>
          simp only [Bool.or_eq_true, Bool.not_eq_true', not_or, Bool.not_eq_false] at hq
          exact .inr ⟨p.length, e, s', hlen, by omega, hget, hq.1, hq.2, hcommit, rfl⟩
  · left
    have hnil : s.state.log = [] := by rw [hlog, drop_eq_nil_of_le hge]
    unfold maybeCommitLeaderProposal
    rw [hnil]
    rfl

end Commit

section Incoming

variable [DecidableEq ι] [DecidableEq ρ] {P : Platform ι ρ δ}

/-- **The loop over the incoming entries.** The log already has them, or becomes the part before
them followed by them. -/
theorem storeIncoming_spec (es : List (MetadataLogEntry ι ρ)) {s : MetadataConsensusState ι ρ}
    {k : Nat} (hidx : IndexedFrom (·.index) s.baseIndex s.log) (hk : k ≤ s.log.length)
    (hes : IndexedFrom (·.index) (s.baseIndex + k) es)
    (hshape : ∀ e ∈ es, validateLogEntryShape P e s.clusterId = .ok ())
    (hmax : s.baseIndex + k + es.length ≤ u64Max) :
    es <+: s.log.drop k ∧ storeIncoming P s es = .stored s ∨
    ¬ es <+: s.log.drop k ∧
      storeIncoming P s es = .stored { s with log := s.log.take k ++ es } := by
  induction es generalizing s k with
  | nil => exact .inl ⟨List.nil_prefix, rfl⟩
  | cons e es ih =>
    have hindex : e.index = s.baseIndex + k + 1 := hes.1
    have hrest : IndexedFrom (·.index) (s.baseIndex + k + 1) es := hes.2
    rw [length_cons] at hmax
    have hstored : storeIncoming P s (e :: es) =
        if k < s.log.length then
          if s.log[k]? = some e then storeIncoming P s es
          else storeIncoming P { s with log := s.log.take k ++ [e] } es
        else if s.baseIndex + k + 1 = satSucc s.lastLogIndex then
          storeIncoming P { s with log := s.log ++ [e] } es
        else .gap s := by
      conv_lhs => unfold storeIncoming
      rw [hshape e (by simp)]
      rewrite [if_neg (by omega), hindex, hidx.findIdx_succ k]
      by_cases hlt : k < s.log.length
      · rw [if_pos hlt, if_pos hlt]
      · rw [if_neg hlt, if_neg hlt]
    have hshape' : ∀ x ∈ es, validateLogEntryShape P x s.clusterId = .ok () :=
      fun x hx => hshape x (mem_cons_of_mem _ hx)
    -- storing `e` behind the first `k` entries makes it the end of the log
    have hpush : storeIncoming P { s with log := s.log.take k ++ [e] } es =
        .stored { s with log := s.log.take k ++ e :: es } := by
      have hlen : (s.log.take k).length = k := length_take_of_le hk
      have hidx' : IndexedFrom (·.index) s.baseIndex (s.log.take k ++ [e]) := by
        rw [indexedFrom_append, indexedFrom_singleton, hlen]
        exact ⟨hidx.anti <| take_prefix _ _, hindex⟩
      have hk' : (s.log.take k ++ [e]).length = k + 1 := by simp [hlen]
      rcases ih (s := { s with log := s.log.take k ++ [e] }) hidx' hk'.ge
        (by rw [← Nat.add_assoc]; exact hrest) hshape'
        (by dsimp only; omega) with ⟨hnil, heq⟩ | ⟨-, heq⟩
      · rw [heq]
        have hes : es = [] := by
          rw [drop_eq_nil_of_le hk'.le] at hnil
          exact prefix_nil.mp hnil
        rw [hes]
      · rw [heq]
        rw [take_of_length_le hk'.le, append_assoc]
        rfl
    rw [hstored]
    by_cases hlt : k < s.log.length
    · rw [if_pos hlt]
      have hget : s.log[k]? = some (s.log[k]) := getElem?_eq_getElem hlt
      have hdrop : s.log.drop k = s.log[k] :: s.log.drop (k + 1) := drop_eq_getElem_cons hlt
      split_ifs with hsame
      · have he : s.log[k] = e := Option.some.inj (hget.symm.trans hsame)
        rw [hdrop, he, cons_prefix_cons]
        rcases ih (k := k + 1) hidx hlt (by rw [← Nat.add_assoc]; exact hrest) hshape'
          (by omega) with ⟨hp, heq⟩ | ⟨hp, heq⟩
        · exact .inl ⟨⟨rfl, hp⟩, heq⟩
        · refine .inr ⟨fun h => hp h.2, ?_⟩
          simp [heq, take_succ_of_get hsame]
      · refine .inr ⟨?_, hpush⟩
        rw [hdrop, cons_prefix_cons]
        rintro ⟨rfl, -⟩
        exact hsame hget
    · rw [if_neg hlt]
      have hfull : k = s.log.length := by omega
      have hlast : s.lastLogIndex = s.baseIndex + k := by
        rw [hfull]
        exact hidx.last
      rw [hlast, satSucc_of_lt (by omega), if_pos rfl]
      refine .inr ⟨?_, ?_⟩
      · rw [drop_eq_nil_of_le hfull.ge]
        intro h
        cases prefix_nil.mp h
      · rw [take_of_length_le hfull.ge] at hpush ⊢
        exact hpush

end Incoming

end BicDb.Metadata
