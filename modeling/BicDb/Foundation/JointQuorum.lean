import BicDb.Foundation.LeaderLogs

/-!
# Joint quorums: replication while the voters change

The voters are a function of the log. A prefix of a leader log is chosen (`Chosen`) by a quorum of
the voters at the leader's settled prefix and one of the voters at its own end, with at most one
change in between; prefixes chosen one on top of the other are settled. If entries only move the
voters to sets whose choices meet the quorums before (`WellFormed`), winners hold every settled
prefix.
-/

namespace BicDb.Foundation

open List

universe u v

/-! ## Quorums -/

section Quorum

variable {N : Type u} [DecidableEq N]

/-- More than half of the voters are in `A`. -/
def HasQuorum (A : Finset N) (voters : List N) : Prop :=
  voters.length < 2 * (voters.filter (fun n => decide (n ∈ A))).length

/-- Every quorum of the one set meets every quorum of the other. -/
def QuorumsMeet (V W : List N) : Prop :=
  ∀ A B : Finset N, HasQuorum A V → HasQuorum B W → ∃ n, n ∈ A ∧ n ∈ B

omit [DecidableEq N] in
/-- Two parts that together are longer than a list share an element. -/
theorem exists_of_filter_lt {l : List N} {p q : N → Bool}
    (h : l.length < (l.filter p).length + (l.filter q).length) :
    ∃ n ∈ l, p n = true ∧ q n = true := by
  induction l with
  | nil => simp at h
  | cons x l ih =>
    by_cases hboth : p x = true ∧ q x = true
    · exact ⟨x, mem_cons_self, hboth⟩
    have hrest : l.length < (l.filter p).length + (l.filter q).length := by
      cases hp : p x <;> cases hq : q x <;> simp_all <;> omega
    obtain ⟨n, hn, hpq⟩ := ih hrest
    exact ⟨n, mem_cons_of_mem _ hn, hpq⟩

/-- The number of voters in both lists. -/
def commonVoters (V W : List N) : Nat := (V.filter (fun n => decide (n ∈ W))).length

/-- Two voter sets overlap enough for their quorums to meet. -/
def Overlap (V W : List N) : Prop :=
  commonVoters V W < (V.length / 2 + 1 - (V.length - commonVoters V W)) +
    (W.length / 2 + 1 - (W.length - commonVoters V W))

instance (V W : List N) : Decidable (Overlap V W) :=
  inferInstanceAs (Decidable (_ < _))

variable {V : List N}

theorem quorum_common_le {A : Finset N} {p : N → Bool} (hA : HasQuorum A V) :
    V.length / 2 + 1 - (V.length - (V.filter p).length) ≤
      ((V.filter p).filter (fun n => decide (n ∈ A))).length := by
  have hall := V.length_eq_length_filter_add p
  have hsplit := (V.filter (fun n => decide (n ∈ A))).length_eq_length_filter_add p
  rw [filter_comm p, filter_comm (fun n => !p n)] at hsplit
  have hle := length_filter_le (fun n => decide (n ∈ A)) (V.filter (fun n => !p n))
  unfold HasQuorum at hA
  omega

variable {W : List N}

theorem common_perm (hV : V.Nodup) (hW : W.Nodup) :
    (W.filter (fun n => decide (n ∈ V))).Perm (V.filter (fun n => decide (n ∈ W))) := by
  rw [perm_ext_iff_of_nodup (hW.filter _) (hV.filter _)]
  intro n
  simp only [mem_filter, decide_eq_true_eq]
  exact and_comm

theorem Overlap.quorumsMeet (hV : V.Nodup) (hW : W.Nodup) (h : Overlap V W) :
    QuorumsMeet V W := by
  intro A B hA hB
  have hperm := common_perm hV hW
  have hcA := quorum_common_le (p := fun n => decide (n ∈ W)) hA
  have hcB := quorum_common_le (p := fun n => decide (n ∈ V)) hB
  rw [(hperm.filter _).length_eq, hperm.length_eq] at hcB
  unfold Overlap commonVoters at h
  obtain ⟨n, -, hn⟩ := exists_of_filter_lt (l := V.filter (fun n => decide (n ∈ W)))
    (p := fun n => decide (n ∈ A)) (q := fun n => decide (n ∈ B)) (by omega)
  exact ⟨n, of_decide_eq_true hn.1, of_decide_eq_true hn.2⟩

/-- The number of voters that two sets do not share. -/
def voterDistance (V W : List N) : Nat :=
  (V.filter (fun n => !decide (n ∈ W))).length + (W.filter (fun n => !decide (n ∈ V))).length

theorem overlap_of_distance_le_one (hV : V.Nodup) (hW : W.Nodup) (h : voterDistance V W ≤ 1) :
    Overlap V W := by
  have hperm := common_perm hV hW
  have hlenV := V.length_eq_length_filter_add (fun n => decide (n ∈ W))
  have hlenW := W.length_eq_length_filter_add (fun n => decide (n ∈ V))
  rw [hperm.length_eq] at hlenW
  unfold voterDistance at h
  unfold Overlap commonVoters
  omega

end Quorum

/-! ## Chosen and settled prefixes -/

section Settled

variable {N : Type u} {E : Type v} [DecidableEq N]

/-- How entries govern the replication: term, voters, and whether half of the voters choose. -/
structure Rules (N : Type u) (E : Type v) where
  termOf : E → Nat
  changes : E → Bool
  votersAt : List E → List N
  halves : Bool := false

namespace Rules

variable (R : Rules N E)

/-- The number of entries that may change the voters. -/
def changeCount (l : List E) : Nat := l.countP R.changes

/-- The acknowledgements `A` choose an entry under these voters. -/
def Accepts (A : Finset N) (voters : List N) : Prop :=
  voters.length < 2 * (voters.filter (fun n => decide (n ∈ A))).length + R.halves.toNat

/-- Every quorum of the one set meets every choice of the other. -/
def Meet (V W : List N) : Prop :=
  ∀ A B : Finset N, HasQuorum A V → R.Accepts B W → ∃ n, n ∈ A ∧ n ∈ B

theorem meet_self (V : List N) : R.Meet V V := by
  intro A B hA hB
  have hhalves := R.halves.toNat_le
  unfold HasQuorum at hA
  unfold Accepts at hB
  obtain ⟨n, -, hn⟩ := exists_of_filter_lt (l := V) (p := fun n => decide (n ∈ A))
    (q := fun n => decide (n ∈ B)) (by omega)
  exact ⟨n, of_decide_eq_true hn.1, of_decide_eq_true hn.2⟩

/-- The quorums before a change meet the choices after it. -/
def WellFormed (l : List E) : Prop :=
  ∀ p e, p ++ [e] <+: l → (R.changes e = false → R.votersAt (p ++ [e]) = R.votersAt p) ∧
    R.Meet (R.votersAt p) (R.votersAt (p ++ [e]))

/-- The first `i` entries of the log of `t` are chosen on top of its first `b`. -/
structure Chosen (H : History N E) (t i b : Nat) : Prop where
  led : H.Led t
  le : i ≤ (H.tlog t).length
  lt : b < i
  last : lastTerm R.termOf ((H.tlog t).take i) = t
  single : R.changeCount (((H.tlog t).take i).drop b) ≤ 1
  quorum : ∃ A : Finset N, (∀ n ∈ A, ∃ k, i ≤ k ∧ H.acked n t k) ∧
    R.Accepts A (R.votersAt ((H.tlog t).take b)) ∧ R.Accepts A (R.votersAt ((H.tlog t).take i))

/-- A prefix built of chosen ones. -/
inductive Settled (H : History N E) : List E → Prop where
  | nil : Settled H []
  | chosen {t i b : Nat} : R.Chosen H t i b → Settled H ((H.tlog t).take b) →
      Settled H ((H.tlog t).take i)

/-- A candidate of `T` with log `c`, settled up to `b`, and its votes. -/
structure Contest (H : History N E) (T : Nat) (c : List E) (b : Nat) (Q : Finset N) : Prop where
  pos : 0 < T
  matched : Matched R.termOf H c
  terms : ∀ e ∈ c, R.termOf e < T
  le : b ≤ c.length
  settled : R.Settled H (c.take b)
  single : R.changeCount (c.drop b) ≤ 1
  quorum : HasQuorum Q (R.votersAt (c.take b))
  votes : ∀ n ∈ Q, ∃ l, H.vlog n T = some l ∧ UpToDate R.termOf c l

variable {R} {H H' : History N E}

variable {l : List E}

theorem WellFormed.anti {m : List E} (h : R.WellFormed m) (hp : l <+: m) : R.WellFormed l :=
  fun p e hpe => h p e (hpe.trans hp)

omit [DecidableEq N] in
theorem changeCount_mono {m : List E} (h : l.Sublist m) : R.changeCount l ≤ R.changeCount m :=
  h.countP_le

variable {p : List E}

theorem WellFormed.votersAt_eq {s : List E} (h : R.WellFormed (p ++ s)) (hs : R.changeCount s = 0) :
    R.votersAt (p ++ s) = R.votersAt p := by
  induction s using reverseRecOn with
  | nil => rw [append_nil]
  | append_singleton s e ih =>
    rw [← append_assoc] at h ⊢
    unfold changeCount at hs ih
    rw [countP_append, countP_singleton] at hs
    have he : R.changes e = false := by
      cases hc : R.changes e with
      | false => rfl
      | true => simp [hc] at hs
    rw [(h (p ++ s) e prefix_rfl).1 he]
    exact ih (h.anti (prefix_append _ _)) (by omega)

/-- With one change the quorums before it meet the choices after it. -/
theorem WellFormed.meet {s : List E} (h : R.WellFormed (p ++ s)) (hs : R.changeCount s ≤ 1) :
    R.Meet (R.votersAt p) (R.votersAt (p ++ s)) := by
  induction s using reverseRecOn with
  | nil =>
    rw [append_nil]
    exact R.meet_self _
  | append_singleton s e ih =>
    rw [← append_assoc] at h ⊢
    have hprev : R.WellFormed (p ++ s) := h.anti (prefix_append _ _)
    obtain ⟨hkeep, hmeet⟩ := h (p ++ s) e prefix_rfl
    unfold changeCount at hs ih
    rw [countP_append, countP_singleton] at hs
    cases hc : R.changes e with
    | false =>
      rw [hkeep hc]
      exact ih hprev (by omega)
    | true =>
      -- the one change is here: before it the voters are those of `p`
      rw [hc, if_pos rfl] at hs
      rwa [hprev.votersAt_eq (by unfold changeCount; omega)] at hmeet

theorem WellFormed.meet_take (h : R.WellFormed l) {j k : Nat} (hjk : j ≤ k)
    (hs : R.changeCount ((l.take k).drop j) ≤ 1) :
    R.Meet (R.votersAt (l.take j)) (R.votersAt (l.take k)) := by
  have hwf : R.WellFormed (l.take k) := h.anti <| take_prefix _ _
  rw [← take_append_drop_take l hjk] at hwf ⊢
  exact hwf.meet hs

theorem WellFormed.votersAt_take (h : R.WellFormed l) {j k : Nat} (hjk : j ≤ k)
    (hs : R.changeCount ((l.take k).drop j) = 0) :
    R.votersAt (l.take k) = R.votersAt (l.take j) := by
  have hwf : R.WellFormed (l.take k) := h.anti <| take_prefix _ _
  rw [← take_append_drop_take l hjk] at hwf ⊢
  exact hwf.votersAt_eq hs

theorem wellFormed_of_matched (hwf : ∀ t, R.WellFormed (H.tlog t)) (hl : Matched R.termOf H l) :
    R.WellFormed l :=
  fun p e hpe => hwf _ p e (hl p e hpe).2

theorem Chosen.mono (hle : H.Le H') {t i b : Nat} (h : R.Chosen H t i b) : R.Chosen H' t i b := by
  have hi := hle.take_tlog h.le
  have hb := hle.take_tlog (h.lt.le.trans h.le)
  refine ⟨hle.led h.led, h.le.trans (hle.tlog t).length_le, h.lt, ?_, ?_, ?_⟩
  · rw [hi]
    exact h.last
  · rw [hi]
    exact h.single
  · rw [hi, hb]
    obtain ⟨A, hack, hA⟩ := h.quorum
    refine ⟨A, fun n hn => ?_, hA⟩
    obtain ⟨k, hk, ha⟩ := hack n hn
    exact ⟨k, hk, hle.acked ha⟩

theorem Settled.mono (hle : H.Le H') (h : R.Settled H p) : R.Settled H' p := by
  induction h with
  | nil => exact .nil
  | chosen hch _ ih =>
    rw [← hle.take_tlog (hch.lt.le.trans hch.le)] at ih
    rw [← hle.take_tlog hch.le]
    exact .chosen (hch.mono hle) ih

theorem Contest.mono (hle : H.Le H')
    (hvlog : ∀ {n t l}, H.vlog n t = some l → H'.vlog n t = some l) {T : Nat} {c : List E} {b : Nat}
    {Q : Finset N} (h : R.Contest H T c b Q) : R.Contest H' T c b Q := by
  refine { h with matched := h.matched.mono hle, settled := h.settled.mono hle, votes := ?_ }
  intro n hn
  obtain ⟨l, hl, hup⟩ := h.votes n hn
  exact ⟨l, hvlog hl, hup⟩

section Carry

variable {term : N → Nat} {log : N → List E}

variable {T b : Nat} {c : List E} {Q : Finset N}

theorem Contest.lastTerm_lt (h : R.Contest H T c b Q) : lastTerm R.termOf (c.take b) < T :=
  lastTerm_take_of (P := (· < T)) h.pos h.terms b

variable {p : List E}

/-- Settled prefixes before `T`, once comparable, lie in a candidate's log. -/
theorem Contest.carries_of_transfer (hs : H.Sound R.termOf term log)
    (hwf : ∀ t, R.WellFormed (H.tlog t)) (hc : R.Contest H T c b Q)
    (hcomp : ∀ p q, R.Settled H p → R.Settled H q → lastTerm R.termOf p < T →
      lastTerm R.termOf q < T → p <+: q ∨ q <+: p)
    (htransfer : ∀ n ∈ Q, ∀ t k i, R.Settled H ((H.tlog t).take i) → t < T → H.acked n t k →
      i ≤ k → lastTerm R.termOf ((H.tlog t).take i) = t → (H.tlog t).take i <+: c)
    (hp : R.Settled H p) (hlt : lastTerm R.termOf p < T) : p <+: c := by
  induction hp with
  | nil => exact nil_prefix
  | @chosen t i b' hch hset ih =>
    have hsettled : R.Settled H ((H.tlog t).take i) := .chosen hch hset
    have htT : t < T := by
      rwa [hch.last] at hlt
    have hbase : (H.tlog t).take b' <+: c := ih ((lastTerm_take_of (P := (· ≤ t))
      (Nat.zero_le t) (fun _ => hs.tlog_le) b').trans_lt htT)
    -- the candidate's own settled prefix is longer, or lies in the chosen one
    rcases hcomp _ _ hsettled hc.settled hlt hc.lastTerm_lt with hdone | hback
    · exact hdone.trans <| take_prefix _ _
    have hlenc : (c.take b).length = b := length_take_of_le hc.le
    have hleni : ((H.tlog t).take i).length = i := length_take_of_le hch.le
    have hbi : b ≤ i := by
      have hle := hback.length_le
      omega
    have hown : c.take b = (H.tlog t).take b :=
      (take_eq_of_kept hc.le (hback.trans <| take_prefix _ _)).2.symm
    have hquorum := hc.quorum
    rw [hown] at hquorum
    obtain ⟨A, hack, hAb, hAi⟩ := hch.quorum
    have hcommon : ∃ n, n ∈ Q ∧ n ∈ A := by
      rcases Nat.lt_or_ge b b' with hbb | hbb
      · -- the candidate is settled before the base of the choice, which it holds: at most one
        -- change lies between
        have hmeet : R.Meet (R.votersAt ((H.tlog t).take b))
            (R.votersAt ((H.tlog t).take b')) := by
          have hcw : R.WellFormed c := wellFormed_of_matched hwf hc.matched
          rw [← hown, ← (take_eq_of_kept (hch.lt.le.trans hch.le) hbase).2]
          apply hcw.meet_take hbb.le
          exact (changeCount_mono ((take_sublist _ _).drop b)).trans hc.single
        exact hmeet Q A hquorum hAb
      · -- it is settled between the base and the end of the choice: the single change lies on
        -- one side of that place
        have hw : R.WellFormed (H.tlog t) := hwf t
        have hsplit : R.changeCount (((H.tlog t).take i).drop b') =
            R.changeCount (((H.tlog t).take b).drop b') +
              R.changeCount (((H.tlog t).take i).drop b) := by
          have happ : ((H.tlog t).take i).drop b' =
              ((H.tlog t).take b).drop b' ++ ((H.tlog t).take i).drop b := by
            conv_lhs => rw [← take_append_drop_take _ hbi]
            rw [drop_append_of_le_length]
            rwa [length_take_of_le (hbi.trans hch.le)]
          rw [happ]
          unfold changeCount
          rw [countP_append]
        have hsingle := hch.single
        rcases Nat.eq_zero_or_pos (R.changeCount (((H.tlog t).take b).drop b')) with hzero | hone
        · rw [hw.votersAt_take hbb hzero] at hquorum
          exact R.meet_self _ Q A hquorum hAb
        · have hzero : R.changeCount (((H.tlog t).take i).drop b) = 0 := by omega
          rw [← hw.votersAt_take hbi hzero] at hquorum
          exact R.meet_self _ Q A hquorum hAi
    obtain ⟨n, hnQ, hnA⟩ := hcommon
    obtain ⟨k, hik, ha⟩ := hack n hnA
    exact htransfer n hnQ t k i hsettled htT ha hik hch.last

/-- Every won election was a contest. -/
def Elections (R : Rules N E) (H : History N E) : Prop :=
  ∀ {t el}, H.won t = some el → ∃ b, R.Contest H t el.start b el.votes

theorem comparable_of_carried
    (hcarried : ∀ t el p, t < T → H.won t = some el → R.Settled H p →
      lastTerm R.termOf p < t → p <+: H.tlog t) (p q : List E) (hp : R.Settled H p)
    (hq : R.Settled H q) (hpT : lastTerm R.termOf p < T) (hqT : lastTerm R.termOf q < T) :
    p <+: q ∨ q <+: p := by
  cases hp with
  | nil => exact .inl nil_prefix
  | @chosen t i b hch hset =>
    cases hq with
    | nil => exact .inr nil_prefix
    | @chosen t' i' b' hch' hset' =>
      have hp : R.Settled H ((H.tlog t).take i) := .chosen hch hset
      have hq : R.Settled H ((H.tlog t').take i') := .chosen hch' hset'
      rw [hch.last] at hpT
      rw [hch'.last] at hqT
      -- both are prefixes of the log of the later term
      rcases Nat.lt_trichotomy t t' with hlt | rfl | hlt
      · obtain ⟨el, hwon⟩ := hch'.led
        have hcar := hcarried t' el _ hqT hwon hp (by rw [hch.last]; exact hlt)
        exact prefix_or_prefix_of_prefix hcar <| take_prefix i' _
      · exact prefix_or_prefix_of_prefix (List.take_prefix i (H.tlog t)) <| take_prefix i' _
      · obtain ⟨el, hwon⟩ := hch.led
        have hcar := hcarried t el _ hpT hwon hq (by rw [hch'.last]; exact hlt)
        exact prefix_or_prefix_of_prefix (List.take_prefix i _) hcar

variable (hs : H.Sound R.termOf term log)

include hs

variable (hwf : ∀ t, R.WellFormed (H.tlog t))

include hwf

variable (hel : R.Elections H)

include hel

/-- **Leader completeness.** A leader holds every settled prefix of earlier terms. -/
theorem settled_carried {el : Election N E} (hwon : H.won T = some el) (hp : R.Settled H p)
    (hlt : lastTerm R.termOf p < T) : p <+: H.tlog T := by
  induction T using Nat.strong_induction_on generalizing el p with
  | _ T ih =>
    have hcarried : ∀ t el p, t < T → H.won t = some el → R.Settled H p →
        lastTerm R.termOf p < t → p <+: H.tlog t := by
      intro t el p ht hw hset hl
      exact ih t ht hw hset hl
    obtain ⟨b, hcontest⟩ := hel hwon
    have hstart := (hs.won_start hwon).1
    refine List.IsPrefix.trans ?_ hstart
    apply hcontest.carries_of_transfer hs hwf (comparable_of_carried hcarried) ?_ hp hlt
    intro n hn t k i hset ht ha hi hlast
    obtain ⟨-, hearly, l, hl, hup⟩ := hs.won_votes hwon n hn
    apply hs.carried_of_meet ha hi hlast ht hl hcontest.matched hcontest.terms hup
    rintro t' htt' (ht' | ⟨-, hlate⟩) ⟨el', hw'⟩
    · exact hcarried t' el' _ ht' hw' hset (by rw [hlast]; exact htt')
    · exact absurd hlate hearly

/-- **Settled prefixes never disagree.** -/
theorem Settled.comparable {q : List E} (hp : R.Settled H p) (hq : R.Settled H q) :
    p <+: q ∨ q <+: p := by
  apply comparable_of_carried (T := lastTerm R.termOf p + lastTerm R.termOf q + 1) ?_ p q hp hq
    (by omega) (by omega)
  intro t el r _ hwon hr hlt
  exact settled_carried hs hwf hel hwon hr hlt

variable (hc : R.Contest H T c b Q)

include hc

/-- A candidate with a quorum holds every settled prefix of earlier terms. -/
theorem Contest.carries (hp : R.Settled H p)
    (hlt : lastTerm R.termOf p < T) : p <+: c := by
  refine hc.carries_of_transfer hs hwf (fun p q hp hq _ _ => hp.comparable hs hwf hel hq) ?_ hp hlt
  intro n hn t k i hset ht ha hi hlast
  obtain ⟨l, hl, hup⟩ := hc.votes n hn
  apply hs.carried_of_meet ha hi hlast ht hl hc.matched hc.terms hup
  rintro t' htt' - ⟨el', hw'⟩
  exact settled_carried hs hwf hel hw' hset (by rw [hlast]; exact htt')

theorem Contest.common_voter_of_le {c' : List E} {b' : Nat} {Q' : Finset N}
    (hc' : R.Contest H T c' b' Q') (hbb : b ≤ b') :
    ∃ n, n ∈ Q ∧ n ∈ Q' := by
  -- the first holds what the second has settled, with at most one change behind its own base
  have hcar : c'.take b' <+: c := hc.carries hs hwf hel hc'.settled hc'.lastTerm_lt
  have hcw : R.WellFormed c := wellFormed_of_matched hwf hc.matched
  have hmeet := hcw.meet_take hbb ((changeCount_mono ((take_sublist _ _).drop b)).trans hc.single)
  rw [(take_eq_of_kept hc'.le hcar).2] at hmeet
  exact hmeet Q Q' hc.quorum (Nat.lt_of_lt_of_le hc'.quorum (Nat.le_add_right ..))

/-- **Two winners of one term share a voter.** -/
theorem Contest.common_voter {c' : List E} {b' : Nat} {Q' : Finset N}
    (hc' : R.Contest H T c' b' Q') : ∃ n, n ∈ Q ∧ n ∈ Q' := by
  rcases Nat.le_total b b' with hle | hle
  · exact hc.common_voter_of_le hs hwf hel hc' hle
  · obtain ⟨n, hn', hn⟩ := hc'.common_voter_of_le hs hwf hel hc hle
    exact ⟨n, hn, hn'⟩

end Carry

end Rules

end Settled

end BicDb.Foundation
