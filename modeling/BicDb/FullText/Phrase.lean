import BicDb.FullText.Query
import Mathlib.Algebra.Order.Ring.Int
import Mathlib.Data.Set.Finite.Lattice
import Mathlib.Order.Interval.Set.Infinite

/-!
# Phrases as position sets

A part of a phrase stands for a width and a set of integers, the positions where it ends.
`phrase_match` keeps such a set, or its complement, as a list of 16-bit positions with a sign. The
two agree as long as no position is shifted out of the 16 bits and no part that fails leaves a wrong
width behind (`Harmless`).

The main result, `phrase_match_exact`, is an equivalence: the code computes the reference at every
part of a query exactly if every part is harmless. `failed_alternative_leaves_width` is a query
with a part that is not.
-/

namespace BicDb.FullText

open List

/-! ## The reference -/

/-- Where matches of a phrase end, and how many positions they span. -/
structure Ends where
  width : ℕ
  ends : Set ℤ

/-- The positions that lie `offset` further. -/
def shift (offset : ℕ) (ends : Set ℤ) : Set ℤ := {p | p - offset ∈ ends}

/-- Positions as integers. -/
def positionSet (positions : List ℕ) : Set ℤ := {p | ∃ n ∈ positions, (n : ℤ) = p}

open Classical in
/-- An alternative without a match has no width. -/
noncomputable def Ends.contributed (e : Ends) : ℕ := if e.ends.Nonempty then e.width else 0

/-- What a query means as a phrase: the ends of its matches. -/
noncomputable def denote (vector : PgTsVector) : PgTsQueryNode → Ends
  | .operand operand => ⟨0, positionSet (operand.positions vector)⟩
  | .not child => ⟨(denote vector child).width, (denote vector child).endsᶜ⟩
  | .and left right =>
    let l := denote vector left
    let r := denote vector right
    let width := max l.width r.width
    ⟨width, shift (width - l.width) l.ends ∩ shift (width - r.width) r.ends⟩
  | .or left right =>
    let l := denote vector left
    let r := denote vector right
    let width := max l.contributed r.contributed
    ⟨width, shift (width - l.contributed) l.ends ∪ shift (width - r.contributed) r.ends⟩
  | .phrase left right distance =>
    let l := denote vector left
    let r := denote vector right
    ⟨distance + l.width + r.width, shift (distance + r.width) l.ends ∩ r.ends⟩

/-- A list of positions, or all the others. -/
def signed (negate : Bool) (ends : Set ℤ) : Set ℤ := if negate then endsᶜ else ends

/-- The ends that the data of a match stand for. -/
def PhraseData.ends (data : PhraseData) : Set ℤ := signed data.negate (positionSet data.positions)

/-- A result is that of the reference: no match for the empty set. -/
def Finds (result : QueryMatch × PhraseData) (e : Ends) : Prop :=
  (e.ends = ∅ ∧ result.1 = .no) ∨
    (e.ends.Nonempty ∧ result.1 = .yes ∧ result.2.width = e.width ∧ result.2.ends = e.ends)

/-- `phrase_match` computes the reference result. -/
def Computes (vector : PgTsVector) (query : PgTsQueryNode) : Prop :=
  Finds (phraseMatch vector query {}) (denote vector query)

/-- The set, or else its complement, has no position above the 16 bits. -/
def Fits (ends : Set ℤ) : Prop := (∀ p ∈ ends, p < 2 ^ 16) ∨ ∀ p ∉ ends, p < 2 ^ 16

open Classical in
/-- The width that a part leaves behind when it does not match; a part with two sides is given up
before its width is written. -/
noncomputable def leftover (vector : PgTsVector) : PgTsQueryNode → ℕ
  | .not child => (denote vector child).width
  | .and left right =>
    if (denote vector left).ends.Nonempty ∧ (denote vector right).ends.Nonempty then
      (denote vector (.and left right)).width
    else 0
  | .phrase left right distance =>
    if (denote vector left).ends.Nonempty ∧ (denote vector right).ends.Nonempty then
      (denote vector (.phrase left right distance)).width
    else 0
  | _ => 0

/-- An alternative that fails leaves no larger width behind than the other has. -/
def OrWidths (l r : Ends) (restl restr : ℕ) : Prop :=
  (l.ends = ∅ → r.ends.Nonempty → restl ≤ r.width) ∧
    (r.ends = ∅ → l.ends.Nonempty → restr ≤ l.width)

/-- The ends fit 16 bits, and no width left behind by a failed part counts. -/
def Harmless (vector : PgTsVector) (query : PgTsQueryNode) : Prop :=
  Fits (denote vector query).ends ∧
    match query with
    | .not child =>
      (denote vector child).ends = ∅ → leftover vector child = (denote vector child).width
    | .or left right =>
      OrWidths (denote vector left) (denote vector right) (leftover vector left)
        (leftover vector right)
    | _ => True

/-- A property of a query and of all its parts. -/
def PgTsQueryNode.Everywhere (P : PgTsQueryNode → Prop) : PgTsQueryNode → Prop
  | .operand word => P (.operand word)
  | .not child => P (.not child) ∧ child.Everywhere P
  | .and left right => P (.and left right) ∧ left.Everywhere P ∧ right.Everywhere P
  | .or left right => P (.or left right) ∧ left.Everywhere P ∧ right.Everywhere P
  | .phrase left right distance =>
    P (.phrase left right distance) ∧ left.Everywhere P ∧ right.Everywhere P

/-- The sum of the distances. -/
def PgTsQueryNode.distances : PgTsQueryNode → ℕ
  | .operand _ => 0
  | .not child => child.distances
  | .and left right | .or left right => left.distances + right.distances
  | .phrase left right distance => distance + left.distances + right.distances

/-! ## Lists of positions -/

theorem mem_shift {offset : ℕ} {ends : Set ℤ} {p : ℤ} : p ∈ shift offset ends ↔ p - offset ∈ ends :=
  Iff.rfl

@[simp]
theorem shift_zero (ends : Set ℤ) : shift 0 ends = ends := by
  ext p
  simp [mem_shift]

@[simp]
theorem shift_empty (offset : ℕ) : shift offset ∅ = ∅ := rfl

theorem shift_nonempty {offset : ℕ} {ends : Set ℤ} (h : ends.Nonempty) :
    (shift offset ends).Nonempty := by
  obtain ⟨p, hp⟩ := h
  exact ⟨p + offset, by simpa [mem_shift] using hp⟩

theorem shift_signed (offset : ℕ) (negate : Bool) (ends : Set ℤ) :
    shift offset (signed negate ends) = signed negate (shift offset ends) := by
  cases negate <;> rfl

theorem finite_positionSet (positions : List ℕ) : (positionSet positions).Finite := by
  apply (positions.finite_toSet.image fun n : ℕ => (n : ℤ)).subset
  rintro _ ⟨n, hn, rfl⟩
  exact ⟨n, hn, rfl⟩

theorem finite_shift {ends : Set ℤ} (h : ends.Finite) (offset : ℕ) : (shift offset ends).Finite :=
  h.preimage (sub_left_injective.injOn)

theorem exists_large_not_mem {ends : Set ℤ} (h : ends.Finite) : ∃ p ∉ ends, 2 ^ 16 ≤ p := by
  obtain ⟨p, hp, hnot⟩ := (Set.Ici_infinite (2 ^ 16 : ℤ)).exists_notMem_finite h
  exact ⟨p, hnot, hp⟩

theorem binarySearch_iff {values : List ℕ} (hsorted : values.Pairwise (· < ·)) (needle : ℕ) :
    binarySearch values needle = true ↔ needle ∈ values := by
  induction values with
  | nil => simp [binarySearch]
  | cons value values ih =>
    obtain ⟨hvalue, hvalues⟩ := pairwise_cons.1 hsorted
    have ih := ih hvalues
    simp only [binarySearch, partitionPoint, beq_iff_eq] at ih ⊢
    by_cases hlt : value < needle
    · rw [takeWhile_cons_of_pos (by simpa using hlt), length_cons, getElem?_cons_succ, ih, mem_cons]
      exact (or_iff_right hlt.ne').symm
    · -- the search stops at the first value, and the needle is no later one
      rw [takeWhile_cons_of_neg (by simpa using hlt), length_nil, getElem?_cons_zero, mem_cons,
        Option.some_inj, eq_comm]
      exact (or_iff_left fun hmem => hlt (hvalue needle hmem)).symm

theorem mem_sortDedup {positions : List ℕ} {n : ℕ} : n ∈ sortDedup positions ↔ n ∈ positions := by
  simp [sortDedup]

theorem sorted_sortDedup (positions : List ℕ) : (sortDedup positions).Pairwise (· < ·) := by
  have hle : (sortDedup positions).Pairwise (· ≤ ·) :=
    (pairwise_insertionSort (· ≤ ·) positions).sublist (dedup_sublist _)
  exact (hle.and (nodup_dedup _)).imp fun h => lt_of_le_of_ne h.1 h.2

theorem mem_shiftedPositions {positions : List ℕ} {offset n : ℕ} :
    n ∈ shiftedPositions positions offset ↔
      n < 2 ^ 16 ∧ ∃ m ∈ positions, m + offset = n := by
  simp only [shiftedPositions, mem_filterMap, Option.ite_none_right_eq_some, Option.some_inj]
  constructor
  · rintro ⟨m, hm, hlt, rfl⟩
    exact ⟨hlt, m, hm, rfl⟩
  · rintro ⟨hlt, m, hm, rfl⟩
    exact ⟨m, hm, hlt, rfl⟩

theorem sorted_shiftedPositions {positions : List ℕ} (h : positions.Pairwise (· < ·))
    (offset : ℕ) : (shiftedPositions positions offset).Pairwise (· < ·) := by
  refine h.filterMap _ fun a b hab a' ha b' hb => ?_
  simp only [Option.ite_none_right_eq_some, Option.some_inj] at ha hb
  omega

/-- What is shifted out of the 16 bits is dropped. -/
theorem positionSet_shifted (positions : List ℕ) (offset : ℕ) :
    positionSet (shiftedPositions positions offset) =
      shift offset (positionSet positions) ∩ {p | p < 2 ^ 16} := by
  ext p
  simp only [positionSet, mem_shiftedPositions, mem_shift, Set.mem_inter_iff, Set.mem_ofPred_eq]
  constructor
  · rintro ⟨n, ⟨hlt, m, hm, rfl⟩, rfl⟩
    exact ⟨⟨m, hm, by omega⟩, by omega⟩
  · rintro ⟨⟨m, hm, hp⟩, hlt⟩
    exact ⟨m + offset, ⟨by omega, m, hm, rfl⟩, by omega⟩

theorem positionSet_union (left right : List ℕ) :
    positionSet (unionPositions left right) = positionSet left ∪ positionSet right := by
  ext p
  simp only [positionSet, unionPositions, mem_sortDedup, mem_append, Set.mem_union,
    Set.mem_ofPred_eq]
  grind

theorem positionSet_intersect (left : List ℕ) {right : List ℕ} (h : right.Pairwise (· < ·)) :
    positionSet (intersectPositions left right) = positionSet left ∩ positionSet right := by
  ext p
  simp only [positionSet, intersectPositions, mem_filter, binarySearch_iff h, Set.mem_inter_iff,
    Set.mem_ofPred_eq]
  grind

theorem positionSet_difference (left : List ℕ) {right : List ℕ} (h : right.Pairwise (· < ·)) :
    positionSet (differencePositions left right) = positionSet left \ positionSet right := by
  ext p
  simp only [positionSet, differencePositions, mem_filter, Bool.not_eq_true', Set.mem_sdiff,
    ← Bool.not_eq_true, binarySearch_iff h, Set.mem_ofPred_eq]
  grind

/-! ## Signed lists -/

/-- A signed list stands for `ends`, but for the positions above the 16 bits. -/
def CutOf (result : List ℕ × Bool) (ends : Set ℤ) : Prop :=
  result.1.Pairwise (· < ·) ∧ ∃ all : Set ℤ, all.Finite ∧
    positionSet result.1 = all ∩ {p | p < 2 ^ 16} ∧ ends = signed result.2 all

theorem fits_signed {negate : Bool} {ends : Set ℤ} (h : ∀ p ∈ ends, p < 2 ^ 16) :
    Fits (signed negate ends) := by
  cases negate
  · exact .inl h
  · exact .inr fun p hp => h p (not_not.1 hp)

theorem signed_nonempty_iff (negate : Bool) (positions : List ℕ) :
    (signed negate (positionSet positions)).Nonempty ↔ (negate || !positions.isEmpty) = true := by
  cases negate with
  | true =>
    obtain ⟨p, hp, -⟩ := exists_large_not_mem (finite_positionSet positions)
    exact iff_of_true ⟨p, hp⟩ rfl
  | false => cases positions <;> simp [signed, positionSet, Set.Nonempty]

section Signed

variable {left right : List ℕ} {leftNegate rightNegate : Bool} {l r ends : Set ℤ}
  {result : List ℕ × Bool}

theorem CutOf.small (h : CutOf result ends) : ∀ p ∈ positionSet result.1, p < 2 ^ 16 := by
  obtain ⟨-, all, -, hcut, -⟩ := h
  exact fun p hp => (hcut ▸ hp).2

/-- The list is exact where there was nothing to drop. -/
theorem CutOf.exact_iff (h : CutOf result ends) :
    signed result.2 (positionSet result.1) = ends ↔ Fits ends := by
  constructor
  · rintro rfl
    exact fits_signed h.small
  · intro hfits
    obtain ⟨-, all, hfinite, hcut, rfl⟩ := h
    obtain ⟨large, hlarge, hle⟩ := exists_large_not_mem hfinite
    -- a finite set that fits has no large position: of its complement some do not fit
    have hsmall : all ⊆ {p | p < 2 ^ 16} := by
      rcases result with ⟨_, _ | _⟩ <;> rcases hfits with hfits | hfits
      · exact hfits
      · exact absurd (hfits large hlarge) (not_lt.2 hle)
      · exact absurd (hfits large hlarge) (not_lt.2 hle)
      · exact fun p hp => hfits p (not_not.2 hp)
    rw [hcut, Set.inter_eq_left.2 hsmall]

theorem CutOf.compl (h : CutOf result ends) : CutOf (result.1, !result.2) endsᶜ := by
  obtain ⟨hsorted, all, hfinite, hcut, rfl⟩ := h
  refine ⟨hsorted, all, hfinite, hcut, ?_⟩
  cases result.2 <;> simp [signed]

theorem CutOf.meet (hleft : CutOf (left, leftNegate) l) (hright : CutOf (right, rightNegate) r) :
    CutOf (meetPositions leftNegate rightNegate false left right) (l ∩ r) := by
  obtain ⟨hleft, l, hl, hcutl, rfl⟩ := hleft
  obtain ⟨hright, r, hr, hcutr, rfl⟩ := hright
  have hdiff : ∀ a b c : Set ℤ, (a ∩ c) \ (b ∩ c) = (a \ b) ∩ c := by
    intro a b c
    ext p
    simp only [Set.mem_sdiff, Set.mem_inter_iff]
    tauto
  rcases leftNegate with _ | _ <;> rcases rightNegate with _ | _
  · refine ⟨hleft.filter _, l ∩ r, hl.inter_of_left r, ?_, rfl⟩
    rw [meetPositions, positionSet_intersect _ hright, hcutl, hcutr,
      ← Set.inter_inter_distrib_right]
  · refine ⟨hleft.filter _, l \ r, hl.sdiff, ?_, rfl⟩
    rw [meetPositions, positionSet_difference _ hright, hcutl, hcutr, hdiff]
  · refine ⟨hright.filter _, r \ l, hr.sdiff, ?_, Set.inter_comm _ _⟩
    rw [meetPositions, positionSet_difference _ hleft, hcutl, hcutr, hdiff]
  · refine ⟨sorted_sortDedup _, l ∪ r, hl.union hr, ?_, (Set.compl_union l r).symm⟩
    rw [meetPositions, positionSet_union, hcutl, hcutr, Set.union_inter_distrib_right]

/-- An `Or` is the complement of an `And` of complements, in the code as well. -/
theorem CutOf.join (hleft : CutOf (left, leftNegate) l) (hright : CutOf (right, rightNegate) r) :
    CutOf (joinPositions leftNegate rightNegate false left right) (l ∪ r) := by
  have h := (hleft.compl.meet hright.compl).compl
  rw [Set.compl_inter, compl_compl, compl_compl] at h
  rcases leftNegate with _ | _ <;> rcases rightNegate with _ | _ <;> exact h

end Signed

/-! ## One part of a query -/

/-- A result that agrees with the reference. A part that does not match leaves the width `rest`. -/
structure Agrees (result : QueryMatch × PhraseData) (e : Ends) (rest : ℕ) : Prop where
  sorted : result.2.positions.Pairwise (· < ·)
  small : ∀ p ∈ positionSet result.2.positions, p < 2 ^ 16
  ends : result.2.ends = e.ends
  no : e.ends = ∅ → result.1 = .no ∧ result.2.width = rest
  yes : e.ends.Nonempty → result.1 = .yes ∧ result.2.width = e.width

section Parts

variable {left right result : QueryMatch × PhraseData} {l r e : Ends} {restl restr rest : ℕ}

theorem agrees_no (h : e.ends = ∅) : Agrees (.no, { width := rest }) e rest where
  sorted := .nil
  small := by simp [positionSet]
  ends := by simp [PhraseData.ends, signed, positionSet, h]
  no _ := ⟨rfl, rfl⟩
  yes hsome := absurd h hsome.ne_empty

theorem agrees_yes {positions : List ℕ} {negate : Bool} {width : ℕ} (hsome : e.ends.Nonempty)
    (hsorted : positions.Pairwise (· < ·)) (hsmall : ∀ p ∈ positionSet positions, p < 2 ^ 16)
    (hends : signed negate (positionSet positions) = e.ends) (hwidth : width = e.width) :
    Agrees (.yes, ⟨positions, negate, width⟩) e rest :=
  ⟨hsorted, hsmall, hends, fun hempty => absurd hempty hsome.ne_empty, fun _ => ⟨rfl, hwidth⟩⟩

theorem Agrees.finds (h : Agrees result e rest) : Finds result e := by
  rcases e.ends.eq_empty_or_nonempty with hempty | hsome
  · exact .inl ⟨hempty, (h.no hempty).1⟩
  · exact .inr ⟨hsome, (h.yes hsome).1, (h.yes hsome).2, h.ends⟩

theorem Agrees.fits (h : Agrees result e rest) : Fits e.ends := h.ends ▸ fits_signed h.small

theorem Agrees.shifted (h : Agrees result e rest) (offset : ℕ) :
    CutOf (shiftedPositions result.2.positions offset, result.2.negate) (shift offset e.ends) :=
  ⟨sorted_shiftedPositions h.sorted offset, _, finite_shift (finite_positionSet _) offset,
    positionSet_shifted _ _, by rw [← h.ends, PhraseData.ends, shift_signed]⟩

variable (hleft : Agrees left l restl) (hright : Agrees right r restr)

include hleft hright

/-- `phrase_binary` agrees with the reference where the result fits, and only there. -/
theorem phraseBinary_agrees {distance : Option ℕ}
    (hwidth : phraseWidth distance l.width r.width = e.width)
    (hends : e.ends = shift (phraseOffsets distance l.width r.width).1 l.ends ∩
      shift (phraseOffsets distance l.width r.width).2 r.ends)
    (hboth : l.ends.Nonempty ∧ r.ends.Nonempty → rest = e.width)
    (hrest : ¬(l.ends.Nonempty ∧ r.ends.Nonempty) → rest = 0) :
    (Fits e.ends → Agrees (phraseBinary left right distance {}) e rest) ∧
      (Finds (phraseBinary left right distance {}) e → Fits e.ends) := by
  by_cases hmatch : l.ends.Nonempty ∧ r.ends.Nonempty
  · obtain ⟨hlyes, hlwidth⟩ := hleft.yes hmatch.1
    obtain ⟨hryes, hrwidth⟩ := hright.yes hmatch.2
    have hcut := (hleft.shifted (phraseOffsets distance l.width r.width).1).meet
      (hright.shifted (phraseOffsets distance l.width r.width).2)
    rw [← hends] at hcut
    simp only [phraseBinary, hlyes, hryes, hlwidth, hrwidth, hwidth, reduceCtorEq,
      or_self, if_false]
    generalize meetPositions _ _ _ _ _ = met at hcut
    obtain ⟨positions, negate⟩ := met
    constructor
    · intro hfits
      have hexact := hcut.exact_iff.2 hfits
      have hsome := hexact ▸ signed_nonempty_iff negate positions
      refine ⟨hcut.1, hcut.small, hexact, fun hempty => ⟨if_neg ?_, (hboth hmatch).symm⟩,
        fun hne => ⟨if_pos (hsome.1 hne), rfl⟩⟩
      rw [← hsome, hempty]
      exact Set.not_nonempty_empty
    · rintro (⟨hempty, -⟩ | ⟨-, -, -, hexact⟩)
      · exact .inl (by simp [hempty])
      · exact hcut.exact_iff.1 hexact
  · -- one side does not match, and the output stays as it was
    have hside : l.ends = ∅ ∨ r.ends = ∅ := by
      simpa [Set.not_nonempty_iff_eq_empty, imp_iff_not_or] using hmatch
    have hempty : e.ends = ∅ := by
      rcases hside with h | h <;> simp [hends, h]
    have hno : left.1 = .no ∨ right.1 = .no :=
      hside.imp (fun h => (hleft.no h).1) fun h => (hright.no h).1
    refine ⟨fun _ => ?_, fun _ => .inl (by simp [hempty])⟩
    simp only [phraseBinary, hno, if_true, hrest hmatch]
    exact agrees_no hempty

theorem phraseOr_width (hsome : l.ends.Nonempty ∨ r.ends.Nonempty) :
    (max left.2.width right.2.width = max l.contributed r.contributed ↔
      OrWidths l r restl restr) ∧
    (max left.2.width right.2.width = max l.contributed r.contributed →
      shift (max left.2.width right.2.width - left.2.width) l.ends ∪
        shift (max left.2.width right.2.width - right.2.width) r.ends =
      shift (max l.contributed r.contributed - l.contributed) l.ends ∪
        shift (max l.contributed r.contributed - r.contributed) r.ends) := by
  rcases l.ends.eq_empty_or_nonempty with hl | hl <;>
    rcases r.ends.eq_empty_or_nonempty with hr | hr
  · simp [hl, hr] at hsome
  · simp [OrWidths, Ends.contributed, hl, hr, hr.ne_empty, (hleft.no hl).2, (hright.yes hr).2]
    intro h
    simp [h]
  · simp [OrWidths, Ends.contributed, hl, hr, hl.ne_empty, (hleft.yes hl).2, (hright.no hr).2]
    intro h
    simp [h]
  · simp [OrWidths, Ends.contributed, hl, hr, hl.ne_empty, hr.ne_empty, (hleft.yes hl).2,
      (hright.yes hr).2]

theorem phraseOr_agrees (hwidth : e.width = max l.contributed r.contributed)
    (hends : e.ends = shift (max l.contributed r.contributed - l.contributed) l.ends ∪
      shift (max l.contributed r.contributed - r.contributed) r.ends) :
    (Fits e.ends ∧ OrWidths l r restl restr → Agrees (phraseOr left right {}) e 0) ∧
      (Finds (phraseOr left right {}) e → Fits e.ends ∧ OrWidths l r restl restr) := by
  by_cases hsome : l.ends.Nonempty ∨ r.ends.Nonempty
  · obtain ⟨hcond, hset⟩ := phraseOr_width hleft hright hsome
    have hne : e.ends.Nonempty := by
      rw [hends]
      exact hsome.elim (fun h => (shift_nonempty h).inl) fun h => (shift_nonempty h).inr
    have hcut := (hleft.shifted (max left.2.width right.2.width - left.2.width)).join
      (hright.shifted (max left.2.width right.2.width - right.2.width))
    have hyes : ¬(left.1 = .maybe ∨ right.1 = .maybe) ∧ ¬(left.1 = .no ∧ right.1 = .no) := by
      rcases hleft.finds with ⟨hl, hleft⟩ | ⟨-, hleft, -⟩ <;>
        rcases hright.finds with ⟨hr, hright⟩ | ⟨-, hright, -⟩ <;> simp_all
    simp only [phraseOr, hyes.1, hyes.2, if_false]
    generalize joinPositions _ _ _ _ _ = joined at hcut
    constructor
    · rintro ⟨hfits, hsides⟩
      have hsame := hcond.2 hsides
      rw [hset hsame, ← hends] at hcut
      exact agrees_yes hne hcut.1 hcut.small (hcut.exact_iff.2 hfits) (hsame.trans hwidth.symm)
    · rintro (⟨hempty, -⟩ | ⟨-, -, hsame, hexact⟩)
      · exact absurd hempty hne.ne_empty
      · have hsame := hsame.trans hwidth
        rw [hset hsame, ← hends] at hcut
        exact ⟨hcut.exact_iff.1 hexact, hcond.1 hsame⟩
  · simp only [not_or, Set.not_nonempty_iff_eq_empty] at hsome
    have hempty : e.ends = ∅ := by simp [hends, hsome]
    have hresult : phraseOr left right {} = (.no, {}) := by
      simp [phraseOr, (hleft.no hsome.1).1, (hright.no hsome.2).1]
    rw [hresult]
    exact ⟨fun _ => agrees_no hempty, fun _ => ⟨.inl (by simp [hempty]), by simp [OrWidths, hsome]⟩⟩

end Parts

section Queries

variable {vector : PgTsVector}

theorem not_agrees {child : PgTsQueryNode} {e : Ends} {rest : ℕ}
    (h : Agrees (phraseMatch vector child {}) e rest) :
    ((e.ends = ∅ → rest = e.width) →
        Agrees (phraseMatch vector (.not child) {}) ⟨e.width, e.endsᶜ⟩ e.width) ∧
      (Finds (phraseMatch vector (.not child) {}) ⟨e.width, e.endsᶜ⟩ →
        e.ends = ∅ → rest = e.width) := by
  rw [phraseMatch]
  generalize phraseMatch vector child {} = result at h
  obtain ⟨found, positions, negate, width⟩ := result
  have hends : signed negate (positionSet positions) = e.ends := h.ends
  have hsome := hends ▸ signed_nonempty_iff negate positions
  have hflip : signed (!negate) (positionSet positions) = e.endsᶜ := by
    rw [← hends]
    cases negate <;> simp [signed]
  rcases e.ends.eq_empty_or_nonempty with hempty | hne
  · -- no match: everything matches, with the width that was left behind
    obtain ⟨hno, hrest⟩ := h.no hempty
    obtain ⟨rfl, hpositions⟩ : negate = false ∧ positions = [] := by
      simpa [hempty] using hsome
    obtain rfl : found = .no := hno
    have hfull : e.endsᶜ.Nonempty := by simp [hempty]
    refine ⟨fun hwidth => ?_, ?_⟩
    · exact agrees_yes hfull h.sorted h.small hflip (hrest.trans (hwidth hempty))
    · rintro (⟨hnone, -⟩ | ⟨-, -, hwidth, -⟩) _
      · exact absurd hnone hfull.ne_empty
      · exact hrest.symm.trans hwidth
  · obtain ⟨hyes, hwidth⟩ := h.yes hne
    obtain rfl : found = .yes := hyes
    obtain rfl : width = e.width := hwidth
    refine ⟨fun _ => ?_, fun _ hempty => absurd hempty hne.ne_empty⟩
    have hnonempty := hflip ▸ signed_nonempty_iff (!negate) positions
    cases hlist : positions.isEmpty with
    | true =>
      -- everything matched, and now nothing does
      obtain rfl : positions = [] := List.isEmpty_iff.1 hlist
      obtain rfl : negate = true := by simpa using hsome.1 hne
      exact agrees_no (by simpa [signed, positionSet] using hflip.symm)
    | false =>
      simp only [hlist, Bool.not_false, if_true]
      exact agrees_yes (hnonempty.2 (by simp [hlist])) h.sorted h.small hflip rfl

theorem operand_agrees (hvector : ∀ lexeme ∈ vector.lexemes, lexeme.positions ≠ [])
    (operand : PgTsQueryOperand) :
    Agrees (phraseMatch vector (.operand operand) {}) (denote vector (.operand operand)) 0 := by
  have hmissing : operand.missingPositions vector = false := by
    simp only [PgTsQueryOperand.missingPositions, any_eq_false, List.isEmpty_iff]
    exact fun lexeme hlexeme => hvector lexeme (mem_filter.1 hlexeme).1
  have hset : positionSet (sortDedup (operand.positions vector)) =
      positionSet (operand.positions vector) := by
    simp [positionSet, mem_sortDedup]
  have hsmall : ∀ p ∈ positionSet (operand.positions vector), p < 2 ^ 16 := by
    rintro _ ⟨n, hn, rfl⟩
    obtain ⟨lexeme, -, hn⟩ := mem_flatMap.1 hn
    obtain ⟨position, -, rfl⟩ := mem_map.1 hn
    exact_mod_cast position.position.isLt
  have hsome := hset ▸ signed_nonempty_iff false (sortDedup (operand.positions vector))
  simp only [phraseMatch, operandPhraseMatch, hmissing, Bool.false_eq_true, if_false, denote]
  cases hlist : (sortDedup (operand.positions vector)).isEmpty with
  | true =>
    apply agrees_no
    rw [← Set.not_nonempty_iff_eq_empty]
    simpa [hlist, signed] using hsome.not
  | false =>
    exact agrees_yes (hsome.2 (by simp [hlist])) (sorted_sortDedup _) (hset ▸ hsmall) hset rfl

/-! ## Whole queries -/

theorem denote_width_le (query : PgTsQueryNode) :
    (denote vector query).width ≤ query.distances := by
  have hcontributed : ∀ e : Ends, e.contributed ≤ e.width := by
    intro e
    unfold Ends.contributed
    split_ifs <;> omega
  induction query with
  | operand => exact le_rfl
  | not child ih => exact ih
  | and left right ihl ihr =>
    simp only [denote, PgTsQueryNode.distances]
    omega
  | or left right ihl ihr =>
    have hl := hcontributed (denote vector left)
    have hr := hcontributed (denote vector right)
    simp only [denote, PgTsQueryNode.distances]
    omega
  | phrase left right distance ihl ihr =>
    simp only [denote, PgTsQueryNode.distances]
    omega

theorem saturatingAdd_eq {a b : ℕ} (h : a + b < 2 ^ 16) : saturatingAdd a b = a + b :=
  min_eq_left (by omega)

/-- A node whose parts agree, and its own condition. -/
theorem agrees_node {node : PgTsQueryNode} {parts : Prop} (h : parts → (Harmless vector node →
    Agrees (phraseMatch vector node {}) (denote vector node) (leftover vector node)) ∧
      (Computes vector node → Harmless vector node)) :
    (Computes vector node ∧ parts ↔ Harmless vector node ∧ parts) ∧
      (Harmless vector node ∧ parts →
        Agrees (phraseMatch vector node {}) (denote vector node) (leftover vector node)) := by
  refine ⟨and_congr_left fun hparts => ⟨(h hparts).2, fun hnode => ?_⟩, fun hnode => ?_⟩
  · exact ((h hparts).1 hnode).finds
  · exact (h hnode.2).1 hnode.1

/-- Part by part: where every part is harmless, every result is right, and what a part leaves behind
is known. -/
theorem everywhere_computes (hvector : ∀ lexeme ∈ vector.lexemes, lexeme.positions ≠ [])
    (query : PgTsQueryNode) (hdistances : query.distances < 2 ^ 16) :
    (query.Everywhere (Computes vector) ↔ query.Everywhere (Harmless vector)) ∧
      (query.Everywhere (Harmless vector) →
        Agrees (phraseMatch vector query {}) (denote vector query) (leftover vector query)) := by
  induction query with
  | operand operand =>
    have hagrees := operand_agrees hvector operand
    exact ⟨iff_of_true hagrees.finds ⟨hagrees.fits, trivial⟩, fun _ => hagrees⟩
  | not child ih =>
    obtain ⟨hiff, hchild⟩ := ih hdistances
    simp only [PgTsQueryNode.Everywhere, hiff]
    apply agrees_node
    intro hparts
    obtain ⟨hagrees, hfinds⟩ := not_agrees (hchild hparts)
    exact ⟨fun h => hagrees h.2, fun h => ⟨(hagrees (hfinds h)).fits, hfinds h⟩⟩
  | and left right ihl ihr =>
    simp only [PgTsQueryNode.distances] at hdistances
    obtain ⟨hliff, hleft⟩ := ihl (by omega)
    obtain ⟨hriff, hright⟩ := ihr (by omega)
    simp only [PgTsQueryNode.Everywhere, hliff, hriff]
    apply agrees_node
    rintro ⟨hl, hr⟩
    obtain ⟨hagrees, hfinds⟩ := @phraseBinary_agrees _ _ _ _ (denote vector (.and left right)) _ _
      (leftover vector (.and left right)) (hleft hl) (hright hr) none rfl rfl
      (fun h => if_pos h) fun h => if_neg h
    exact ⟨fun h => hagrees h.1, fun h => ⟨hfinds h, trivial⟩⟩
  | or left right ihl ihr =>
    simp only [PgTsQueryNode.distances] at hdistances
    obtain ⟨hliff, hleft⟩ := ihl (by omega)
    obtain ⟨hriff, hright⟩ := ihr (by omega)
    simp only [PgTsQueryNode.Everywhere, hliff, hriff]
    apply agrees_node
    rintro ⟨hl, hr⟩
    exact @phraseOr_agrees _ _ _ _ (denote vector (.or left right)) _ _ (hleft hl)
      (hright hr) rfl rfl
  | phrase left right distance ihl ihr =>
    simp only [PgTsQueryNode.distances] at hdistances
    obtain ⟨hliff, hleft⟩ := ihl (by omega)
    obtain ⟨hriff, hright⟩ := ihr (by omega)
    simp only [PgTsQueryNode.Everywhere, hliff, hriff]
    apply agrees_node
    rintro ⟨hl, hr⟩
    have hlwidth := @denote_width_le vector left
    have hrwidth := @denote_width_le vector right
    have hwidth : phraseWidth (some distance) (denote vector left).width
        (denote vector right).width = (denote vector (.phrase left right distance)).width := by
      rw [phraseWidth, @saturatingAdd_eq distance _ (by omega), saturatingAdd_eq (by omega)]
      rfl
    have hends : (denote vector (.phrase left right distance)).ends =
        shift (phraseOffsets (some distance) (denote vector left).width
          (denote vector right).width).1 (denote vector left).ends ∩
        shift 0 (denote vector right).ends := by
      rw [phraseOffsets, saturatingAdd_eq (by omega), shift_zero]
      rfl
    obtain ⟨hagrees, hfinds⟩ := @phraseBinary_agrees _ _ _ _ _ _ _
      (leftover vector (.phrase left right distance)) (hleft hl) (hright hr) (some distance) hwidth
      hends (fun h => if_pos h) fun h => if_neg h
    exact ⟨fun h => hagrees h.1, fun h => ⟨hfinds h, trivial⟩⟩

end Queries

open Classical in
/-- What a reference result is worth: nothing where there is no match. -/
noncomputable def Ends.result (e : Ends) : Option Ends := if e.ends.Nonempty then some e else none

/-- **Phrase matching is position-set algebra** where every part of the query is harmless, and only
there; and the reference keeps the laws of `And`, `Or` and `Not`. -/
theorem phrase_match_exact {vector : PgTsVector}
    (hvector : ∀ lexeme ∈ vector.lexemes, lexeme.positions ≠ []) {query : PgTsQueryNode}
    (hdistances : query.distances < 2 ^ 16) :
    (query.Everywhere (Computes vector) ↔ query.Everywhere (Harmless vector)) ∧
      ∀ left right, denote vector (.and left right) = denote vector (.and right left) ∧
        denote vector (.or left right) = denote vector (.or right left) ∧
        denote vector (.not (.not left)) = denote vector left ∧
        ((denote vector left).ends = ∅ →
          (denote vector (.or left right)).result = (denote vector right).result) := by
  refine ⟨(everywhere_computes hvector query hdistances).1, fun left right => ⟨?_, ?_, ?_, ?_⟩⟩
  · simp only [denote, max_comm, Set.inter_comm]
  · simp only [denote, max_comm, Set.union_comm]
  · simp only [denote, compl_compl]
  · intro hempty
    rcases (denote vector right).ends.eq_empty_or_nonempty with hnone | hsome
    · simp [denote, Ends.result, hempty, hnone]
    · simp [denote, Ends.result, Ends.contributed, hempty, hsome]

/-- The words `a` and `c` at position 1, `d` at 2 and `b` at 5. -/
def sampleVector : PgTsVector :=
  ⟨[⟨[97], [⟨1, .D⟩]⟩, ⟨[98], [⟨5, .D⟩]⟩, ⟨[99], [⟨1, .D⟩]⟩, ⟨[100], [⟨2, .D⟩]⟩]⟩

def sampleWord (byte : UInt8) : PgTsQueryNode := .operand ⟨[byte], 0, false⟩

theorem denote_sampleWord {byte : UInt8} {position : ℕ}
    (h : PgTsQueryOperand.positions ⟨[byte], 0, false⟩ sampleVector = [position]) :
    denote sampleVector (sampleWord byte) = ⟨0, {(position : ℤ)}⟩ := by
  simp [sampleWord, denote, positionSet, h, eq_comm]

/-- The query `(a & !b | c) <-> d`, which matches at position 2. -/
theorem phrase_match_exact_sample :
    (PgTsQueryNode.phrase (.or (.and (sampleWord 97) (.not (sampleWord 98))) (sampleWord 99))
      (sampleWord 100) 1).Everywhere (Computes sampleVector) := by
  apply (@phrase_match_exact sampleVector (by decide) _ (by decide)).1.2
  have ha := @denote_sampleWord 97 1 (by decide)
  have hb := @denote_sampleWord 98 5 (by decide)
  have hc := @denote_sampleWord 99 1 (by decide)
  have hd := @denote_sampleWord 100 2 (by decide)
  have hand : denote sampleVector (.and (sampleWord 97) (.not (sampleWord 98))) = ⟨0, {1}⟩ := by
    simp [denote, ha, hb, shift]
  have hor : denote sampleVector (.or (.and (sampleWord 97) (.not (sampleWord 98)))
      (sampleWord 99)) = ⟨0, {1}⟩ := by
    rw [denote, hand, hc]
    simp [Ends.contributed, shift]
  have hphrase : (denote sampleVector (.phrase (.or (.and (sampleWord 97)
      (.not (sampleWord 98))) (sampleWord 99)) (sampleWord 100) 1)).ends ⊆ {2} := by
    rw [denote, hd]
    exact Set.inter_subset_right
  have hfits : ∀ {n : ℤ} {ends : Set ℤ}, ends ⊆ {n} → n < 2 ^ 16 → Fits ends :=
    fun hsub hn => .inl fun p hp => (hsub hp).symm ▸ hn
  have hword : ∀ {byte : UInt8} {n : ℕ}, denote sampleVector (sampleWord byte) = ⟨0, {(n : ℤ)}⟩ →
      (n : ℤ) < 2 ^ 16 → (sampleWord byte).Everywhere (Harmless sampleVector) :=
    fun h hn => ⟨hfits (congrArg Ends.ends h).subset hn, trivial⟩
  -- no part is given up, so only the positions of each part are left to check
  refine ⟨⟨hfits hphrase (by decide), trivial⟩, ⟨⟨?_, ?_⟩, ⟨⟨?_, trivial⟩, hword ha (by decide),
    ⟨.inr ?_, ?_⟩, hword hb (by decide)⟩, hword hc (by decide)⟩, hword hd (by decide)⟩
  · exact hfits (congrArg Ends.ends hor).subset (by decide)
  · simp [OrWidths, hand, hc]
  · exact hfits (congrArg Ends.ends hand).subset (by decide)
  · simp [denote, hb]
  · simp [hb]

/-- The alternative `a <-> b` fails after its width has been written, and the `Or` aligns `c` with
it: `(a <-> b | c) <-> d` finds nothing, and the reference has a match at position 2. -/
theorem failed_alternative_leaves_width :
    ¬ Computes sampleVector (.phrase (.or (.phrase (sampleWord 97) (sampleWord 98) 1)
      (sampleWord 99)) (sampleWord 100) 1) := by
  have ha := @denote_sampleWord 97 1 (by decide)
  have hb := @denote_sampleWord 98 5 (by decide)
  have hc := @denote_sampleWord 99 1 (by decide)
  have hd := @denote_sampleWord 100 2 (by decide)
  have hfails : denote sampleVector (.phrase (sampleWord 97) (sampleWord 98) 1) = ⟨1, ∅⟩ := by
    simp [denote, ha, hb, shift]
  have hor : denote sampleVector (.or (.phrase (sampleWord 97) (sampleWord 98) 1)
      (sampleWord 99)) = ⟨0, {1}⟩ := by
    rw [denote, hfails, hc]
    simp [Ends.contributed, shift]
  rintro (⟨hempty, -⟩ | ⟨-, hyes, -⟩)
  · rw [denote, hor, hd] at hempty
    have : (2 : ℤ) ∈ (∅ : Set ℤ) := hempty ▸ by simp [shift]
    exact this
  · exact absurd hyes (by decide)

end BicDb.FullText
