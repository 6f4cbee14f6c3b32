import Mathlib.Data.List.TakeWhile
import Mathlib.Data.List.Sort

/-!
# Intersection of sorted document ids

The shorter posting list is walked and a cursor moves through the longer one. Before each move a few
ids are probed: on a hit the cursor walks, otherwise it gallops. Which probe runs depends on the
processor. An index outside a slice panics, so the slices are taken in `Option`.

## What this module delivers

* `intersectSortedDocumentIds_exact`: no slice is out of range, and the result is the common ids in
  order, with every probe and every buffer.
-/

namespace BicDb.FullText

open List

/-- The bodies of `simd_equal_at_or_after`: the portable one, four lanes, or two lanes. -/
inductive Probe where
  | portable
  | avx2
  | neon
  deriving DecidableEq, Repr

/-- `values[low..high]`. -/
def slice (values : List Nat) (low high : Nat) : Option (List Nat) :=
  if low ≤ high ∧ high ≤ values.length then some ((values.take high).drop low) else none

/-- `avx2_equal_at_or_after` and `neon_equal_at_or_after`; too few ids are searched one by one. -/
def lanesEqualAtOrAfter (lanes : Nat) (values : List Nat) (start : Nat) (needle : Nat) :
    Option Bool :=
  if values.length - start < lanes then
    (slice values start values.length).map (·.contains needle)
  else some (((values.drop start).take lanes).any (· == needle))

def simdEqualAtOrAfter : Probe → List Nat → Nat → Nat → Option Bool
  | .portable, values, start, needle =>
    some ((slice values start values.length).any fun tail =>
      (tail.take (min tail.length 4)).contains needle)
  | .avx2, values, start, needle => lanesEqualAtOrAfter 4 values start needle
  | .neon, values, start, needle => lanesEqualAtOrAfter 2 values start needle

/-- The doubling loop of `galloping_lower_bound`; the saturating product is the product. -/
def gallop (values : List Nat) (start : Nat) (needle : Nat) (step : Nat) (hstep : 0 < step) :
    Nat :=
  if h : step < values.length - start ∧ values[start + step]?.any (· < needle) then
    gallop values start needle (step * 2) (by omega)
  else step
termination_by values.length - start - step

/-- `partition_point` of a slice whose ids with `p` all come first. -/
def partitionPoint (p : Nat → Bool) (values : List Nat) : Nat :=
  (values.takeWhile p).length

/-- The first index from `start` on that is not below the needle. -/
def gallopingLowerBound (values : List Nat) (start : Nat) (needle : Nat) : Option Nat :=
  if !values[start]?.any (· < needle) then some start
  else
    let step := gallop values start needle 1 Nat.one_pos
    let low := start + step / 2 + 1
    let high := min (start + step + 1) values.length
    (slice values low high).map (low + partitionPoint (· < needle) ·)

/-- The loop over the needles, from a cursor into the haystack. -/
def intersectFrom (probe : Probe) (haystack : List Nat) :
    Nat → List Nat → List Nat → Option (List Nat)
  | _, [], intersection => some intersection
  | cursor, needle :: needles, intersection => do
    let hit ← simdEqualAtOrAfter probe haystack cursor needle
    let cursor ← if hit then
        some (cursor + partitionPoint (· < needle) (haystack.drop cursor))
      else gallopingLowerBound haystack cursor needle
    match haystack[cursor]? with
    | none => some intersection
    | some value =>
      if value = needle then
        intersectFrom probe haystack (cursor + 1) needles (intersection ++ [needle])
      else intersectFrom probe haystack cursor needles intersection

/-- The vector handed in is cleared first. -/
def intersectSortedDocumentIdsInto (probe : Probe) (left right _intersection : List Nat) :
    Option (List Nat) :=
  if left.length ≤ right.length then intersectFrom probe right 0 left []
  else intersectFrom probe left 0 right []

/-- The ids in both lists. -/
def intersectSortedDocumentIds (probe : Probe) (left right : List Nat) : Option (List Nat) :=
  intersectSortedDocumentIdsInto probe left right []

section Search

variable {lows highs : List Nat} {needle : Nat} (hlows : ∀ id ∈ lows, id < needle)
  (hhighs : ∀ id ∈ highs, needle ≤ id) (start : Nat)

include hlows hhighs

theorem any_lt_iff (i : Nat) : (lows ++ highs)[i]?.any (· < needle) = true ↔ i < lows.length := by
  by_cases hi : i < lows.length
  · simp [getElem?_append_left hi, hi, hlows]
  · rw [getElem?_append_right (not_lt.1 hi), iff_false_right hi, Option.any_eq_true]
    rintro ⟨id, hid, hlt⟩
    exact absurd (hhighs id (mem_of_getElem? hid)) (by simpa using hlt)

theorem partitionPoint_slice (low high : Nat) :
    partitionPoint (· < needle) (((lows ++ highs).take high).drop low) =
      min high lows.length - low := by
  have hrest : ((highs.take (high - lows.length)).drop (low - (lows.take high).length)).takeWhile
      (· < needle) = [] := by
    cases hlist : (highs.take (high - lows.length)).drop (low - (lows.take high).length) with
    | nil => rfl
    | cons id rest =>
      have hid : id ∈ highs := mem_of_mem_take (mem_of_mem_drop (hlist ▸ mem_cons_self))
      exact takeWhile_cons_of_neg (by simpa using hhighs id hid)
  rw [partitionPoint, take_append, drop_append, takeWhile_append_of_pos, hrest, append_nil,
    length_drop, length_take]
  exact fun id hid => by simpa using hlows id (mem_of_mem_take (mem_of_mem_drop hid))

/-- Half the final step was still below the needle, and the final step is not. -/
theorem gallop_spec (step : Nat) (hstep : 0 < step) (h : start + step / 2 < lows.length) :
    start + gallop (lows ++ highs) start needle step hstep / 2 < lows.length ∧
      lows.length ≤ start + gallop (lows ++ highs) start needle step hstep := by
  fun_induction gallop (lows ++ highs) start needle step hstep with
  | case1 step hstep hnext ih =>
    refine ih ?_
    rw [Nat.mul_div_cancel _ (by decide)]
    exact (any_lt_iff hlows hhighs _).1 hnext.2
  | case2 step hstep hstop =>
    refine ⟨h, not_lt.1 fun hlt => hstop ⟨?_, (any_lt_iff hlows hhighs _).2 hlt⟩⟩
    rw [length_append]
    omega

theorem gallopingLowerBound_eq :
    gallopingLowerBound (lows ++ highs) start needle = some (max start lows.length) := by
  rw [gallopingLowerBound]
  by_cases hstart : start < lows.length
  · obtain ⟨hlow, hhigh⟩ := gallop_spec hlows hhighs start 1 Nat.one_pos hstart
    simp only [(any_lt_iff hlows hhighs start).2 hstart, Bool.not_true,
      Bool.false_eq_true, if_false]
    rw [slice, if_pos (by rw [length_append]; omega), Option.map_some,
      partitionPoint_slice hlows hhighs, length_append]
    congr 1
    omega
  · rw [if_pos (by simpa using (any_lt_iff hlows hhighs start).not.2 hstart),
      max_eq_left (not_lt.1 hstart)]

end Search

variable {haystack : List Nat} {cursor : Nat}

theorem exists_split (needle : Nat) (hsorted : haystack.Pairwise (· < ·)) :
    ∃ lows highs, haystack = lows ++ highs ∧ (∀ id ∈ lows, id < needle) ∧
      ∀ id ∈ highs, needle ≤ id := by
  induction haystack with
  | nil => exact ⟨[], [], rfl, nofun, nofun⟩
  | cons id rest ih =>
    obtain ⟨hid, hrest⟩ := pairwise_cons.1 hsorted
    by_cases hlt : id < needle
    · obtain ⟨lows, highs, rfl, hlows, hhighs⟩ := ih hrest
      exact ⟨id :: lows, highs, rfl, forall_mem_cons.2 ⟨hlt, hlows⟩, hhighs⟩
    · have hle := not_lt.1 hlt
      exact ⟨[], id :: rest, rfl, nofun,
        forall_mem_cons.2 ⟨hle, fun x hx => hle.trans (hid x hx).le⟩⟩

/-- From any cursor the loop pushes the needles that stand at or behind it, whatever the probes
answer. -/
theorem intersectFrom_eq (probe : Probe) (hsorted : haystack.Pairwise (· < ·))
    {needles : List Nat} (hneedles : needles.Pairwise (· < ·)) (intersection : List Nat)
    (h : cursor ≤ haystack.length) :
    intersectFrom probe haystack cursor needles intersection =
      some (intersection ++ needles.filter (· ∈ haystack.drop cursor)) := by
  induction needles generalizing cursor intersection with
  | nil => simp [intersectFrom]
  | cons needle needles ih =>
    obtain ⟨hneedle, hneedles⟩ := pairwise_cons.1 hneedles
    obtain ⟨hit, hhit⟩ : ∃ hit, simdEqualAtOrAfter probe haystack cursor needle = some hit := by
      cases probe <;> simp only [simdEqualAtOrAfter, lanesEqualAtOrAfter] <;> (try split) <;>
        simp [slice, h]
    obtain ⟨lows, highs, rfl, hlows, hhighs⟩ := exists_split needle hsorted
    have hwalk : cursor + partitionPoint (· < needle) ((lows ++ highs).drop cursor) =
        max cursor lows.length := by
      have hpoint := partitionPoint_slice hlows hhighs cursor (lows ++ highs).length
      rw [take_length] at hpoint
      rw [hpoint, length_append]
      omega
    simp only [intersectFrom, hhit, gallopingLowerBound_eq hlows hhighs, hwalk, ite_self,
      Option.bind_eq_bind, Option.bind_some]
    -- no needle that is left is passed over
    have hfilter : (needle :: needles).filter (· ∈ (lows ++ highs).drop cursor) =
        (needle :: needles).filter (· ∈ (lows ++ highs).drop (max cursor lows.length)) := by
      refine filter_congr fun id hid => ?_
      have hle : needle ≤ id := (mem_cons.1 hid).elim ge_of_eq fun hid => (hneedle id hid).le
      have hnot : id ∉ lows.drop cursor := fun hid =>
        absurd (hlows id (mem_of_mem_drop hid)) (not_lt.2 hle)
      have hsub : max cursor lows.length - lows.length = cursor - lows.length := by omega
      simp [drop_append, hnot, hsub, drop_eq_nil_of_le]
    have hfirst := (any_lt_iff hlows hhighs (max cursor lows.length)).not.2
      (not_lt.2 (le_max_right _ _))
    rw [hfilter]
    generalize max cursor lows.length = next at hfirst
    generalize lows ++ highs = haystack at *
    cases hvalue : haystack[next]? with
    | none => simp [drop_eq_nil_of_le (List.getElem?_eq_none_iff.1 hvalue)]
    | some value =>
      obtain ⟨hnext, hat⟩ := List.getElem?_eq_some_iff.1 hvalue
      have hle : needle ≤ value := by simpa [hvalue] using hfirst
      have hcons : haystack.drop next = value :: haystack.drop (next + 1) :=
        hat ▸ drop_eq_getElem_cons hnext
      by_cases heq : value = needle
      · have hlater : needles.filter (· ∈ haystack.drop next) =
            needles.filter (· ∈ haystack.drop (next + 1)) := by
          refine filter_congr fun id hid => decide_eq_decide.2 ?_
          rw [hcons, mem_cons, or_iff_right (by have := hneedle id hid; omega)]
        simp only [heq, if_true]
        rw [ih hneedles _ hnext, filter_cons_of_pos (by simp [hcons, heq]), hlater, append_assoc,
          singleton_append]
      · have hskip : needle ∉ haystack.drop next := by
          have habove := (pairwise_cons.1 (hcons ▸ hsorted.drop)).1 needle
          rw [hcons, mem_cons, not_or]
          exact ⟨fun h => heq h.symm, fun hid => absurd (habove hid) (not_lt.2 hle)⟩
        simp only [heq, if_false]
        rw [ih hneedles _ hnext.le, filter_cons_of_neg (by simpa using hskip)]

/-- The intersection is the ascending list of the common ids, on every processor. -/
theorem intersectSortedDocumentIds_exact {left right : List Nat} (hleft : left.Pairwise (· < ·))
    (hright : right.Pairwise (· < ·)) :
    ∃ ids, (∀ probe reused, intersectSortedDocumentIds probe left right = some ids ∧
        intersectSortedDocumentIdsInto probe left right reused = some ids) ∧
      ids.Pairwise (· < ·) ∧ ∀ id, id ∈ ids ↔ id ∈ left ∧ id ∈ right := by
  by_cases hlen : left.length ≤ right.length
  · refine ⟨left.filter (· ∈ right), fun probe reused => ?_, hleft.filter _, fun id => by simp⟩
    simp [intersectSortedDocumentIds, intersectSortedDocumentIdsInto, hlen,
      intersectFrom_eq probe hright hleft]
  · refine ⟨right.filter (· ∈ left), fun probe reused => ?_, hright.filter _,
      fun id => by simp [and_comm]⟩
    simp [intersectSortedDocumentIds, intersectSortedDocumentIdsInto, hlen,
      intersectFrom_eq probe hleft hright]

/-- The last id lies behind the probed ones: the cursor gallops to it. -/
theorem intersectSortedDocumentIds_exact_gap :
    ∃ ids, (∀ probe, intersectSortedDocumentIds probe [2, 9] [1, 2, 3, 4, 5, 6, 7, 9] = some ids) ∧
      9 ∈ ids := by
  obtain ⟨ids, hids, -, hmem⟩ := @intersectSortedDocumentIds_exact [2, 9] [1, 2, 3, 4, 5, 6, 7, 9]
    (by decide) (by decide)
  exact ⟨ids, fun probe => (hids probe []).1, (hmem 9).2 (by decide)⟩

end BicDb.FullText
