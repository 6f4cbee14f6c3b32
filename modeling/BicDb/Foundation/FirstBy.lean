import Mathlib.Data.List.Nodup

/-!
# First occurrences

`firstBy key xs` keeps, for every key, the first element that has it.
-/

namespace BicDb.Foundation

open List

variable {α κ : Type*} [DecidableEq κ] (key : α → κ)

/-- Add an element unless its key is there. -/
def addFirst (xs : List α) (x : α) : List α :=
  if xs.any (fun y => decide (key y = key x)) then xs else xs ++ [x]

/-- The first element of each key, in order. -/
def firstBy (xs : List α) : List α := xs.foldl (addFirst key) []

variable {key}

variable {xs : List α}

theorem addFirst_of_mem {x y : α} (hy : y ∈ xs) (h : key y = key x) :
    addFirst key xs x = xs :=
  if_pos (any_eq_true.2 ⟨y, hy, by simpa using h⟩)

theorem addFirst_of_new {x : α} (h : ∀ y ∈ xs, key y ≠ key x) :
    addFirst key xs x = xs ++ [x] := by
  refine if_neg fun hany => ?_
  obtain ⟨y, hy, heq⟩ := any_eq_true.1 hany
  exact h y hy (by simpa using heq)

theorem firstBy_append_singleton (xs : List α) (x : α) :
    firstBy key (xs ++ [x]) = addFirst key (firstBy key xs) x := by
  simp [firstBy]

theorem prefix_foldl_addFirst (more xs : List α) : xs <+: more.foldl (addFirst key) xs := by
  induction more generalizing xs with
  | nil => exact prefix_refl _
  | cons x more ih =>
    refine List.IsPrefix.trans ?_ (ih _)
    unfold addFirst
    split
    · exact prefix_refl _
    · exact prefix_append _ _

theorem prefix_firstBy {ys : List α} (h : xs <+: ys) : firstBy key xs <+: firstBy key ys := by
  obtain ⟨zs, rfl⟩ := h
  rw [firstBy, firstBy, foldl_append]
  exact prefix_foldl_addFirst zs _

theorem nodup_addFirst (h : (xs.map key).Nodup) (x : α) :
    ((addFirst key xs x).map key).Nodup := by
  unfold addFirst
  split_ifs with hnew
  · exact h
  rw [map_append, map_singleton, nodup_append]
  refine ⟨h, by simp, ?_⟩
  intro k hk k' hk' heq
  obtain ⟨y, hy, rfl⟩ := mem_map.1 hk
  rw [mem_singleton] at hk'
  exact hnew (any_eq_true.2 ⟨y, hy, by simp [heq, hk']⟩)

theorem nodup_firstBy (xs : List α) : ((firstBy key xs).map key).Nodup := by
  have hfold : ∀ acc : List α, (acc.map key).Nodup →
      ((xs.foldl (addFirst key) acc).map key).Nodup := by
    induction xs with
    | nil => exact fun acc h => h
    | cons x xs ih => exact fun acc h => ih _ (nodup_addFirst h x)
  exact hfold [] (by simp)

end BicDb.Foundation
