import Mathlib.Data.List.AList

/-!
# Finite tables

Updates of association lists with distinct keys that Mathlib does not have.
-/

namespace BicDb.Foundation

open AList

universe u v

/-- A finite map. -/
abbrev Table (κ : Type u) (υ : Type v) := AList fun _ : κ => υ

namespace Table

variable {κ : Type u} {υ : Type v}

/-- Keep the entries that pass the test. -/
def retain (p : κ → υ → Bool) (t : Table κ υ) : Table κ υ :=
  ⟨t.entries.filter fun e => p e.1 e.2, t.nodupKeys.sublist List.filter_sublist⟩

/-- Change every value. -/
def mapValues (f : κ → υ → υ) (t : Table κ υ) : Table κ υ :=
  ⟨t.entries.map fun e => ⟨e.1, f e.1 e.2⟩, by
    have hkeys : (t.entries.map fun e => (⟨e.1, f e.1 e.2⟩ : Sigma fun _ : κ => υ)).keys =
        t.entries.keys := by
      simp [List.keys, List.map_map, Function.comp_def]
    rw [List.NodupKeys, hkeys]
    exact t.nodupKeys⟩

variable [DecidableEq κ]

/-- Change the value of one key, where there is one. -/
def modify (k : κ) (f : υ → υ) (t : Table κ υ) : Table κ υ :=
  match t.lookup k with
  | none => t
  | some v => t.insert k (f v)

theorem lookup_insert_eq (k k' : κ) (v : υ) (t : Table κ υ) :
    AList.lookup k' (t.insert k v) = if k' = k then some v else t.lookup k' := by
  by_cases h : k' = k
  · subst h
    simp
  · rw [if_neg h, lookup_insert_ne h]

theorem lookup_erase_eq (k k' : κ) (t : Table κ υ) :
    AList.lookup k' (t.erase k) = if k' = k then none else t.lookup k' := by
  by_cases h : k' = k
  · subst h
    simp
  · rw [if_neg h, lookup_erase_ne h]

theorem lookup_retain (p : κ → υ → Bool) (t : Table κ υ) (k : κ) :
    AList.lookup k (retain p t) = (t.lookup k).filter (p k) := by
  ext v
  rw [← Option.mem_def, mem_lookup_iff, retain, List.mem_filter, Option.filter_eq_some_iff,
    ← Option.mem_def, mem_lookup_iff]

theorem lookup_mapValues (f : κ → υ → υ) (t : Table κ υ) (k : κ) :
    AList.lookup k (mapValues f t) = (t.lookup k).map (f k) := by
  ext v
  rw [← Option.mem_def, mem_lookup_iff, mapValues, List.mem_map, Option.map_eq_some_iff]
  constructor
  · rintro ⟨⟨k', v'⟩, hmem, heq⟩
    cases heq
    exact ⟨v', mem_lookup_iff.2 hmem, rfl⟩
  · rintro ⟨v', hlookup, rfl⟩
    exact ⟨⟨k, v'⟩, mem_lookup_iff.1 hlookup, rfl⟩

theorem lookup_modify (k k' : κ) (f : υ → υ) (t : Table κ υ) :
    AList.lookup k' (modify k f t) =
      if k' = k then (t.lookup k').map f else t.lookup k' := by
  unfold modify
  cases h : t.lookup k with
  | none =>
    by_cases hk : k' = k
    · subst hk
      simp [h]
    · simp [hk]
  | some v =>
    by_cases hk : k' = k
    · subst hk
      simp [h]
    · simp [hk]

end Table

end BicDb.Foundation
