import Mathlib.Data.Finset.Card

/-!
# Sets of numbers kept as a floor

Everything below the floor is a member, the floor is not, and the members above are listed. `add`
and `raise` move the floor past the members they reach; `ext_contains`: the set determines the
representation.
-/

namespace BicDb.Foundation

/-- A set of numbers: all below the floor, and some above it. -/
structure Watermark where
  floor : Nat
  above : Finset Nat
  floor_lt : ∀ n ∈ above, floor < n
  deriving DecidableEq

namespace Watermark

/-- Everything below `floor`. -/
def below (floor : Nat) : Watermark := ⟨floor, ∅, by simp⟩

variable (w : Watermark)

def Contains (n : Nat) : Prop := n < w.floor ∨ n ∈ w.above

/-- Move the floor past the members that it reaches. -/
def absorb : Nat → Nat → Finset Nat → Nat × Finset Nat
  | 0, floor, above => (floor, above)
  | fuel + 1, floor, above =>
    if floor ∈ above then absorb fuel (floor + 1) (above.erase floor) else (floor, above)

/-- Absorbing keeps the set. -/
theorem absorb_spec {fuel floor : Nat} {above : Finset Nat} (hfuel : above.card ≤ fuel)
    (hle : ∀ n ∈ above, floor ≤ n) :
    (∀ n ∈ (absorb fuel floor above).2, (absorb fuel floor above).1 < n) ∧
      ∀ n, n < (absorb fuel floor above).1 ∨ n ∈ (absorb fuel floor above).2 ↔
        n < floor ∨ n ∈ above := by
  induction fuel generalizing floor above with
  | zero =>
    have hempty : above = ∅ := by simpa using hfuel
    subst hempty
    simp [absorb]
  | succ fuel ih =>
    by_cases hmem : floor ∈ above
    · have hcard : (above.erase floor).card ≤ fuel := by
        rw [Finset.card_erase_of_mem hmem]
        omega
      have hle' : ∀ n ∈ above.erase floor, floor + 1 ≤ n := by
        intro n hn
        obtain ⟨hne, hn⟩ := Finset.mem_erase.1 hn
        have := hle n hn
        omega
      obtain ⟨hlt, hiff⟩ := ih hcard hle'
      simp only [absorb, if_pos hmem]
      refine ⟨hlt, fun n => ?_⟩
      rw [hiff n, Finset.mem_erase]
      constructor
      · rintro (h | ⟨-, h⟩)
        · rcases Nat.lt_or_eq_of_le (Nat.le_of_lt_succ h) with h | rfl
          · exact .inl h
          · exact .inr hmem
        · exact .inr h
      · rintro (h | h)
        · exact .inl (by omega)
        · by_cases hn : n = floor
          · exact .inl (by omega)
          · exact .inr ⟨hn, h⟩
    · rw [absorb, if_neg hmem]
      refine ⟨fun n hn => ?_, fun n => Iff.rfl⟩
      have hne : n ≠ floor := fun h => hmem (h ▸ hn)
      have := hle n hn
      omega

/-- The set of everything below `floor` and of `above`. -/
def settle (floor : Nat) (above : Finset Nat) (hle : ∀ n ∈ above, floor ≤ n) : Watermark :=
  ⟨(absorb above.card floor above).1, (absorb above.card floor above).2,
    (absorb_spec (Nat.le_refl _) hle).1⟩

theorem contains_settle {floor : Nat} {above : Finset Nat} (hle : ∀ n ∈ above, floor ≤ n)
    (n : Nat) : (settle floor above hle).Contains n ↔ n < floor ∨ n ∈ above :=
  (absorb_spec (Nat.le_refl _) hle).2 n

/-- Put `n` into the set. -/
def add (n : Nat) : Watermark :=
  if hlt : n < w.floor then w
  else if heq : n = w.floor then settle (w.floor + 1) w.above w.floor_lt
  else
    ⟨w.floor, insert n w.above, by
      intro m hm
      rcases Finset.mem_insert.1 hm with rfl | hm
      · omega
      · exact w.floor_lt m hm⟩

/-- Put everything up to `through` into the set. -/
def raise (through : Nat) : Watermark :=
  let floor := if w.floor ≤ through then through + 1 else w.floor
  settle floor (w.above.filter (floor ≤ ·)) fun _ hn => (Finset.mem_filter.1 hn).2

theorem contains_below (floor n : Nat) : (below floor).Contains n ↔ n < floor := by
  simp [below, Contains]

theorem contains_add (m n : Nat) : (w.add m).Contains n ↔ w.Contains n ∨ n = m := by
  unfold add
  split
  · rename_i hlt
    refine ⟨.inl, ?_⟩
    rintro (h | rfl)
    · exact h
    · exact .inl hlt
  · split_ifs with hm
    · rw [contains_settle, Contains, hm]
      constructor
      · rintro (h | h)
        · omega
        · exact .inl (.inr h)
      · rintro ((h | h) | h)
        · exact .inl (by omega)
        · exact .inr h
        · exact .inl (by omega)
    · simp only [Contains, Finset.mem_insert]
      tauto

theorem contains_raise (through n : Nat) :
    (w.raise through).Contains n ↔ w.Contains n ∨ n ≤ through := by
  unfold raise
  rw [contains_settle, Contains, Finset.mem_filter]
  split
  · have := w.floor_lt n
    constructor
    · rintro (h | ⟨h, -⟩)
      · exact .inr (by omega)
      · exact .inl (.inr h)
    · rintro ((h | h) | h)
      · exact .inl (by omega)
      · by_cases hn : n ≤ through
        · exact .inl (by omega)
        · exact .inr ⟨h, by omega⟩
      · exact .inl (by omega)
  · have := w.floor_lt n
    constructor
    · rintro (h | ⟨h, -⟩)
      · exact .inl (.inl h)
      · exact .inl (.inr h)
    · rintro ((h | h) | h)
      · exact .inl h
      · exact .inr ⟨h, Nat.le_of_lt (w.floor_lt n h)⟩
      · exact .inl (by omega)

theorem contains_of_lt_floor {n : Nat} (h : n < w.floor) : w.Contains n := .inl h

/-- **The floor is outside the set.** -/
theorem not_contains_floor : ¬ w.Contains w.floor := by
  rintro (h | h)
  · exact Nat.lt_irrefl _ h
  · exact Nat.lt_irrefl _ (w.floor_lt _ h)

theorem floor_le_of_contains_lt {bound : Nat} (h : ∀ n, w.Contains n → n < bound) :
    w.floor ≤ bound := by
  by_contra hlt
  exact Nat.lt_irrefl _ (h bound (w.contains_of_lt_floor (by omega)))

/-- **The set determines the floor and the members above it.** -/
theorem ext_contains {w w' : Watermark} (h : ∀ n, w.Contains n ↔ w'.Contains n) : w = w' := by
  have hfloor : w.floor = w'.floor := by
    rcases Nat.lt_trichotomy w.floor w'.floor with hlt | heq | hlt
    · exact absurd ((h _).2 (w'.contains_of_lt_floor hlt)) w.not_contains_floor
    · exact heq
    · exact absurd ((h _).1 (w.contains_of_lt_floor hlt)) w'.not_contains_floor
  have habove : w.above = w'.above := by
    ext n
    constructor
    · intro hn
      have hlt := w.floor_lt n hn
      exact ((h n).1 (.inr hn)).resolve_left (by omega)
    · intro hn
      have hlt := w'.floor_lt n hn
      exact ((h n).2 (.inr hn)).resolve_left (by omega)
  cases w
  subst hfloor habove
  rfl

end Watermark

end BicDb.Foundation
