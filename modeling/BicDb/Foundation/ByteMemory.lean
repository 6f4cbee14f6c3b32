import BicDb.Foundation.FrameLog
import Mathlib.Data.List.Nodup
import Mathlib.Data.List.Perm.Subperm

/-!
# Bytes at addresses

A buffer as a function from addresses to bytes, with the block operations of a byte slice. What a
read finds afterwards is said for the range written and for every range that does not meet it.
-/

namespace BicDb.Foundation

open List

/-- Bytes by address. -/
def Memory := Nat → UInt8

namespace Memory

variable (m : Memory)

def read (start count : Nat) : List UInt8 := (List.range count).map fun i => m (start + i)

def write (start : Nat) (bytes : List UInt8) : Memory := fun i =>
  if start ≤ i then bytes[i - start]?.getD (m i) else m i

/-- Zeros from `start` up to `stop`. -/
def fill (start stop : Nat) : Memory := fun i => if start ≤ i ∧ i < stop then 0 else m i

/-- The bytes from `start` up to `stop`, moved to `target`. -/
def copyWithin (start stop target : Nat) : Memory := fun i =>
  if target ≤ i ∧ i < target + (stop - start) then m (start + (i - target)) else m i

/-- The number written in `width` bytes, lowest byte first. -/
def number (start width : Nat) : Nat := leNat (m.read start width)

def putNumber (start width n : Nat) : Memory := m.write start (leBytes width n)

variable {m} {start count : Nat}

@[simp] theorem length_read : (m.read start count).length = count := by
  simp [read]

theorem read_congr {m' : Memory} (h : ∀ i, start ≤ i → i < start + count → m' i = m i) :
    m'.read start count = m.read start count := by
  apply map_congr_left
  intro i hi
  rw [mem_range] at hi
  exact h _ (Nat.le_add_right ..) (Nat.add_lt_add_left hi _)

theorem read_add (first second : Nat) :
    m.read start (first + second) = m.read start first ++ m.read (start + first) second := by
  simp [read, range_add, Nat.add_assoc]

/-! ### What was written -/

variable {bytes : List UInt8} {i : Nat}

theorem write_outside (h : i < start ∨ start + bytes.length ≤ i) :
    m.write start bytes i = m i := by
  unfold write
  split
  · rw [getElem?_eq_none (by omega), Option.getD_none]
  · rfl

theorem write_congr {m' : Memory} (h : m' i = m i) :
    m'.write start bytes i = m.write start bytes i := by
  simp only [write, h]

theorem write_append (first second : List UInt8) :
    m.write start (first ++ second) =
      (m.write start first).write (start + first.length) second := by
  funext i
  simp only [write]
  by_cases hlo : start + first.length ≤ i
  · rw [if_pos hlo, if_pos (by omega), getElem?_append_right (by omega), if_pos (by omega),
      getElem?_eq_none (l := first) (by omega), Nat.sub_sub]
    rfl
  · rw [if_neg hlo]
    split
    · rw [getElem?_append_left (by omega)]
    · rfl

variable {width n : Nat}

theorem putNumber_outside (h : i < start ∨ start + width ≤ i) : m.putNumber start width n i = m i :=
  write_outside (by simpa using h)

theorem fill_outside {stop : Nat} (h : i < start ∨ stop ≤ i) : m.fill start stop i = m i :=
  if_neg (by omega)

@[simp] theorem read_write (bytes : List UInt8) :
    (m.write start bytes).read start bytes.length = bytes := by
  apply ext_getElem
  · simp
  · intro i _ hi
    simp [read, write, hi]

variable {a : Nat}

theorem read_write_disjoint (h : a + n ≤ start ∨ start + bytes.length ≤ a) :
    (m.write start bytes).read a n = m.read a n :=
  read_congr fun _ _ _ => write_outside (by omega)

theorem number_putNumber (h : n < 256 ^ width) :
    (m.putNumber start width n).number start width = n := by
  have hread := @read_write m start (leBytes width n)
  rw [length_leBytes] at hread
  rw [number, putNumber, hread, leNat_leBytes h]

theorem read_fill {stop : Nat} (h : a + n ≤ start ∨ stop ≤ a) :
    (m.fill start stop).read a n = m.read a n :=
  read_congr fun _ _ _ => fill_outside (by omega)

theorem number_lt (width : Nat) : m.number start width < 256 ^ width := by
  have hlt : ∀ bytes : List UInt8, leNat bytes < 256 ^ bytes.length := by
    intro bytes
    induction bytes with
    | nil => simp [leNat]
    | cons b =>
      have := b.toNat_lt
      rw [leNat, length_cons, Nat.pow_succ]
      omega
  simpa [number] using hlt (m.read start width)

theorem number_write (h : a + width ≤ start ∨ start + bytes.length ≤ a) :
    (m.write start bytes).number a width = m.number a width := by
  rw [number, number, read_write_disjoint h]

theorem number_putNumber_disjoint {k : Nat} (h : a + k ≤ start ∨ start + width ≤ a) :
    (m.putNumber start width n).number a k = m.number a k := by
  rw [number, number, putNumber, read_write_disjoint (by simpa using h)]

end Memory

/-- Extents between `lo` and `hi` that do not meet are together no longer than that. -/
theorem sum_lengths_le {lo hi : Nat} {extents : List (Nat × Nat)}
    (hin : ∀ e ∈ extents, lo ≤ e.1 ∧ e.1 + e.2 ≤ hi)
    (hapart : extents.Pairwise fun e f =>
      ∀ a, e.1 ≤ a → a < e.1 + e.2 → ¬ (f.1 ≤ a ∧ a < f.1 + f.2)) :
    (extents.map Prod.snd).sum ≤ hi - lo := by
  have hnodup : (extents.flatMap fun e => range' e.1 e.2).Nodup := by
    rw [nodup_flatMap]
    refine ⟨fun e _ => nodup_range', hapart.imp fun {e f} h a hae haf => ?_⟩
    rw [mem_range'_1] at hae haf
    exact h a hae.1 hae.2 haf
  have hsub : (extents.flatMap fun e => range' e.1 e.2) ⊆ range' lo (hi - lo) := by
    intro a ha
    obtain ⟨e, he, hae⟩ := mem_flatMap.mp ha
    have := hin e he
    rw [mem_range'_1] at hae ⊢
    omega
  have hlen := (subperm_of_subset hnodup hsub).length_le
  simpa using hlen

end BicDb.Foundation
