import BicDb.Foundation.IndexedLog
import Mathlib.Algebra.Group.Int.Defs

/-!
# Arithmetic of 64-bit numbers

The bounds of signed numbers; of counters the sum that stops at the largest value, and the
successor that fails there.
-/

namespace BicDb.Foundation

/-- The largest number of 64 bits with a sign. -/
def i64Max : Int := 2 ^ 63 - 1

/-- The smallest one. -/
def i64Min : Int := -2 ^ 63

/-- Saturating sum. -/
def satAdd (m n : Nat) : Nat := min (m + n) u64Max

/-- The successor, or `none` at the largest value. -/
def checkedSucc (n : Nat) : Option Nat := if n < u64Max then some (n + 1) else none

theorem checkedSucc_eq_some {n n' : Nat} : checkedSucc n = some n' ↔ n < u64Max ∧ n' = n + 1 := by
  unfold checkedSucc
  split_ifs with h
  · simp [h, eq_comm]
  · simp [h]

theorem le_checkedSucc_getD (n : Nat) : n ≤ (checkedSucc n).getD n := by
  unfold checkedSucc
  split_ifs
  · exact Nat.le_succ n
  · exact le_rfl

theorem checkedSucc_eq_none {n : Nat} : checkedSucc n = none ↔ u64Max ≤ n := by
  simp [checkedSucc]

theorem checkedSucc_of_lt {n : Nat} (h : n < u64Max) : checkedSucc n = some (n + 1) := if_pos h

end BicDb.Foundation
