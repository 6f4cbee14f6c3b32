import Mathlib.Data.List.Nodup

/-!
# Linked cells

`Linked next cells cursor xs`: following the pointers from `cursor` visits the cells `xs` and ends.
Cells are rewritten in place, stored where nothing points to, or removed.
-/

namespace BicDb.Foundation

open List

variable {L N : Type*} (next : N → Option L)

/-- The cells visited from a cursor. -/
inductive Linked (cells : L → Option N) : Option L → List (L × N) → Prop where
  | stop : Linked cells none []
  | broken {l : L} : cells l = none → Linked cells (some l) []
  | node {l : L} {n : N} {rest : List (L × N)} :
      cells l = some n → Linked cells (next n) rest → Linked cells (some l) ((l, n) :: rest)

/-- The first cells visited from a cursor, at most `fuel` of them. -/
def follow (cells : L → Option N) : Nat → Option L → List (L × N)
  | 0, _ => []
  | _ + 1, none => []
  | fuel + 1, some l =>
    match cells l with
    | none => []
    | some n => (l, n) :: follow cells fuel (next n)

namespace Linked

variable {next} {cells : L → Option N} {cursor : Option L} {xs ys : List (L × N)}

variable (h : Linked next cells cursor xs)

include h

theorem unique (h' : Linked next cells cursor ys) : xs = ys := by
  induction h generalizing ys with
  | stop =>
    cases h'
    rfl
  | broken hgone =>
    cases h' with
    | broken _ => rfl
    | node hl _ => simp [hgone] at hl
  | @node l n rest hl _ ih =>
    cases h' with
    | broken hgone => simp [hgone] at hl
    | node hl' hrest =>
      rw [hl] at hl'
      cases hl'
      rw [ih hrest]

theorem follow_eq (fuel : Nat) : follow next cells fuel cursor = xs.take fuel := by
  induction h generalizing fuel with
  | stop => cases fuel <;> simp [follow]
  | broken hgone => cases fuel <;> simp [follow, hgone]
  | node hl _ ih => cases fuel <;> simp [follow, hl, ih]

theorem stored : ∀ p ∈ xs, cells p.1 = some p.2 := by
  induction h with
  | stop => simp
  | broken _ => simp
  | node hl _ ih => simpa using ⟨hl, fun l n => ih (l, n)⟩

omit h

theorem drop {l : L} {n : N} (h : Linked next cells cursor (xs ++ (l, n) :: ys)) :
    Linked next cells (some l) ((l, n) :: ys) := by
  induction xs generalizing cursor with
  | nil =>
    cases h with
    | node hl hrest => exact .node hl hrest
  | cons x xs ih =>
    cases h with
    | node _ hrest => exact ih hrest

variable (h : Linked next cells cursor xs)

include h

theorem nodup : (xs.map Prod.fst).Nodup := by
  induction h with
  | stop => simp
  | broken _ => simp
  | @node l n rest hl hrest ih =>
    rw [map_cons, nodup_cons]
    refine ⟨fun hmem => ?_, ih⟩
    obtain ⟨⟨l', n'⟩, hp, rfl⟩ := mem_map.mp hmem
    obtain ⟨pre, post, rfl⟩ := append_of_mem hp
    have hlen := congrArg length (hrest.drop.unique (Linked.node hl hrest))
    simp at hlen
    omega

theorem all {P : L → Prop} (hstart : ∀ l, cursor = some l → P l)
    (hnext : ∀ l n m, P l → cells l = some n → next n = some m → P m) : ∀ p ∈ xs, P p.1 := by
  induction h with
  | stop => simp
  | broken _ => simp
  | @node l n rest hl _ ih =>
    have hP := hstart l rfl
    simpa using ⟨hP, fun m k => ih (fun m hm => hnext l n m hP hl hm) (m, k)⟩

theorem congr {P : L → Prop} {cells' : L → Option N} (hstart : ∀ l, cursor = some l → P l)
    (hnext : ∀ l n m, P l → cells l = some n → next n = some m → P m)
    (hagree : ∀ l, P l → cells' l = cells l) : Linked next cells' cursor xs := by
  induction h with
  | stop => exact .stop
  | broken hgone => exact .broken ((hagree _ (hstart _ rfl)).trans hgone)
  | @node l n rest hl _ ih =>
    have hP := hstart l rfl
    exact .node ((hagree l hP).trans hl) (ih fun m hm => hnext l n m hP hl hm)

omit h

theorem map (f : L → N → N) (hf : ∀ l n, next (f l n) = next n) (h : Linked next cells cursor xs) :
    Linked next (fun l => (cells l).map (f l)) cursor (xs.map fun p => (p.1, f p.1 p.2)) := by
  induction h with
  | stop => exact .stop
  | broken hgone => exact .broken (by simp [hgone])
  | @node l n rest hl _ ih =>
    refine .node (by simp [hl]) ?_
    rwa [hf]

theorem insert [DecidableEq L] {l : L} {n : N} (h : Linked next cells cursor xs)
    (hcursor : cursor ≠ some l) (hnext : ∀ m k, cells m = some k → next k ≠ some l) :
    Linked next (Function.update cells l (some n)) cursor xs := by
  apply h.congr (P := fun m => m ≠ l)
  · exact fun m hm hl => hcursor (hl ▸ hm)
  · exact fun m k m' _ hk hm' hl => hnext m k hk (hl ▸ hm')
  · exact fun m hm => Function.update_of_ne hm _ _

theorem remove [DecidableEq L] (l : L) (h : Linked next cells cursor xs) :
    Linked next (Function.update cells l none) cursor (xs.takeWhile fun p => decide (p.1 ≠ l)) := by
  induction h with
  | stop => exact .stop
  | @broken m hgone =>
    refine .broken ?_
    by_cases hm : m = l
    · simp [hm]
    · simpa [hm] using hgone
  | @node m n rest hm _ ih =>
    by_cases hml : m = l
    · rw [takeWhile_cons_of_neg (by simp [hml])]
      exact .broken (by simp [hml])
    · rw [takeWhile_cons_of_pos (by simp [hml])]
      exact .node (by simpa [hml] using hm) ih

end Linked

end BicDb.Foundation
