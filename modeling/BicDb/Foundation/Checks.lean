import Mathlib.Data.List.Basic

/-!
# Chains of checks

`require` is one check, `forAll` checks every element of a list, `forAllSeen` also sees those before
it. Each comes with its condition for success (`require_eq_ok`, `forAll_eq_ok`, `forAllSeen_eq_ok`).
`isBlank` is the usual check of a text that must not be empty.
-/

namespace BicDb.Foundation

/-- The Unicode property `White_Space`. -/
def isWhiteSpace (c : Char) : Bool :=
  let n := c.toNat
  (9 ≤ n && n ≤ 13) || n == 0x20 || n == 0x85 || n == 0xA0 || n == 0x1680 ||
    (0x2000 ≤ n && n ≤ 0x200A) || n == 0x2028 || n == 0x2029 || n == 0x202F || n == 0x205F ||
    n == 0x3000

/-- Nothing but white space: what is left of the text when it is trimmed is empty. -/
def isBlank (text : String) : Bool := text.toList.all isWhiteSpace

variable {ε α : Type*}

/-- Refuse unless the condition holds. -/
def require (p : Prop) [Decidable p] (error : ε) : Except ε Unit :=
  if p then .ok () else .error error

/-- Check every element. -/
def forAll (check : α → Except ε Unit) : List α → Except ε Unit
  | [] => .ok ()
  | a :: l => check a >>= fun _ => forAll check l

/-- Check every element, given those before it. -/
def forAllSeen (check : List α → α → Except ε Unit) (seen : List α) :
    List α → Except ε Unit
  | [] => .ok ()
  | a :: l => check seen a >>= fun _ => forAllSeen check (seen ++ [a]) l

@[simp]
theorem require_eq_ok {p : Prop} [Decidable p] {error : ε} {u : Unit} :
    require p error = .ok u ↔ p := by
  unfold require
  split_ifs with h <;> simp [h]

theorem bind_eq_ok {β γ : Type} {x : Except ε β} {f : β → Except ε γ} {c : γ} :
    x >>= f = .ok c ↔ ∃ b, x = .ok b ∧ f b = .ok c := by
  cases x with
  | error e => exact ⟨fun h => (by cases h), fun ⟨_, h, _⟩ => (by cases h)⟩
  | ok b =>
    constructor
    · exact fun h => ⟨b, rfl, h⟩
    · rintro ⟨_, hb, h⟩
      cases hb
      exact h

@[simp]
theorem andThen_eq_ok {γ : Type} {x : Except ε Unit} {f : Unit → Except ε γ}
    {c : γ} : x >>= f = .ok c ↔ x = .ok () ∧ f () = .ok c := by
  rw [bind_eq_ok]
  exact ⟨fun ⟨_, h⟩ => h, fun h => ⟨_, h⟩⟩

@[simp]
theorem forAll_eq_ok {check : α → Except ε Unit} {l : List α} {u : Unit} :
    forAll check l = .ok u ↔ ∀ a ∈ l, check a = .ok () := by
  induction l with
  | nil => simp [forAll]
  | cons a l ih =>
    rw [forAll, andThen_eq_ok, ih]
    simp

theorem forAllSeen_eq_ok {check : List α → α → Except ε Unit} {P : α → Prop}
    {R : α → α → Prop} (hcheck : ∀ seen a, check seen a = .ok () ↔ P a ∧ ∀ b ∈ seen, R b a)
    {seen l : List α} {u : Unit} :
    forAllSeen check seen l = .ok u ↔
      (∀ a ∈ l, P a) ∧ (∀ b ∈ seen, ∀ a ∈ l, R b a) ∧ l.Pairwise R := by
  induction l generalizing seen with
  | nil => simp [forAllSeen]
  | cons a l ih =>
    rw [forAllSeen, andThen_eq_ok, hcheck, ih]
    simp only [List.mem_append, List.mem_cons, List.pairwise_cons, or_imp, forall_and, forall_eq]
    tauto

theorem exists_ok (x : Except ε α) (P : α → Prop) [DecidablePred P]
    (h : (match x with
      | .ok a => decide (P a)
      | .error _ => false) = true) : ∃ a, x = .ok a ∧ P a := by
  cases x with
  | error e => cases h
  | ok a => exact ⟨a, rfl, of_decide_eq_true h⟩

end BicDb.Foundation
