import Mathlib.Order.Basic
import Mathlib.Data.List.Basic
import Mathlib.Order.Lattice

/-!
# Tilings of an ordered space

Half-open intervals, each starting where the one before ends, the last without an end. Every point
is in exactly one; a piece may be replaced by another tiling of the same piece.
-/

namespace BicDb.Foundation

open List

universe u v

variable {τ : Type u} [LinearOrder τ] {α : Type v}

/-- The intervals of `l` tile the space from `s` on. -/
inductive Tiles (lo : α → τ) (hi : α → Option τ) : τ → List α → Prop where
  | last {a : α} : hi a = none → Tiles lo hi (lo a) [a]
  | cons {a : α} {e : τ} {l : List α} :
      lo a < e → hi a = some e → Tiles lo hi e l → Tiles lo hi (lo a) (a :: l)

/-- The point `x` is in the interval of `a`. -/
def Covers (lo : α → τ) (hi : α → Option τ) (a : α) (x : τ) : Prop :=
  lo a ≤ x ∧ ∀ e ∈ hi a, x < e

namespace Tiles

variable {lo : α → τ} {hi : α → Option τ} {s : τ} {a b c : α} {l l' pre post : List α}

theorem not_nil : ¬ Tiles lo hi s [] := nofun

theorem cons_iff : Tiles lo hi s (a :: l) ↔
    lo a = s ∧ ((hi a = none ∧ l = []) ∨ ∃ e, hi a = some e ∧ lo a < e ∧ Tiles lo hi e l) := by
  constructor
  · intro h
    cases h with
    | last hnone => exact ⟨rfl, .inl ⟨hnone, rfl⟩⟩
    | cons hlt hsome htail => exact ⟨rfl, .inr ⟨_, hsome, hlt, htail⟩⟩
  · rintro ⟨rfl, ⟨hnone, rfl⟩ | ⟨e, hsome, hlt, htail⟩⟩
    · exact .last hnone
    · exact .cons hlt hsome htail

theorem le_lo (h : Tiles lo hi s l) : ∀ a ∈ l, s ≤ lo a := by
  induction h with
  | last _ => simp
  | cons hlt _ _ ih =>
    intro b hb
    rcases mem_cons.1 hb with rfl | hb
    · exact le_rfl
    · exact hlt.le.trans (ih b hb)

theorem exists_covers (h : Tiles lo hi s l) {x : τ} (hx : s ≤ x) : ∃ a ∈ l, Covers lo hi a x := by
  induction h with
  | @last a hnone =>
    refine ⟨a, mem_singleton_self a, hx, fun e he => ?_⟩
    rw [hnone] at he
    cases he
  | @cons a e l hlt hsome _ ih =>
    rcases lt_or_ge x e with hxe | hxe
    · refine ⟨a, mem_cons_self, hx, fun e' he' => ?_⟩
      rw [hsome] at he'
      cases he'
      exact hxe
    · obtain ⟨b, hb, hcov⟩ := ih hxe
      exact ⟨b, mem_cons_of_mem _ hb, hcov⟩

theorem covers_unique (h : Tiles lo hi s l) {x : τ} (ha : a ∈ l) (hb : b ∈ l)
    (hax : Covers lo hi a x) (hbx : Covers lo hi b x) : a = b := by
  induction h with
  | last _ => rw [mem_singleton.1 ha, mem_singleton.1 hb]
  | @cons c e l hlt hsome htail ih =>
    -- a point of the head is before the tail starts
    have before : ∀ d ∈ l, Covers lo hi c x → ¬ Covers lo hi d x := by
      intro d hd hcx hdx
      exact absurd (hcx.2 e hsome) (not_lt.2 ((htail.le_lo d hd).trans hdx.1))
    rcases mem_cons.1 ha with rfl | ha' <;> rcases mem_cons.1 hb with rfl | hb'
    · rfl
    · exact absurd hbx (before b hb' hax)
    · exact absurd hax (before a ha' hbx)
    · exact ih ha' hb'

theorem replace_tail (h : Tiles lo hi s (pre ++ l))
    (hl : ∀ s', Tiles lo hi s' l → Tiles lo hi s' l') (hne : l ≠ []) :
    Tiles lo hi s (pre ++ l') := by
  induction pre generalizing s with
  | nil => exact hl s h
  | cons a pre ih =>
    obtain ⟨rfl, ⟨-, hnil⟩ | ⟨e, hsome, hlt, htail⟩⟩ := cons_iff.1 h
    · exact absurd (append_eq_nil_iff.1 hnil).2 hne
    · exact .cons hlt hsome (ih htail)

theorem replace (h : Tiles lo hi s (pre ++ a :: post)) (hlo : lo b = lo a) (hhi : hi b = hi a) :
    Tiles lo hi s (pre ++ b :: post) := by
  refine h.replace_tail (fun s' hs => ?_) (cons_ne_nil _ _)
  cases hs with
  | last hnone => exact hlo ▸ .last (hhi.trans hnone)
  | cons hlt hsome htail => exact hlo ▸ .cons (hlo.symm ▸ hlt) (hhi.trans hsome) htail

/-- Changing the pieces in place keeps the tiling. -/
theorem map {g : α → α} (h : Tiles lo hi s l) (hlo : ∀ a, lo (g a) = lo a)
    (hhi : ∀ a, hi (g a) = hi a) : Tiles lo hi s (l.map g) := by
  induction h with
  | @last a hnone => exact hlo a ▸ .last ((hhi a).trans hnone)
  | @cons a _ _ hlt hsome _ ih =>
    exact hlo a ▸ .cons ((hlo a).symm ▸ hlt) ((hhi a).trans hsome) ih

theorem split {m : τ} (h : Tiles lo hi s (pre ++ a :: post)) (hm : lo a < m)
    (hin : ∀ e ∈ hi a, m < e) (hlob : lo b = lo a) (hhib : hi b = some m) (hloc : lo c = m)
    (hhic : hi c = hi a) : Tiles lo hi s (pre ++ b :: c :: post) := by
  refine h.replace_tail (fun s' hs => ?_) (cons_ne_nil _ _)
  cases hs with
  | last hnone =>
    exact hlob ▸ .cons (hlob.symm ▸ hm) hhib (hloc ▸ .last (hhic.trans hnone))
  | @cons _ e _ hlt hsome htail =>
    refine hlob ▸ .cons (hlob.symm ▸ hm) hhib ?_
    exact hloc ▸ .cons (hloc.symm ▸ hin e hsome) (hhic.trans hsome) htail

theorem join (h : Tiles lo hi s (pre ++ a :: b :: post)) (hlo : lo c = lo a) (hhi : hi c = hi b) :
    Tiles lo hi s (pre ++ c :: post) := by
  refine h.replace_tail (fun s' hs => ?_) (cons_ne_nil _ _)
  cases hs with
  | @cons _ e _ hlt hsome htail =>
    cases htail with
    | last hnone => exact hlo ▸ .last (hhi.trans hnone)
    | @cons _ e' _ hlt' hsome' htail' =>
      exact hlo ▸ .cons (hlo.symm ▸ hlt.trans hlt') (hhi.trans hsome') htail'

theorem le_lo_of_mem (h : Tiles lo hi s (pre ++ a :: post)) (hb : b ∈ post) :
    ∃ e, hi a = some e ∧ e ≤ lo b := by
  induction pre generalizing s with
  | nil =>
    obtain ⟨-, ⟨-, rfl⟩ | ⟨e, hsome, -, htail⟩⟩ := cons_iff.1 h
    · cases hb
    · exact ⟨e, hsome, htail.le_lo b hb⟩
  | cons c pre ih =>
    obtain ⟨-, ⟨-, hnil⟩ | ⟨e, -, -, htail⟩⟩ := cons_iff.1 h
    · exact absurd (append_eq_nil_iff.1 hnil).2 (cons_ne_nil _ _)
    · exact ih htail

theorem lo_next (h : Tiles lo hi s (pre ++ a :: b :: post)) : hi a = some (lo b) := by
  induction pre generalizing s with
  | nil =>
    cases h with
    | cons _ hsome htail =>
      cases htail with
      | last _ => exact hsome
      | cons _ _ _ => exact hsome
  | cons c pre ih =>
    obtain ⟨-, ⟨-, hnil⟩ | ⟨e, -, -, htail⟩⟩ := cons_iff.1 h
    · exact absurd (append_eq_nil_iff.1 hnil).2 (cons_ne_nil _ _)
    · exact ih htail

end Tiles

end BicDb.Foundation
