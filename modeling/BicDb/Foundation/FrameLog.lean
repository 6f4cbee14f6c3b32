import Mathlib.Data.List.Basic
import Mathlib.Algebra.GroupWithZero.Nat

/-!
# Logs of self-delimiting frames

`walkFrames` reads frames off the front of a string until its reader stops. `Framing` is what a
format owes its reader: a whole frame is read whatever follows it, a frame cut short is not.
`walkFrames_take`: a log cut anywhere gives back the frames before the cut. `walkFrames_fail`: a
log with a frame that cannot be read gives back that frame's error.
-/

namespace BicDb.Foundation

open List

universe u v w x y

/-! ## Numbers in bytes -/

/-- The `width` lowest bytes of a number, lowest first. -/
def leBytes : Nat → Nat → List UInt8
  | 0, _ => []
  | width + 1, n => UInt8.ofNat (n % 256) :: leBytes width (n / 256)

/-- The number that a list of bytes spells, lowest first. -/
def leNat : List UInt8 → Nat
  | [] => 0
  | b :: bs => b.toNat + 256 * leNat bs

@[simp] theorem length_leBytes (width n : Nat) : (leBytes width n).length = width := by
  induction width generalizing n with
  | zero => rfl
  | succ width ih => simp [leBytes, ih]

theorem leNat_leBytes {width n : Nat} (h : n < 256 ^ width) : leNat (leBytes width n) = n := by
  induction width generalizing n with
  | zero =>
    have : n = 0 := by simpa using h
    simp [leBytes, leNat, this]
  | succ width ih =>
    have hlow : (UInt8.ofNat (n % 256)).toNat = n % 256 := by
      simp
    have hrest : n / 256 < 256 ^ width := by omega
    simp only [leBytes, leNat, hlow, ih hrest]
    omega

/-! ## Reading frames -/

/-- What a reader finds at the front of a log. -/
inductive FrameHead (ε : Type u) (α : Type v) where
  | stop
  | fail (error : ε)
  | frame (content : α) (size : Nat)

variable {β : Type w} {ε : Type u} {α : Type v} {σ : Type x} {φ : Type y}

/-- Hand the frames to `visit` until the reader stops; the visitor's state and the offset reached.
-/
def walkFrames (head : List β → FrameHead ε α) (visit : σ → Nat → α → Except ε σ) :
    Nat → Nat → List β → σ → Except ε (σ × Nat)
  | 0, offset, _, s => .ok (s, offset)
  | fuel + 1, offset, bytes, s =>
    match head bytes with
    | .stop => .ok (s, offset)
    | .fail e => .error e
    | .frame content size =>
      match visit s offset content with
      | .error e => .error e
      | .ok s' => walkFrames head visit fuel (offset + size) (bytes.drop size) s'

/-- Hand given frames to `visit`. -/
def visitFrames (visit : σ → Nat → α → Except ε σ) (encode : φ → List β) (content : φ → α) :
    Nat → List φ → σ → Except ε (σ × Nat)
  | offset, [], s => .ok (s, offset)
  | offset, f :: fs, s =>
    match visit s offset (content f) with
    | .error e => .error e
    | .ok s' => visitFrames visit encode content (offset + (encode f).length) fs s'

/-- The frames that lie within the first `k` bytes. -/
def wholeWithin (encode : φ → List β) : List φ → Nat → List φ
  | [], _ => []
  | f :: fs, k =>
    if (encode f).length ≤ k then f :: wholeWithin encode fs (k - (encode f).length) else []

/-- What a frame format owes its reader. -/
structure Framing (head : List β → FrameHead ε α) (encode : φ → List β) (content : φ → α)
    (Sound : φ → Prop) : Prop where
  empty : head [] = .stop
  nonempty : ∀ f, Sound f → 0 < (encode f).length
  whole : ∀ f, Sound f → ∀ rest, head (encode f ++ rest) = .frame (content f) (encode f).length
  torn : ∀ f, Sound f → ∀ k, k < (encode f).length → head ((encode f).take k) = .stop

variable {encode : φ → List β}

theorem prefix_wholeWithin (fs : List φ) (k : Nat) : wholeWithin encode fs k <+: fs := by
  induction fs generalizing k with
  | nil => exact prefix_refl _
  | cons f fs ih =>
    by_cases hf : (encode f).length ≤ k
    · simpa [wholeWithin, hf] using ih (k - (encode f).length)
    · simp [wholeWithin, hf]

theorem wholeWithin_append (xs ys : List φ) {k : Nat} (h : (xs.flatMap encode).length ≤ k) :
    wholeWithin encode (xs ++ ys) k =
      xs ++ wholeWithin encode ys (k - (xs.flatMap encode).length) := by
  induction xs generalizing k with
  | nil => simp
  | cons f fs ih =>
    rw [flatMap_cons, length_append] at h
    have hf : (encode f).length ≤ k := by omega
    have hfs : (fs.flatMap encode).length ≤ k - (encode f).length := by omega
    have hk : k - ((encode f).length + (fs.flatMap encode).length) =
        k - (encode f).length - (fs.flatMap encode).length := by omega
    simp only [cons_append, wholeWithin, if_pos hf, ih hfs, flatMap_cons, length_append, hk]

theorem prefix_flatMap_wholeWithin (fs : List φ) (k : Nat) :
    (wholeWithin encode fs k).flatMap encode <+: (fs.flatMap encode).take k := by
  induction fs generalizing k with
  | nil => simp [wholeWithin]
  | cons f fs ih =>
    by_cases hf : (encode f).length ≤ k
    · have htake : ((f :: fs).flatMap encode).take k =
          encode f ++ (fs.flatMap encode).take (k - (encode f).length) := by
        rw [flatMap_cons, take_append, take_of_length_le hf]
      rw [htake]
      simpa [wholeWithin, hf] using ih (k - (encode f).length)
    · simp [wholeWithin, hf]

theorem length_wholeWithin_le {Sound : φ → Prop} (hne : ∀ f, Sound f → 0 < (encode f).length)
    {fs : List φ} (hfs : ∀ f ∈ fs, Sound f) (k : Nat) :
    (wholeWithin encode fs k).length ≤ ((fs.flatMap encode).take k).length := by
  refine Nat.le_trans ?_ (prefix_flatMap_wholeWithin fs k).length_le
  have hkept : ∀ f ∈ wholeWithin encode fs k, 0 < (encode f).length := fun f hf =>
    hne f (hfs f ((prefix_wholeWithin fs k).subset hf))
  generalize wholeWithin encode fs k = ks at hkept ⊢
  induction ks with
  | nil => simp
  | cons f fs ih =>
    have hf := hkept f (by simp)
    have hrest := ih fun g hg => hkept g (by simp [hg])
    simp only [length_cons, flatMap_cons, length_append]
    omega

variable {head : List β → FrameHead ε α} {content : φ → α} {Sound : φ → Prop}

/-- **A cut log gives back the frames before the cut.** -/
theorem walkFrames_take (h : Framing head encode content Sound)
    (visit : σ → Nat → α → Except ε σ) {fs : List φ} (hfs : ∀ f ∈ fs, Sound f) {k fuel : Nat}
    (hfuel : (wholeWithin encode fs k).length < fuel) (offset : Nat) (s : σ) :
    walkFrames head visit fuel offset ((fs.flatMap encode).take k) s =
      visitFrames visit encode content offset (wholeWithin encode fs k) s := by
  induction fs generalizing k fuel offset s with
  | nil =>
    cases fuel with
    | zero => rfl
    | succ fuel => simp [walkFrames, wholeWithin, visitFrames, h.empty]
  | cons f fs ih =>
    have hsound : Sound f := hfs f (by simp)
    have hrest : ∀ g ∈ fs, Sound g := fun g hg => hfs g (by simp [hg])
    cases fuel with
    | zero => exact absurd hfuel (Nat.not_lt_zero _)
    | succ fuel =>
      by_cases hf : (encode f).length ≤ k
      · -- the frame lies before the cut: it is read, and the walk goes on behind it
        have htake : ((f :: fs).flatMap encode).take k =
            encode f ++ (fs.flatMap encode).take (k - (encode f).length) := by
          rw [flatMap_cons, take_append, take_of_length_le hf]
        have hkept : wholeWithin encode (f :: fs) k =
            f :: wholeWithin encode fs (k - (encode f).length) := by
          simp [wholeWithin, hf]
        rw [hkept, length_cons] at hfuel
        rw [htake, hkept]
        simp only [walkFrames, visitFrames, h.whole f hsound, drop_left]
        cases visit s offset (content f) with
        | error e => rfl
        | ok s' => exact ih hrest (by omega) _ _
      · -- the cut falls into this frame: the reader stops
        have htake : ((f :: fs).flatMap encode).take k = (encode f).take k := by
          rw [flatMap_cons, take_append_of_le_length (by omega)]
        have hkept : wholeWithin encode (f :: fs) k = [] := by simp [wholeWithin, hf]
        rw [htake, hkept]
        simp [walkFrames, visitFrames, h.torn f hsound k (by omega)]

/-- **A log with a frame that cannot be read** fails with that frame's error, once the frames before
it have been handed over. -/
theorem walkFrames_fail (h : Framing head encode content Sound)
    (visit : σ → Nat → α → Except ε σ) {fs : List φ} (hfs : ∀ f ∈ fs, Sound f) {bad : List β}
    {e : ε} (hbad : head bad = .fail e) {fuel : Nat} (hfuel : fs.length < fuel) {offset : Nat}
    {s : σ} (hvisit : ∃ result, visitFrames visit encode content offset fs s = .ok result) :
    walkFrames head visit fuel offset (fs.flatMap encode ++ bad) s = .error e := by
  induction fs generalizing fuel offset s with
  | nil =>
    obtain ⟨fuel, rfl⟩ := Nat.exists_eq_add_one.2 hfuel
    simp [walkFrames, hbad]
  | cons f fs ih =>
    obtain ⟨fuel, rfl⟩ := Nat.exists_eq_add_one.2 (Nat.zero_lt_of_lt hfuel)
    obtain ⟨hsound, hrest⟩ := forall_mem_cons.1 hfs
    rw [flatMap_cons, append_assoc]
    simp only [walkFrames, h.whole f hsound, drop_left]
    simp only [visitFrames] at hvisit
    cases hstep : visit s offset (content f) with
    | error e' =>
      rw [hstep] at hvisit
      obtain ⟨result, hresult⟩ := hvisit
      cases hresult
    | ok s' =>
      rw [hstep] at hvisit
      exact ih hrest (Nat.lt_of_succ_lt_succ hfuel) hvisit

end BicDb.Foundation
