import BicDb.Foundation.FrameLog
import Mathlib.Data.Set.Function

/-!
# Codes that can be told from what follows them

A code is delimited when two codes, each with something behind it, agree only if the values and what
is behind do.
-/

namespace BicDb.Foundation

open List

/-! ## Numbers, highest byte first -/

/-- The `width` lowest bytes of a number, highest first. -/
def beBytes (width n : Nat) : List UInt8 := (leBytes width n).reverse

@[simp]
theorem length_beBytes (width n : Nat) : (beBytes width n).length = width := by
  simp [beBytes]

variable (width : Nat)

theorem beBytes_injOn : Set.InjOn (beBytes width) {n | n < 256 ^ width} := by
  intro m hm n hn h
  have hbytes : leBytes width m = leBytes width n := reverse_injective h
  calc m = leNat (leBytes width m) := (leNat_leBytes hm).symm
    _ = leNat (leBytes width n) := by rw [hbytes]
    _ = n := leNat_leBytes hn

/-! ## Delimited codes -/

section Delimited

variable {α β γ : Type*} {s : Set α} {t : Set γ} {enc : α → List β}
  {enc' : γ → List β}

/-- A code and what follows it determine both. -/
def DelimitedOn (s : Set α) (enc : α → List β) : Prop :=
  ∀ ⦃a⦄, a ∈ s → ∀ ⦃b⦄, b ∈ s → ∀ ⦃rest rest'⦄, enc a ++ rest = enc b ++ rest' →
    a = b ∧ rest = rest'

theorem DelimitedOn.injOn (h : DelimitedOn s enc) : Set.InjOn enc s := by
  intro a ha b hb heq
  refine (h ha hb (?_ : enc a ++ [] = enc b ++ [])).1
  rw [heq]

theorem DelimitedOn.of_length {width : Nat} (hlength : ∀ a ∈ s, (enc a).length = width)
    (hinj : Set.InjOn enc s) : DelimitedOn s enc := by
  intro a ha b hb rest rest' heq
  obtain ⟨hcode, hrest⟩ :=
    append_inj heq ((hlength a ha).trans (hlength b hb).symm)
  exact ⟨hinj ha hb hcode, hrest⟩

variable (h : DelimitedOn s enc)

include h

theorem DelimitedOn.mono {s' : Set α} (hsub : s' ⊆ s) : DelimitedOn s' enc :=
  fun _ ha _ hb _ _ heq => h (hsub ha) (hsub hb) heq

theorem DelimitedOn.comp {f : γ → α} (hmaps : Set.MapsTo f t s)
    (hinj : Set.InjOn f t) : DelimitedOn t fun c => enc (f c) := by
  intro a ha b hb rest rest' heq
  obtain ⟨hvalue, hrest⟩ := h (hmaps ha) (hmaps hb) heq
  exact ⟨hinj ha hb hvalue, hrest⟩

theorem DelimitedOn.prod (h' : DelimitedOn t enc') :
    DelimitedOn (s ×ˢ t) fun p => enc p.1 ++ enc' p.2 := by
  rintro ⟨a, c⟩ ⟨ha, hc⟩ ⟨b, d⟩ ⟨hb, hd⟩ rest rest' heq
  simp only [append_assoc] at heq
  obtain ⟨rfl, heq'⟩ := h ha hb heq
  obtain ⟨rfl, hrest⟩ := h' hc hd heq'
  exact ⟨rfl, hrest⟩

theorem DelimitedOn.flatMap {as bs : List α} {rest rest' : List β}
    (hlength : as.length = bs.length) (has : ∀ a ∈ as, a ∈ s) (hbs : ∀ b ∈ bs, b ∈ s)
    (heq : as.flatMap enc ++ rest = bs.flatMap enc ++ rest') : as = bs ∧ rest = rest' := by
  -- along both lists at once: the first codes agree, and then what follows them
  induction as generalizing bs with
  | nil =>
    obtain rfl : bs = [] := length_eq_zero_iff.1 hlength.symm
    exact ⟨rfl, heq⟩
  | cons a as ih =>
    cases bs with
    | nil => cases hlength
    | cons b bs =>
      simp only [flatMap_cons, append_assoc] at heq
      obtain ⟨rfl, htail⟩ := h (has a mem_cons_self) (hbs b mem_cons_self) heq
      obtain ⟨rfl, hrest⟩ := ih (Nat.succ.inj hlength) (fun c hc => has c (mem_cons_of_mem _ hc))
        (fun c hc => hbs c (mem_cons_of_mem _ hc)) htail
      exact ⟨rfl, hrest⟩

end Delimited

/-! ## Numbers and texts -/

theorem delimitedOn_beBytes : DelimitedOn {n | n < 256 ^ width} (beBytes width) :=
  .of_length (fun _ _ => length_beBytes width _) (beBytes_injOn width)

/-- Bytes behind their number. -/
def counted (width : Nat) (bytes : List UInt8) : List UInt8 := beBytes width bytes.length ++ bytes

theorem delimitedOn_counted : DelimitedOn {bytes | bytes.length < 256 ^ width} (counted width) := by
  intro a ha b hb rest rest' heq
  simp only [counted, append_assoc] at heq
  obtain ⟨hlength, hbytes⟩ := delimitedOn_beBytes width ha hb heq
  exact append_inj hbytes hlength

/-- The bytes of a text. -/
def utf8 (text : String) : List UInt8 := text.toByteArray.data.toList

theorem utf8_injective : Function.Injective utf8 := by
  intro a b h
  apply String.toByteArray_inj.1
  apply ByteArray.ext
  exact Array.toList_inj.1 h

/-- The text that the bytes are, if they are one. -/
def readUtf8 (bytes : List UInt8) : Option String := String.fromUTF8? ⟨bytes.toArray⟩

@[simp]
theorem readUtf8_utf8 (text : String) : readUtf8 (utf8 text) = some text := by
  have hbytes : (⟨(utf8 text).toArray⟩ : ByteArray) = text.toByteArray :=
    ByteArray.ext Array.toArray_toList
  rw [readUtf8, hbytes, String.fromUTF8?, dif_pos text.isValidUTF8]
  rfl

theorem delimitedOn_countedText :
    DelimitedOn {text | (utf8 text).length < 256 ^ width} fun text => counted width (utf8 text) :=
  (delimitedOn_counted width).comp (fun _ h => h) utf8_injective.injOn

end BicDb.Foundation
