import BicDb.Foundation.OrderedCode
import Mathlib.Data.FinEnum
import Mathlib.Tactic.IntervalCases

/-!
# Keys of bit strings

A `varbit` is indexed by its bits in base three, five symbols a byte: one for a zero, two for a one,
and a nought that ends them. The first symbol that differs decides its byte.

## What this module delivers

* `varbitOrderKey_embedding`: keys sort like the bits and tell them apart.
-/

namespace BicDb.Sql

open Foundation List

/-- As many bytes as the bits need, the highest bit first, unused bits zero. -/
structure PgBitString where
  bytes : List UInt8
  bitLen : Nat
  fits : bitLen ≤ bytes.length * 8
  tight : bytes.length * 8 - bitLen < 8
  padded : ∀ byte ∈ bytes.getLast?, byte.toNat % 2 ^ (bytes.length * 8 - bitLen) = 0

inductive BitStringError where
  | invalidBitLength (bitLen availableBits : Nat)
  | nonCanonicalBitPadding

namespace PgBitString

/-- Refuses a wrong length and padding that is not zero. -/
def new (bytes : List UInt8) (bitLen : Nat) : Except BitStringError PgBitString :=
  if h : bitLen ≤ bytes.length * 8 ∧ bytes.length * 8 - bitLen < 8 then
    if hpad : ∀ byte ∈ bytes.getLast?, byte.toNat % 2 ^ (bytes.length * 8 - bitLen) = 0 then
      .ok ⟨bytes, bitLen, h.1, h.2, hpad⟩
    else .error .nonCanonicalBitPadding
  else .error (.invalidBitLength bitLen (bytes.length * 8))

/-- The structure admits exactly what the constructor of the source accepts. -/
theorem new_eq_ok {bytes : List UInt8} {bitLen : Nat} {value : PgBitString} :
    new bytes bitLen = .ok value ↔ value.bytes = bytes ∧ value.bitLen = bitLen := by
  constructor
  · intro h
    unfold new at h
    split_ifs at h
    cases h
    exact ⟨rfl, rfl⟩
  · rintro ⟨rfl, rfl⟩
    rw [new, dif_pos ⟨value.fits, value.tight⟩, dif_pos value.padded]

variable (value : PgBitString)

/-- The first bit is the highest. -/
def bit (index : Nat) : Bool := (value.bytes.getD (index / 8) 0).toBitVec.getLsbD (7 - index % 8)

/-- `to_bit_text`, with `true` for the character of a one. -/
def toBitText : List Bool := (range value.bitLen).map value.bit

theorem bit_of_le {index : Nat} (h : value.bitLen ≤ index) : value.bit index = false := by
  have htight := value.tight
  by_cases hin : index / 8 < value.bytes.length
  · have hlast : value.bytes.getLast? = some value.bytes[index / 8] := by
      rw [getLast?_eq_getElem?, show value.bytes.length - 1 = index / 8 by omega,
        getElem?_eq_getElem hin]
    have hpad := congrArg (Nat.testBit · (7 - index % 8)) (value.padded _ hlast)
    have hunused : 7 - index % 8 < value.bytes.length * 8 - value.bitLen := by omega
    simpa [Nat.testBit_mod_two_pow, bit, BitVec.getLsbD, hin, hunused] using hpad
  · simp [bit, getElem?_eq_none (not_lt.1 hin)]

theorem toBitText_injective : Function.Injective toBitText := by
  intro x y h
  have hlen : x.bitLen = y.bitLen := by simpa [toBitText] using congrArg length h
  have hbit : ∀ index, x.bit index = y.bit index := by
    intro index
    rcases Nat.lt_or_ge index x.bitLen with hlt | hge
    · rw [toBitText, toBitText, ← hlen] at h
      exact map_inj_left.1 h index (mem_range.2 hlt)
    · rw [bit_of_le x hge, bit_of_le y (hlen ▸ hge)]
  obtain ⟨bytes, bitLen, hfits, htight, _⟩ := x
  obtain ⟨bytes', bitLen', hfits', htight', _⟩ := y
  cases hlen
  obtain rfl : bytes = bytes' := by
    refine ext_getElem (by omega) fun i hx hy => UInt8.toBitVec_inj.1 (BitVec.eq_of_getLsbD_eq ?_)
    intro k hk
    have hi := hbit (i * 8 + (7 - k))
    rw [bit, bit, show (i * 8 + (7 - k)) / 8 = i by omega,
      show 7 - (i * 8 + (7 - k)) % 8 = k by omega] at hi
    simpa [hx, hy] using hi
  rfl

end PgBitString

/-! ## The key -/

/-- The loop of `varbit_order_key`, with its byte and symbol count. -/
def packSymbols (encoded width : Nat) : List Nat → List UInt8
  | [] => if width ≠ 0 then [UInt8.ofNat (encoded * 3 ^ (5 - width))] else []
  | symbol :: rest =>
    if width + 1 = 5 then UInt8.ofNat (encoded * 3 + symbol) :: packSymbols 0 0 rest
    else packSymbols (encoded * 3 + symbol) (width + 1) rest

def varbitSymbols (bits : List Bool) : List Nat := bits.map (fun bit => if bit then 2 else 1) ++ [0]

/-- The key that orders bit strings. -/
def varbitOrderKey (value : PgBitString) : List UInt8 :=
  packSymbols 0 0 (varbitSymbols value.toBitText)

variable {encoded width : Nat} {s t : List Nat} {x y : Nat}

theorem packSymbols_head {k : Nat} (hk : width + k = 4) (he : encoded < 3 ^ width)
    (hs : ∀ a ∈ x :: s, a ≤ 2) :
    ∃ byte rest, packSymbols encoded width (x :: s) = byte :: rest ∧
      (encoded * 3 + x) * 3 ^ k ≤ byte.toNat ∧ byte.toNat < (encoded * 3 + x + 1) * 3 ^ k := by
  induction k generalizing encoded width x s with
  | zero =>
    obtain rfl : width = 4 := hk
    have hx := hs x mem_cons_self
    refine ⟨_, _, rfl, ?_⟩
    rw [UInt8.toNat_ofNat']
    omega
  | succ k ih =>
    obtain ⟨hx, hs⟩ := forall_mem_cons.1 hs
    have hnext : encoded * 3 + x < 3 ^ (width + 1) := by
      omega
    obtain rfl : width = 3 - k := by omega
    have hk : k ≤ 3 := by omega
    rw [packSymbols, if_neg (by omega)]
    cases s with
    | nil =>
      refine ⟨_, _, if_pos (Nat.succ_ne_zero _), ?_⟩
      rw [UInt8.toNat_ofNat']
      interval_cases k <;> omega
    | cons y s =>
      obtain ⟨byte, rest, heq, hbound⟩ := ih (by omega) hnext hs
      have hy := hs y mem_cons_self
      refine ⟨byte, rest, heq, ?_⟩
      interval_cases k <;> omega

theorem packSymbols_cons (hlt : width < 5) (he : encoded < 3 ^ width) (hxy : x < y)
    (hs : ∀ a ∈ x :: s, a ≤ 2) (ht : ∀ a ∈ y :: t, a ≤ 2) :
    Splits (packSymbols encoded width (x :: s)) (packSymbols encoded width (y :: t)) := by
  obtain ⟨k, hk⟩ : ∃ k, width + k = 4 := ⟨4 - width, by omega⟩
  obtain ⟨b, bs, hb, -, hhigh⟩ := packSymbols_head hk he hs
  obtain ⟨c, cs, hc, hlow, -⟩ := packSymbols_head hk he ht
  rw [hb, hc]
  refine .inl (UInt8.lt_iff_toNat_lt.2 (hhigh.trans_le (le_trans ?_ hlow)))
  exact Nat.mul_le_mul_right _ (by omega)

theorem varbitSymbols_le (bits : List Bool) : ∀ a ∈ varbitSymbols bits, a ≤ 2 := by
  simp only [varbitSymbols, mem_append, mem_map, mem_singleton]
  rintro a (⟨b, -, rfl⟩ | rfl)
  · cases b <;> decide
  · decide

theorem packSymbols_splits {u v : List Bool} (h : List.Lex (· < ·) u v) (hlt : width < 5)
    (he : encoded < 3 ^ width) :
    Splits (packSymbols encoded width (varbitSymbols u))
      (packSymbols encoded width (varbitSymbols v)) := by
  induction h generalizing encoded width with
  | @nil b l =>
    exact packSymbols_cons hlt he (by cases b <;> decide) (varbitSymbols_le [])
      (varbitSymbols_le (b :: l))
  | @rel a u b v hab =>
    exact packSymbols_cons hlt he (by revert hab; cases a <;> cases b <;> decide)
      (varbitSymbols_le (a :: u)) (varbitSymbols_le (b :: v))
  | @cons a u v _ ih =>
    have ha := varbitSymbols_le (a :: u) _ mem_cons_self
    show Splits (packSymbols _ _ (_ :: _)) (packSymbols _ _ (_ :: _))
    unfold packSymbols
    split_ifs with hfull
    · exact .inr ⟨rfl, ih (by decide) (by decide)⟩
    · refine ih (by omega) ?_
      omega

/-- **The keys sort like the bits** and tell them apart. -/
theorem varbitOrderKey_embedding (x y : PgBitString) :
    (varbitOrderKey x < varbitOrderKey y ↔ x.toBitText < y.toBitText) ∧
      (varbitOrderKey x = varbitOrderKey y → x = y) := by
  have hord : Ordered (· < ·) fun bits => packSymbols 0 0 (varbitSymbols bits) :=
    fun _ _ h => packSymbols_splits h (by decide) (by decide)
  refine ⟨lt_iff_of_total lt_trichotomy (fun _ _ h => (hord h).lt) _ _, fun heq => ?_⟩
  exact PgBitString.toBitText_injective
    (hord.delimitedOn lt_trichotomy trivial trivial (congrArg (· ++ []) heq)).1

end BicDb.Sql
