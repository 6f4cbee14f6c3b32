import BicDb.Foundation.OrderedCode
import BicDb.Sql.NumericTypmod
import Mathlib.Algebra.Order.Floor.Semifield
import Mathlib.Data.List.DropRight

/-!
# Numeric values on the wire

The binary form of a numeric is a row of base-10000 digits with the weight of the first, a sign and
a display scale. Decimal texts are given by their parts.

## What this module delivers

* `numeric_wire_exact`: what is encoded is decoded to the same number.
* `negative_scale_is_lost`: the display scale need not be the same.
-/

namespace BicDb.Sql

open BicDb.Foundation List

/-- A text `[-]whole[.fraction]`; the point stands where there is a fraction. -/
structure DecimalText where
  negative : Bool
  whole : List (Fin 10)
  fraction : List (Fin 10)

/-- A numeric as text. -/
inductive NumericText where
  | nan
  | infinity
  | negativeInfinity
  | decimal (text : DecimalText)

/-- The errors of decoding. -/
inductive NumericWireError where
  | short (length : ℕ)
  | length (expected ndigits length : ℕ)
  | invalidSign (sign : ℕ)
  | displayScale (dscale : ℕ)
  | invalidDigit (digit : ℕ)
  | scaleRange
  | weightRange
  | digitCount

def numericPos : ℕ := 0x0000

def numericNeg : ℕ := 0x4000

def numericNan : ℕ := 0xC000

def numericPinf : ℕ := 0xD000

def numericNinf : ℕ := 0xF000

def numericDscaleMask : ℕ := 0x3FFF

/-! ## Texts -/

/-- `to_decimal_text` of a finite value. -/
def toDecimalText (negative : Bool) (coefficient : List (Fin 10)) (displayScale : ℤ) :
    DecimalText :=
  if coefficient = [0] ∧ displayScale ≤ 0 then ⟨negative, [0], []⟩
  else if displayScale = 0 then ⟨negative, coefficient, []⟩
  else if displayScale < 0 then ⟨negative, coefficient ++ replicate displayScale.natAbs 0, []⟩
  else
    let scale := displayScale.toNat
    if coefficient.length ≤ scale then
      ⟨negative, [0], replicate (scale - coefficient.length) 0 ++ coefficient⟩
    else
      let split := coefficient.length - scale
      ⟨negative, coefficient.take split, coefficient.drop split⟩

/-- `from_decimal_text` of a text without an exponent. -/
def fromDecimalText (text : DecimalText) : Except NumericError PgNumeric := do
  if text.whole = [] ∧ text.fraction = [] then throw .invalidNumericCoefficient
  let whole := text.whole.dropWhile (· = 0)
  let fraction := if whole = [] then text.fraction.dropWhile (· = 0) else text.fraction
  let coefficient := orZero (whole ++ fraction)
  if i32Max < text.fraction.length then throw .numericOverflow
  let value ← PgNumeric.ofCoefficient text.negative coefficient text.fraction.length
  -- `validate_unconstrained_range`
  if 16383 < text.fraction.length then throw .numericOverflow
  if coefficient ≠ [0] ∧ 131072 < (coefficient.length - text.fraction.length : ℤ) then
    throw .numericOverflow
  return value

/-! ## Decoding -/

/-- The fields of the binary format. -/
structure WireNumeric where
  weight : ℤ
  sign : ℕ
  dscale : ℕ
  digits : List ℕ

/-- `chunks_exact(2)`, each read as a number. -/
def wireDigits : List UInt8 → List ℕ
  | high :: low :: rest => beNat [high, low] :: wireDigits rest
  | _ => []

/-- `i16::from_be_bytes`. -/
def readI16 (n : ℕ) : ℤ := if n < 2 ^ 15 then n else n - 2 ^ 16

/-- The header and the digits, where the length is as announced. -/
def readNumeric : List UInt8 → Except NumericWireError WireNumeric
  | n₀ :: n₁ :: w₀ :: w₁ :: s₀ :: s₁ :: d₀ :: d₁ :: rest =>
    let ndigits := beNat [n₀, n₁]
    if rest.length = ndigits * 2 then
      .ok ⟨readI16 (beNat [w₀, w₁]), beNat [s₀, s₁], beNat [d₀, d₁], wireDigits rest⟩
    else .error (.length (8 + ndigits * 2) ndigits (8 + rest.length))
  | bytes => .error (.short bytes.length)

/-- The digit at a place; zero outside. -/
def digitAt (digits : List ℕ) (index : ℤ) : ℕ :=
  if 0 ≤ index then digits.getD index.toNat 0 else 0

/-- A digit with its leading zeros, `{digit:04}`. -/
def padded (digit : ℕ) : List (Fin 10) :=
  [Fin.ofNat 10 (digit / 1000), Fin.ofNat 10 (digit / 100), Fin.ofNat 10 (digit / 10),
    Fin.ofNat 10 digit]

/-- The first group is written without leading zeros. -/
def wholeText : List ℕ → List (Fin 10)
  | [] => []
  | digit :: rest => orZero ((padded digit).dropWhile (· = 0)) ++ rest.flatMap padded

/-- The text of the fields. -/
def decimalText (value : WireNumeric) : DecimalText where
  negative := value.sign = numericNeg && value.digits.any (· ≠ 0)
  whole :=
    if 0 ≤ value.weight then
      wholeText ((range (value.weight.toNat + 1)).map fun k : ℕ => digitAt value.digits k)
    else [0]
  fraction :=
    (((range ((value.dscale + 3) / 4)).map fun k : ℕ =>
      digitAt value.digits (value.weight + 1 + k)).flatMap padded).take value.dscale

/-- Decodes a parameter. -/
def decodeBinaryNumericParameter (bytes : List UInt8) : Except NumericWireError NumericText := do
  let value ← readNumeric bytes
  if value.sign = numericNan then return .nan
  if value.sign = numericPinf then return .infinity
  if value.sign = numericNinf then return .negativeInfinity
  if value.sign ≠ numericPos ∧ value.sign ≠ numericNeg then throw (.invalidSign value.sign)
  if numericDscaleMask < value.dscale then throw (.displayScale value.dscale)
  match value.digits.find? (9999 < ·) with
  | some digit => throw (.invalidDigit digit)
  | none => return .decimal (decimalText value)

/-! ## Encoding -/

/-- `chunks_exact(4)`, each parsed as a number. -/
def baseDigits : List (Fin 10) → List ℕ
  | a :: b :: c :: d :: rest => decimal [a, b, c, d] :: baseDigits rest
  | _ => []

def numericBinaryHeader (ndigits : ℕ) (weight : ℤ) (sign dscale : ℕ) : List UInt8 :=
  beBytes 2 ndigits ++ beBytes 2 (weight % 2 ^ 16).toNat ++ beBytes 2 sign ++ beBytes 2 dscale

/-- The groups of four around the point, without leading and trailing zeros, and the weight of the
first one. -/
def groupDigits (whole fraction : List (Fin 10)) : ℤ × List ℕ :=
  let whole := orZero (whole.dropWhile (· = 0))
  let wholeGroups := (whole.length + 3) / 4
  let grouped := replicate (wholeGroups * 4 - whole.length) 0 ++ whole ++ fraction ++
    replicate ((4 - fraction.length % 4) % 4) 0
  let digits := baseDigits grouped
  let leadingZeroes := (digits.takeWhile (· = 0)).length
  let digits := (digits.dropWhile (· = 0)).rdropWhile (· = 0)
  (if digits = [] then 0 else wholeGroups - 1 - leadingZeroes, digits)

/-- `encode_binary_numeric_result`, from the value that its text gives. -/
def encodeBinaryNumericResult : PgNumeric → Except NumericWireError (List UInt8)
  | .nan => .ok (numericBinaryHeader 0 0 numericNan 0)
  | .positiveInfinity => .ok (numericBinaryHeader 0 0 numericPinf 0)
  | .negativeInfinity => .ok (numericBinaryHeader 0 0 numericNinf 0)
  | .finite negative coefficient displayScale =>
    let text := toDecimalText negative coefficient displayScale
    let dscale := text.fraction.length
    let (weight, digits) := groupDigits text.whole text.fraction
    if 2 ^ 16 ≤ dscale then .error .scaleRange
    else if numericDscaleMask < dscale then .error (.displayScale dscale)
    else if weight < -2 ^ 15 ∨ 2 ^ 15 ≤ weight then .error .weightRange
    else if 2 ^ 16 ≤ digits.length then .error .digitCount
    else .ok (numericBinaryHeader digits.length weight
      (if negative then numericNeg else numericPos) dscale ++ digits.flatMap (beBytes 2))

/-! ## What the digits stand for -/

/-- The sum of the digits with their weights. -/
def wireSum (weight : ℤ) : List ℕ → ℚ
  | [] => 0
  | digit :: rest => digit * 10000 ^ weight + wireSum (weight - 1) rest

/-- The digits up to the point. -/
def wirePart (weight : ℤ) : List ℕ → ℕ
  | [] => 0
  | digit :: rest =>
    if 0 ≤ weight then digit * 10000 ^ weight.toNat + wirePart (weight - 1) rest else 0

def DecimalText.number (text : DecimalText) : ℕ := decimal (text.whole ++ text.fraction)

/-- The number a text stands for. -/
def DecimalText.value (text : DecimalText) : ℚ :=
  signed text.negative text.number * 10 ^ (-text.fraction.length : ℤ)

section Sums

variable {digits : List ℕ}

theorem wireSum_nonneg (weight : ℤ) (digits : List ℕ) : 0 ≤ wireSum weight digits := by
  induction digits generalizing weight with
  | nil => exact le_rfl
  | cons digit rest ih =>
    rw [wireSum]
    have := ih (weight - 1)
    positivity

theorem wireSum_add (weight : ℤ) (digits : List ℕ) (n : ℕ) :
    wireSum (weight + n) digits = wireSum weight digits * 10000 ^ n := by
  induction digits generalizing weight with
  | nil => simp [wireSum]
  | cons digit rest ih =>
    have hih := ih (weight - 1)
    rw [wireSum, wireSum, show weight + n - 1 = weight - 1 + n by ring, hih,
      zpow_add₀ (by norm_num), zpow_natCast]
    ring

theorem wirePart_of_neg {weight : ℤ} (h : weight < 0) (digits : List ℕ) :
    wirePart weight digits = 0 := by
  cases digits with
  | nil => rfl
  | cons digit rest => exact if_neg (not_le.2 h)

/-- One more digit. -/
theorem wirePart_succ (weight : ℤ) (digits : List ℕ) :
    wirePart (weight + 1) digits =
      wirePart weight digits * 10000 + digitAt digits (weight + 1) := by
  induction digits generalizing weight with
  | nil => simp [wirePart, digitAt]
  | cons digit rest ih =>
    rcases lt_trichotomy (weight + 1) 0 with hneg | hzero | hpos
    · rw [wirePart_of_neg hneg, wirePart_of_neg (by omega), digitAt, if_neg (by omega)]
    · rw [hzero, wirePart_of_neg (show weight < 0 by omega), wirePart,
        wirePart_of_neg (show (0 : ℤ) - 1 < 0 by omega)]
      simp [digitAt]
    · obtain ⟨n, rfl⟩ : ∃ n : ℕ, weight = n := ⟨weight.toNat, by omega⟩
      have hih := ih (n - 1)
      have hat : digitAt (digit :: rest) (n + 1) = digitAt rest n := by
        simp [digitAt, show ((n : ℤ) + 1).toNat = n + 1 by omega, show (0 : ℤ) ≤ n + 1 by omega]
      rw [wirePart, wirePart, if_pos (by omega), if_pos (by omega), hat]
      simp only [sub_add_cancel, add_sub_cancel_right] at hih ⊢
      rw [hih, show ((n : ℤ) + 1).toNat = n + 1 by omega, Int.toNat_natCast]
      ring

variable (hdigits : ∀ digit ∈ digits, digit ≤ 9999)

include hdigits

theorem wireSum_lt (weight : ℤ) : wireSum weight digits < 10000 ^ (weight + 1) := by
  induction digits generalizing weight with
  | nil => exact zpow_pos (by norm_num) _
  | cons digit rest ih =>
    obtain ⟨hdigit, hrest⟩ := forall_mem_cons.1 hdigits
    have hlt := ih hrest (weight - 1)
    rw [sub_add_cancel] at hlt
    rw [wireSum, zpow_add_one₀ (by norm_num)]
    have hle : (digit : ℚ) * 10000 ^ weight ≤ 9999 * 10000 ^ weight :=
      mul_le_mul_of_nonneg_right (by exact_mod_cast hdigit) (zpow_nonneg (by norm_num) _)
    linarith

theorem floor_wireSum (weight : ℤ) : ⌊wireSum weight digits⌋₊ = wirePart weight digits := by
  rw [Nat.floor_eq_iff (wireSum_nonneg _ _)]
  induction digits generalizing weight with
  | nil => simp [wirePart, wireSum]
  | cons digit rest ih =>
    by_cases hneg : weight < 0
    · -- all digits stand behind the point
      have hone : (10000 : ℚ) ^ (weight + 1) ≤ 10000 ^ (0 : ℤ) :=
        zpow_le_zpow_right₀ (by norm_num) (by omega)
      rw [wirePart_of_neg hneg]
      refine ⟨by simpa using wireSum_nonneg weight (digit :: rest), ?_⟩
      simpa using (wireSum_lt hdigits weight).trans_le hone
    · obtain ⟨n, rfl⟩ : ∃ n : ℕ, weight = n := ⟨weight.toNat, by omega⟩
      obtain ⟨hle, hlt⟩ := ih (forall_mem_cons.1 hdigits).2 (n - 1)
      rw [wirePart, wireSum, if_pos (by omega), Int.toNat_natCast, zpow_natCast]
      push_cast
      constructor <;> linarith

end Sums

/-! ## The decoded text -/

theorem orZero_ne_nil (digits : List (Fin 10)) : orZero digits ≠ [] := by
  unfold orZero
  split_ifs with h
  · simp
  · exact h

theorem decimal_padded {digit : ℕ} (h : digit ≤ 9999) : decimal (padded digit) = digit := by
  simp [padded, decimal, Nat.ofDigits]
  omega

theorem length_flatMap_padded (groups : List ℕ) :
    (groups.flatMap padded).length = groups.length * 4 := by
  induction groups with
  | nil => rfl
  | cons digit rest ih =>
    rw [flatMap_cons, length_append, ih, length_cons, Nat.succ_mul, Nat.add_comm]
    rfl

theorem decimal_wholeText (groups : List ℕ) :
    decimal (wholeText groups) = decimal (groups.flatMap padded) := by
  cases groups with
  | nil => rfl
  | cons digit rest =>
    rw [wholeText, decimal_append, decimal_orZero, decimal_dropWhile, flatMap_cons, decimal_append]

/-- Cutting digits off divides by a power of ten. -/
theorem decimal_take (base digits : List (Fin 10)) (n : ℕ) :
    decimal (base ++ digits.take n) = decimal (base ++ digits) / 10 ^ (digits.length - n) := by
  have hlt := decimal_lt (digits.drop n)
  rw [length_drop] at hlt
  have hsplit : decimal (base ++ digits) =
      decimal (base ++ digits.take n) * 10 ^ (digits.length - n) + decimal (digits.drop n) := by
    rw [← length_drop, ← decimal_append, append_assoc, take_append_drop]
  rw [hsplit, Nat.mul_comm, Nat.mul_add_div (Nat.pos_of_ne_zero (by simp)), Nat.div_eq_of_lt hlt,
    Nat.add_zero]

section Decoded

variable {digits : List ℕ} (hdigits : ∀ digit ∈ digits, digit ≤ 9999)

include hdigits

theorem digitAt_le (index : ℤ) : digitAt digits index ≤ 9999 := by
  unfold digitAt
  split_ifs
  · rw [getD_eq_getElem?_getD]
    cases hget : digits[index.toNat]? with
    | none => simp
    | some digit => exact hdigits digit (mem_of_getElem? hget)
  · simp

/-- Digits written one after the other, from a weight down. -/
theorem decimal_groups {base : List (Fin 10)} {weight : ℤ}
    (hbase : decimal base = wirePart weight digits) (n : ℕ) :
    decimal (base ++ ((range n).map fun k : ℕ => digitAt digits (weight + 1 + k)).flatMap padded) =
      wirePart (weight + n) digits := by
  induction n with
  | zero => simpa using hbase
  | succ n ih =>
    rw [range_succ, map_append, flatMap_append, ← append_assoc, decimal_append, ih]
    have hlast := decimal_padded (digitAt_le hdigits (weight + 1 + n))
    have hstep := wirePart_succ (weight + n) digits
    rw [show weight + n + 1 = weight + 1 + n by ring] at hstep
    simp only [map_cons, map_nil, flatMap_cons, flatMap_nil, append_nil, hlast]
    rw [Nat.cast_succ, show weight + (n + 1) = weight + 1 + n by ring, hstep]
    simp [padded]

end Decoded

/-- Groups of four digits, counted in digits. -/
theorem pow_groups {n pad groups : ℕ} (h : n + pad = 4 * groups) :
    (10000 : ℚ) ^ groups = 10 ^ n * 10 ^ pad := by
  rw [← pow_add, h, pow_mul]
  norm_num

theorem decimalText_exact {value : WireNumeric} (hdigits : ∀ digit ∈ value.digits, digit ≤ 9999) :
    (decimalText value).whole ≠ [] ∧ (decimalText value).fraction.length = value.dscale ∧
      (decimalText value).number = ⌊wireSum value.weight value.digits * 10 ^ value.dscale⌋₊ := by
  have hwhole : (decimalText value).whole ≠ [] ∧
      decimal (decimalText value).whole = wirePart value.weight value.digits := by
    simp only [decimalText]
    split_ifs with hweight
    · refine ⟨?_, ?_⟩
      · rw [range_succ_eq_map]
        exact append_ne_nil_of_left_ne_nil (orZero_ne_nil _) _
      · have h := @decimal_groups _ hdigits [] (-1) (wirePart_of_neg (by decide) _).symm
          (value.weight.toNat + 1)
        rw [decimal_wholeText]
        simpa [hweight] using h
    · exact ⟨by simp, (wirePart_of_neg (not_le.1 hweight) _).symm⟩
  have hgroups := decimal_groups hdigits hwhole.2 ((value.dscale + 3) / 4)
  refine ⟨hwhole.1, ?_, ?_⟩
  · simp only [decimalText, length_take, length_flatMap_padded, length_map, length_range]
    omega
  · have hpow := pow_groups (show value.dscale + ((value.dscale + 3) / 4 * 4 - value.dscale) =
      4 * ((value.dscale + 3) / 4) by omega)
    have hcut := decimal_take (decimalText value).whole
      (((range ((value.dscale + 3) / 4)).map fun k : ℕ =>
        digitAt value.digits (value.weight + 1 + k)).flatMap padded) value.dscale
    refine hcut.trans ?_
    rw [hgroups, length_flatMap_padded, length_map, length_range, ← floor_wireSum hdigits,
      wireSum_add, hpow, ← Nat.floor_div_natCast]
    congr 1
    push_cast
    field_simp

/-! ## The groups of a text -/

theorem baseDigits_spec (text : List (Fin 10)) (n : ℕ) (h : text.length = 4 * n) :
    (baseDigits text).length = n ∧ (∀ digit ∈ baseDigits text, digit ≤ 9999) ∧
      wireSum (n - 1) (baseDigits text) = decimal text := by
  induction n generalizing text with
  | zero =>
    obtain rfl : text = [] := length_eq_zero_iff.1 h
    exact ⟨rfl, by simp [baseDigits], by simp [baseDigits, wireSum, decimal]⟩
  | succ n ih =>
    rcases text with _ | ⟨a, _ | ⟨b, _ | ⟨c, _ | ⟨d, rest⟩⟩⟩⟩ <;>
      simp only [length_cons, length_nil] at h
    iterate 4 omega
    · have hrest : rest.length = 4 * n := by omega
      obtain ⟨hlength, hdigits, hsum⟩ := ih rest hrest
      have hlt : decimal [a, b, c, d] < 10000 := by simpa using decimal_lt [a, b, c, d]
      refine ⟨by simp [baseDigits, hlength], forall_mem_cons.2 ⟨by omega, hdigits⟩, ?_⟩
      rw [baseDigits, wireSum, Nat.cast_succ, add_sub_cancel_right, hsum,
        show a :: b :: c :: d :: rest = [a, b, c, d] ++ rest from rfl, decimal_append, hrest,
        zpow_natCast, pow_mul]
      push_cast
      norm_num

theorem wireSum_dropWhile (weight : ℤ) (digits : List ℕ) :
    wireSum (weight - (digits.takeWhile (· = 0)).length) (digits.dropWhile (· = 0)) =
      wireSum weight digits := by
  induction digits generalizing weight with
  | nil => rfl
  | cons digit rest ih =>
    by_cases hzero : digit = 0
    · subst hzero
      rw [takeWhile_cons_of_pos (by simp), dropWhile_cons_of_pos (by simp), wireSum, length_cons,
        ← ih (weight - 1), Nat.cast_succ, sub_sub, add_comm (1 : ℤ)]
      simp
    · rw [takeWhile_cons_of_neg (by simpa using hzero),
        dropWhile_cons_of_neg (by simpa using hzero)]
      simp

theorem wireSum_rdropWhile (weight : ℤ) (digits : List ℕ) :
    wireSum weight (digits.rdropWhile (· = 0)) = wireSum weight digits := by
  have hzero : ∀ (digits : List ℕ) (weight : ℤ),
      wireSum weight (digits ++ [0]) = wireSum weight digits := by
    intro digits
    induction digits with
    | nil => simp [wireSum]
    | cons digit rest ih => simp [wireSum, ih]
  induction digits using reverseRecOn with
  | nil => rfl
  | append_singleton digits digit ih =>
    by_cases h : digit = 0
    · rw [h, rdropWhile_concat_pos _ _ _ (by simp), ih, hzero]
    · rw [rdropWhile_concat_neg _ _ _ (by simpa using h)]

/-- **The groups of a text** stand for its number, the first is not zero, and their number is
bounded. -/
theorem groupDigits_spec {whole fraction : List (Fin 10)} {weight : ℤ} {digits : List ℕ}
    (h : groupDigits whole fraction = (weight, digits)) :
    (∀ digit ∈ digits, digit ≤ 9999) ∧
      wireSum weight digits * 10 ^ fraction.length = decimal (whole ++ fraction) ∧
      (digits = [] → weight = 0) ∧ (digits ≠ [] →
        (digits.length : ℤ) ≤ weight + 1 + (fraction.length + 3) / 4 ∧
          10000 ^ weight ≤ wireSum weight digits) := by
  obtain ⟨rfl, rfl⟩ := Prod.mk.inj h
  generalize hwhole : orZero (whole.dropWhile (· = 0)) = trimmed
  generalize hgroups : (trimmed.length + 3) / 4 = groups
  generalize hgrouped :
      replicate (groups * 4 - trimmed.length) (0 : Fin 10) ++ trimmed ++ fraction ++
    replicate ((4 - fraction.length % 4) % 4) 0 = grouped
  obtain ⟨hlength, hdigits, hsum⟩ := baseDigits_spec grouped (groups + (fraction.length + 3) / 4)
    (by simp only [← hgrouped, length_append, length_replicate]; omega)
  have hvalue : decimal grouped =
      decimal (whole ++ fraction) * 10 ^ ((4 - fraction.length % 4) % 4) := by
    rw [← hgrouped, ← hwhole]
    simp [decimal_append, decimal_replicate_zero, decimal_orZero, decimal_dropWhile]
    ring
  generalize baseDigits grouped = digits at *
  have hkept := wireSum_rdropWhile (groups - 1 - (digits.takeWhile (· = 0)).length)
    (digits.dropWhile (· = 0))
  rw [wireSum_dropWhile] at hkept
  have hparts := congrArg length (takeWhile_append_dropWhile (p := (· = 0)) (l := digits))
  have hkeep := rdropWhile_prefix (p := (· = 0)) (digits.dropWhile (· = 0))
  have hhead := head?_dropWhile_not (· = 0) digits
  generalize (digits.dropWhile (· = 0)).rdropWhile (· = 0) = kept at *
  refine ⟨fun digit hdigit => hdigits digit ?_, ?_, fun hnil => if_pos hnil, fun hne => ?_⟩
  · exact (dropWhile_sublist _).subset (hkeep.subset hdigit)
  · have hweight : wireSum (if kept = [] then 0 else groups - 1 - (digits.takeWhile (· = 0)).length)
        kept = wireSum (groups - 1) digits := by
      split_ifs with hnil
      · rw [← hkept, hnil]
        rfl
      · exact hkept
    have hpow := pow_groups (show fraction.length + (4 - fraction.length % 4) % 4 =
      4 * ((fraction.length + 3) / 4) by omega)
    rw [Nat.cast_add, add_sub_right_comm, wireSum_add, hpow, hvalue, ← mul_assoc] at hsum
    push_cast at hsum
    rw [hweight]
    exact mul_right_cancel₀ (by positivity) hsum
  · rw [length_append] at hparts
    have hle := hkeep.length_le
    obtain ⟨digit, rest, rfl⟩ := exists_cons_of_ne_nil hne
    rw [if_neg hne]
    refine ⟨by omega, ?_⟩
    obtain ⟨tail, htail⟩ := hkeep
    have hdigit : (1 : ℚ) ≤ digit := by
      rw [← htail] at hhead
      exact_mod_cast Nat.one_le_iff_ne_zero.2 (by simpa using hhead)
    have hpos : (0 : ℚ) < 10000 ^ (groups - 1 - (digits.takeWhile (· = 0)).length : ℤ) :=
      zpow_pos (by norm_num) _
    have hrest := wireSum_nonneg (groups - 1 - (digits.takeWhile (· = 0)).length - 1) rest
    rw [wireSum]
    nlinarith

/-! ## Bytes and texts -/

theorem exists_beBytes_two {n : ℕ} (h : n < 2 ^ 16) :
    ∃ high low, beBytes 2 n = [high, low] ∧ beNat [high, low] = n := by
  obtain ⟨high, low, hbytes⟩ := length_eq_two.1 (length_beBytes 2 n)
  exact ⟨high, low, hbytes, hbytes ▸ beNat_beBytes h⟩

theorem wireDigits_flatMap {digits : List ℕ} (hdigits : ∀ digit ∈ digits, digit ≤ 9999) :
    wireDigits (digits.flatMap (beBytes 2)) = digits ∧
      (digits.flatMap (beBytes 2)).length = digits.length * 2 := by
  induction digits with
  | nil => exact ⟨rfl, rfl⟩
  | cons digit rest ih =>
    obtain ⟨hdigit, hrest⟩ := forall_mem_cons.1 hdigits
    obtain ⟨high, low, hbytes, hdigit⟩ := exists_beBytes_two (show digit < 2 ^ 16 by omega)
    obtain ⟨ih, hlength⟩ := ih hrest
    rw [flatMap_cons, hbytes]
    refine ⟨?_, by simp [hlength, Nat.succ_mul]⟩
    rw [cons_append, cons_append, nil_append, wireDigits, hdigit, ih]

theorem readNumeric_encoded {weight : ℤ} {sign dscale : ℕ} {digits : List ℕ}
    (hweight : -2 ^ 15 ≤ weight ∧ weight < 2 ^ 15) (hsign : sign < 2 ^ 16)
    (hdscale : dscale < 2 ^ 16) (hcount : digits.length < 2 ^ 16)
    (hdigits : ∀ digit ∈ digits, digit ≤ 9999) :
    readNumeric (numericBinaryHeader digits.length weight sign dscale ++
      digits.flatMap (beBytes 2)) = .ok ⟨weight, sign, dscale, digits⟩ := by
  obtain ⟨n₀, n₁, hn, hcount⟩ := exists_beBytes_two hcount
  obtain ⟨w₀, w₁, hw, hweight'⟩ :=
    exists_beBytes_two (show (weight % 2 ^ 16).toNat < 2 ^ 16 by omega)
  obtain ⟨s₀, s₁, hs, hsign⟩ := exists_beBytes_two hsign
  obtain ⟨d₀, d₁, hd, hdscale⟩ := exists_beBytes_two hdscale
  obtain ⟨hread, hlength⟩ := wireDigits_flatMap hdigits
  have hsigned : readI16 (weight % 2 ^ 16).toNat = weight := by
    unfold readI16
    split_ifs <;> omega
  simp only [numericBinaryHeader, hn, hw, hs, hd, cons_append, nil_append, readNumeric, hcount,
    hweight', hsign, hdscale, hread, hlength, if_true, hsigned]

theorem toDecimalText_spec (negative : Bool) (coefficient : List (Fin 10)) (displayScale : ℤ) :
    (toDecimalText negative coefficient displayScale).fraction.length = displayScale.toNat ∧
      (toDecimalText negative coefficient displayScale).number =
        decimal coefficient * 10 ^ (-displayScale).toNat := by
  unfold toDecimalText DecimalText.number
  split_ifs with hzero hscale hneg
  · have : displayScale.toNat = 0 := by omega
    simp [hzero.1, this, decimal]
  · simp [hscale]
  · have : displayScale.toNat = 0 := by omega
    have habs : (-displayScale).toNat = displayScale.natAbs := by omega
    simp [this, habs, decimal_append, decimal_replicate_zero]
  · have hpos : (-displayScale).toNat = 0 := by omega
    dsimp only
    split_ifs with hlength
    · simp [hpos, decimal_append, decimal_cons, decimal_replicate_zero]
      omega
    · simp [hpos]
      omega

/-- A number is as large as it is long, where the first digit is not a zero. -/
theorem pow_le_decimal_cons {digit : Fin 10} (h : digit ≠ 0) (rest : List (Fin 10)) :
    10 ^ rest.length ≤ decimal (digit :: rest) := by
  rw [decimal_cons]
  have hpos : 0 < (digit : ℕ) := Nat.pos_of_ne_zero fun hzero => h (Fin.ext hzero)
  exact (Nat.le_mul_of_pos_left _ hpos).trans (Nat.le_add_right _ _)

/-- The text of a number that is not too large is read as that number. -/
theorem fromDecimalText_spec {text : DecimalText} (hwhole : text.whole ≠ [])
    (hscale : text.fraction.length ≤ 16383)
    (hlt : text.number < 10 ^ (131072 + text.fraction.length)) :
    ∃ coefficient, decimal coefficient = text.number ∧ fromDecimalText text =
      .ok (.finite (text.negative && text.number ≠ 0) coefficient text.fraction.length) := by
  unfold DecimalText.number at hlt ⊢
  have hmax : ¬i32Max < (text.fraction.length : ℤ) := by
    simp only [i32Max]
    omega
  have htrim : text.whole.dropWhile (· = 0) ++ (if text.whole.dropWhile (· = 0) = [] then
      text.fraction.dropWhile (· = 0) else text.fraction) =
        (text.whole ++ text.fraction).dropWhile (· = 0) := by
    rw [dropWhile_append]
    by_cases hnil : text.whole.dropWhile (· = 0) = []
    · simp [hnil]
    · simp [hnil]
  have hhead := head?_dropWhile_not (· = 0) (text.whole ++ text.fraction)
  have hsame := decimal_dropWhile (text.whole ++ text.fraction)
  refine ⟨orZero ((text.whole ++ text.fraction).dropWhile (· = 0)),
    by rw [decimal_orZero, hsame], ?_⟩
  simp only [fromDecimalText, htrim, hwhole, false_and, if_false, hmax, not_lt.2 hscale, ← hsame]
  rw [← hsame] at hlt
  cases htext : (text.whole ++ text.fraction).dropWhile (· = 0) with
  | nil => simp [orZero, PgNumeric.ofCoefficient, decimal, bind, Except.bind, pure, Except.pure]
  | cons digit rest =>
    have hdigit : digit ≠ 0 := by simpa [htext] using hhead
    have hle := pow_le_decimal_cons hdigit rest
    rw [htext] at hlt
    have hshort := (Nat.pow_lt_pow_iff_right (by decide)).1 (hle.trans_lt hlt)
    have hne : decimal (digit :: rest) ≠ 0 := ((Nat.pow_pos (by decide)).trans_le hle).ne'
    have hone : digit :: rest ≠ [0] := fun h => hdigit (cons.inj h).1
    have hfits : ¬131072 < ((digit :: rest).length - text.fraction.length : ℤ) := by
      rw [length_cons]
      omega
    simp only [orZero, reduceCtorEq, if_false, PgNumeric.ofCoefficient, hone, hfits]
    simp [hdigit, bind, Except.bind, pure, Except.pure]
    exact fun _ => hne

/-! ## The round trip -/

theorem wireSum_eq_zero {digits : List ℕ} (h : digits.any (· ≠ 0) = false) (weight : ℤ) :
    wireSum weight digits = 0 := by
  induction digits generalizing weight with
  | nil => rfl
  | cons digit rest ih =>
    simp only [any_cons, Bool.or_eq_false_iff] at h
    have hzero : digit = 0 := by simpa using h.1
    rw [wireSum, ih h.2, hzero]
    simp

theorem decimal_ne_zero {negative : Bool} {coefficient : List (Fin 10)} {displayScale : ℤ}
    (h : PgNumeric.ofCoefficient negative coefficient displayScale =
      .ok (.finite negative coefficient displayScale)) :
    negative = true → decimal coefficient ≠ 0 := by
  unfold PgNumeric.ofCoefficient at h
  split_ifs at h with hcanonical
  simp only [Except.ok.injEq, PgNumeric.finite.injEq, and_true] at h
  rintro rfl
  obtain ⟨digit, rest, rfl⟩ := exists_cons_of_ne_nil hcanonical.1
  have hdigit : digit ≠ 0 := by simpa using hcanonical.2.resolve_left fun hc => by simp [hc] at h
  exact ((Nat.pow_pos (by decide)).trans_le (pow_le_decimal_cons hdigit rest)).ne'

section RoundTrip

variable {negative : Bool} {coefficient : List (Fin 10)} {displayScale : ℤ}

theorem zpow_neg_scale (displayScale : ℤ) :
    (10 : ℚ) ^ (-displayScale) * 10 ^ displayScale.toNat = 10 ^ (-displayScale).toNat := by
  rw [← zpow_natCast, ← zpow_natCast, ← zpow_add₀ (by norm_num)]
  congr 1
  omega

/-- The groups of a value stand for it. -/
theorem wireSum_toDecimalText {text : DecimalText} {weight : ℤ} {digits : List ℕ}
    (htext : toDecimalText negative coefficient displayScale = text)
    (hgroups : groupDigits text.whole text.fraction = (weight, digits)) :
    wireSum weight digits = decimal coefficient * 10 ^ (-displayScale) := by
  obtain ⟨hlength, hnumber⟩ := htext ▸ toDecimalText_spec negative coefficient displayScale
  have hsum := (groupDigits_spec hgroups).2.1
  rw [← DecimalText.number, hnumber, Nat.cast_mul, Nat.cast_pow, Nat.cast_ofNat, hlength,
    ← zpow_neg_scale, ← mul_assoc] at hsum
  exact mul_right_cancel₀ (by positivity) hsum

/-- A value that is below `10000 ^ 32768` and has a display scale of 14 bits is encoded. -/
theorem encode_eq_ok (hscale : displayScale < 2 ^ 14)
    (hvalue : (decimal coefficient : ℚ) * 10 ^ (-displayScale) < 10000 ^ (2 ^ 15 : ℤ)) :
    ∃ bytes, encodeBinaryNumericResult (.finite negative coefficient displayScale) = .ok bytes := by
  generalize htext : toDecimalText negative coefficient displayScale = text
  obtain ⟨hlength, -⟩ := htext ▸ toDecimalText_spec negative coefficient displayScale
  rcases hgrouped : groupDigits text.whole text.fraction with ⟨weight, digits⟩
  obtain ⟨-, -, hempty, hgroups⟩ := groupDigits_spec hgrouped
  have hfits : -2 ^ 15 ≤ weight ∧ weight < 2 ^ 15 ∧ digits.length < 2 ^ 16 := by
    by_cases hnil : digits = []
    · simp [hempty hnil, hnil]
    · obtain ⟨hcount, hfirst⟩ := hgroups hnil
      rw [wireSum_toDecimalText htext hgrouped] at hfirst
      have hlt : weight < 2 ^ 15 :=
        (zpow_lt_zpow_iff_right₀ (by norm_num)).1 (hfirst.trans_lt hvalue)
      have hpos := length_pos_of_ne_nil hnil
      omega
  simp only [encodeBinaryNumericResult, htext, hgrouped]
  rw [if_neg (by omega), if_neg (by simp only [numericDscaleMask]; omega), if_neg (by omega),
    if_neg (by omega)]
  exact ⟨_, rfl⟩

/-- What is encoded is read back as digits of the same value. -/
theorem decode_encoded {bytes : List UInt8}
    (hbytes : encodeBinaryNumericResult (.finite negative coefficient displayScale) = .ok bytes) :
    ∃ value : WireNumeric, decodeBinaryNumericParameter bytes = .ok (.decimal (decimalText value)) ∧
      (∀ digit ∈ value.digits, digit ≤ 9999) ∧ value.weight < 2 ^ 15 ∧
      value.dscale = displayScale.toNat ∧ value.dscale ≤ 16383 ∧
      (value.sign = numericNeg ↔ negative = true) ∧
      wireSum value.weight value.digits = decimal coefficient * 10 ^ (-displayScale) := by
  generalize htext : toDecimalText negative coefficient displayScale = text
  obtain ⟨hlength, -⟩ := htext ▸ toDecimalText_spec negative coefficient displayScale
  rcases hgrouped : groupDigits text.whole text.fraction with ⟨weight, digits⟩
  obtain ⟨hdigits, -⟩ := groupDigits_spec hgrouped
  simp only [encodeBinaryNumericResult, htext, hgrouped] at hbytes
  generalize hsign : (if negative then numericNeg else numericPos) = sign at hbytes
  split_ifs at hbytes with hrange hscale hweight hcount
  cases hbytes
  have hread := @readNumeric_encoded weight sign text.fraction.length digits (by omega)
    (by subst hsign; cases negative <;> decide) (by omega) (by omega) hdigits
  have hfind : digits.find? (9999 < ·) = none := find?_eq_none.2 (by simpa using hdigits)
  refine ⟨⟨weight, sign, text.fraction.length, digits⟩, ?_, hdigits, by dsimp only; omega,
    hlength, not_lt.1 hscale, ?_, wireSum_toDecimalText htext hgrouped⟩
  · rw [decodeBinaryNumericParameter, hread, ← hsign]
    cases negative <;> simp [bind, Except.bind, pure, Except.pure, numericNeg, numericPos,
      numericNan, numericPinf, numericNinf, hscale, hfind]
  · rw [← hsign]
    cases negative <;> simp [numericNeg, numericPos]

/-- The text of such digits is read as the value, with the scale that was printed. -/
theorem fromDecimalText_decoded (hcanonical : PgNumeric.ofCoefficient negative coefficient
      displayScale = .ok (.finite negative coefficient displayScale)) {value : WireNumeric}
    (hdigits : ∀ digit ∈ value.digits, digit ≤ 9999) (hweight : value.weight < 2 ^ 15)
    (hdscale : value.dscale = displayScale.toNat) (hscale : value.dscale ≤ 16383)
    (hsign : value.sign = numericNeg ↔ negative = true)
    (hsum : wireSum value.weight value.digits = decimal coefficient * 10 ^ (-displayScale)) :
    ∃ coefficient', fromDecimalText (decimalText value) =
        .ok (.finite negative coefficient' (max displayScale 0)) ∧
      numericValue negative coefficient' (max displayScale 0) =
        numericValue negative coefficient displayScale := by
  obtain ⟨hwhole, hfraction, hexact⟩ := decimalText_exact hdigits
  have hminus : (decimalText value).negative =
    (value.sign = numericNeg && value.digits.any (· ≠ 0) : Bool) := rfl
  generalize decimalText value = text at *
  have hnumber : text.number = decimal coefficient * 10 ^ (-displayScale).toNat := by
    rw [hexact, hsum, hdscale, mul_assoc, zpow_neg_scale]
    exact_mod_cast Nat.floor_natCast _
  have hlt : text.number < 10 ^ (131072 + text.fraction.length) := by
    have hmax : (10000 : ℚ) ^ (value.weight + 1) ≤ 10000 ^ ((32768 : ℕ) : ℤ) :=
      zpow_le_zpow_right₀ (by norm_num) (by omega)
    have hbound := (wireSum_lt hdigits value.weight).trans_le hmax
    rw [zpow_natCast, show (10000 : ℚ) = 10 ^ 4 by norm_num, ← pow_mul] at hbound
    rw [hexact, hfraction, Nat.floor_lt (mul_nonneg (wireSum_nonneg _ _) (by positivity)),
      Nat.cast_pow, pow_add]
    exact mul_lt_mul_of_pos_right hbound (by positivity)
  obtain ⟨coefficient', hcoefficient, hparsed⟩ :=
    fromDecimalText_spec hwhole (hfraction ▸ hscale) hlt
  have hnegative : (text.negative && text.number ≠ 0) = negative := by
    cases negative with
    | false => simp [hminus, hsign]
    | true =>
      have hzero := decimal_ne_zero hcanonical rfl
      have hany : value.digits.any (· ≠ 0) = true := by
        by_contra hnone
        rw [wireSum_eq_zero (by simpa using hnone)] at hsum
        simp [hzero, zpow_ne_zero] at hsum
      rw [hminus, hany, hnumber]
      simp [hsign, hzero]
  rw [hnegative, hfraction, hdscale, Int.toNat_eq_max] at hparsed
  refine ⟨coefficient', hparsed, ?_⟩
  have hpower : (10 : ℚ) ^ (-displayScale).toNat * 10 ^ (-max displayScale 0) =
      10 ^ (-displayScale) := by
    rw [← zpow_natCast, ← zpow_add₀ (by norm_num)]
    congr 1
    omega
  rw [numericValue, numericValue, hcoefficient, hnumber, ← hpower]
  cases negative <;> simp [signed, mul_assoc]

end RoundTrip

theorem decode_eq_decimal {bytes : List UInt8} {text : DecimalText}
    (h : decodeBinaryNumericParameter bytes = .ok (.decimal text)) :
    ∃ value, readNumeric bytes = .ok value ∧ (∀ digit ∈ value.digits, digit ≤ 9999) ∧
      decimalText value = text := by
  cases hread : readNumeric bytes with
  | error error => simp [decodeBinaryNumericParameter, hread, bind, Except.bind] at h
  | ok value =>
    simp only [decodeBinaryNumericParameter, hread, bind, Except.bind, pure, Except.pure] at h
    cases hfind : value.digits.find? (9999 < ·) with
    | some digit =>
      simp only [hfind] at h
      split_ifs at h <;> simp_all
    | none =>
      simp only [hfind] at h
      refine ⟨value, rfl, by simpa using find?_eq_none.1 hfind, ?_⟩
      split_ifs at h <;> simp_all

/-- **Numerics are exact on the wire**, but for a negative display scale, which becomes zero. -/
theorem numeric_wire_exact :
    (∀ negative coefficient displayScale,
      PgNumeric.ofCoefficient negative coefficient displayScale =
        .ok (.finite negative coefficient displayScale) →
      (displayScale < 2 ^ 14 →
        (decimal coefficient : ℚ) * 10 ^ (-displayScale) < 10000 ^ (2 ^ 15 : ℤ) →
        ∃ bytes, encodeBinaryNumericResult (.finite negative coefficient displayScale) =
          .ok bytes) ∧
      ∀ bytes, encodeBinaryNumericResult (.finite negative coefficient displayScale) = .ok bytes →
        ∃ text coefficient', decodeBinaryNumericParameter bytes = .ok (.decimal text) ∧
          fromDecimalText text = .ok (.finite negative coefficient' (max displayScale 0)) ∧
          numericValue negative coefficient' (max displayScale 0) =
            numericValue negative coefficient displayScale) ∧
    ∀ bytes text, decodeBinaryNumericParameter bytes = .ok (.decimal text) →
      ∃ value, readNumeric bytes = .ok value ∧ text.fraction.length = value.dscale ∧
        text.value = signed (value.sign = numericNeg)
          ⌊wireSum value.weight value.digits * 10 ^ value.dscale⌋₊ * 10 ^ (-value.dscale : ℤ) := by
  refine ⟨fun negative coefficient displayScale hcanonical => ⟨encode_eq_ok, ?_⟩, ?_⟩
  · intro bytes hbytes
    obtain ⟨value, hdecode, hdigits, hweight, hdscale, hscale, hsign, hsum⟩ :=
      decode_encoded hbytes
    obtain ⟨coefficient', hparsed, hvalue⟩ :=
      fromDecimalText_decoded hcanonical hdigits hweight hdscale hscale hsign hsum
    exact ⟨_, coefficient', hdecode, hparsed, hvalue⟩
  · intro bytes text hdecode
    obtain ⟨value, hread, hdigits, rfl⟩ := decode_eq_decimal hdecode
    obtain ⟨-, hfraction, hexact⟩ := decimalText_exact hdigits
    refine ⟨value, hread, hfraction, ?_⟩
    rw [DecimalText.value, hexact, hfraction]
    -- a minus sign before digits that are all zero is not printed
    cases hany : value.digits.any (· ≠ 0) with
    | true => simp only [decimalText, hany, Bool.and_true]
    | false => simp [wireSum_eq_zero hany, signed]

/-- The fields of `-12.5`, which has a group on either side of the point. -/
theorem numeric_wire_exact_fraction :
    ∃ text coefficient',
      decodeBinaryNumericParameter [0, 2, 0, 0, 64, 0, 0, 1, 0, 12, 19, 136] =
        .ok (.decimal text) ∧
      fromDecimalText text = .ok (.finite true coefficient' (max 1 0)) ∧
      numericValue true coefficient' (max 1 0) = numericValue true [1, 2, 5] 1 :=
  (numeric_wire_exact.1 true [1, 2, 5] 1 rfl).2 _ rfl

/-- The value of `1e5` has display scale `-5` and comes back with display scale 0. -/
theorem negative_scale_is_lost :
    PgNumeric.ofCoefficient false [1] (-5) = .ok (.finite false [1] (-5)) ∧
      ∃ bytes text, encodeBinaryNumericResult (.finite false [1] (-5)) = .ok bytes ∧
        decodeBinaryNumericParameter bytes = .ok (.decimal text) ∧
        fromDecimalText text = .ok (.finite false [1, 0, 0, 0, 0, 0] 0) :=
  ⟨rfl, [0, 1, 0, 1, 0, 0, 0, 0, 0, 10], ⟨false, [1, 0, 0, 0, 0, 0], []⟩, rfl, rfl, rfl⟩

end BicDb.Sql
