import Mathlib.Algebra.Order.Field.Power
import Mathlib.Data.Nat.Digits.Defs
import Mathlib.Data.Rat.Floor
import Mathlib.Order.Fin.Basic
import Mathlib.Tactic.Linarith

/-!
# Numeric values with a type modifier

`numeric(p, s)` rounds a value to `s` digits behind the point and refuses more than `p` digits. It
works on digits; what it computes is stated in the rationals.

The digit that decides is looked up in the coefficient as it is stored, without leading zeros, so
it may be missed. The main result, `PgNumeric.typmod_rounds`, says exactly when the result is the
nearest multiple: where the digit looked at decides, or does not round up (`DecidingDigit`).
`PgNumeric.typmod_rounds_up_small` is a value where it does not.
-/

namespace BicDb.Sql

open List

/-- A numeric value: digits and a display scale. -/
inductive PgNumeric where
  | nan
  | positiveInfinity
  | negativeInfinity
  | finite (negative : Bool) (coefficient : List (Fin 10)) (displayScale : Int)
  deriving DecidableEq

inductive NumericError where
  | invalidNumericCoefficient
  | numericOverflow
  deriving DecidableEq

instance neZeroTen : NeZero 10 := ⟨by decide⟩

def i32Max : Int := 2 ^ 31 - 1

def i32Min : Int := -2 ^ 31

/-- `increment_decimal_digits`, from the last digit on. -/
def incrementReversed : List (Fin 10) → List (Fin 10)
  | [] => [1]
  | digit :: rest => if digit < 9 then (digit + 1) :: rest else 0 :: incrementReversed rest

/-- Adds one. -/
def incrementDecimalDigits (digits : List (Fin 10)) : List (Fin 10) :=
  (incrementReversed digits.reverse).reverse

/-- No digits are written as a zero. -/
def orZero (digits : List (Fin 10)) : List (Fin 10) := if digits = [] then [0] else digits

namespace PgNumeric

/-- `PgNumeric::finite`. -/
def ofCoefficient (negative : Bool) (coefficient : List (Fin 10)) (displayScale : Int) :
    Except NumericError PgNumeric :=
  if coefficient ≠ [] ∧ (coefficient = [0] ∨ coefficient.head? ≠ some 0) then
    .ok (.finite (negative && coefficient ≠ [0]) coefficient displayScale)
  else .error .invalidNumericCoefficient

/-- The coefficient cut to `keep` digits and rounded. -/
def roundAt (coefficient : List (Fin 10)) (keep : Nat) : List (Fin 10) :=
  let kept := orZero (coefficient.take keep)
  if coefficient[keep]?.any (5 ≤ ·) then incrementDecimalDigits kept else kept

/-- The coefficient at another scale, rounded where it is cut. -/
def rescale (coefficient : List (Fin 10)) (displayScale targetScale : Int) : List (Fin 10) :=
  -- `saturating_sub`
  let remove := max i32Min (min i32Max (displayScale - targetScale))
  if 0 < remove then roundAt coefficient (coefficient.length - remove.toNat)
  else coefficient ++ List.replicate remove.natAbs 0

/-- The rest of `with_typmod`: the check of the digits. -/
def constrain (precision : UInt16) (targetScale : Int) (negative : Bool)
    (coefficient : List (Fin 10)) : Except NumericError PgNumeric := do
  let coefficient := orZero (coefficient.dropWhile (· = 0))
  let integerDigits ←
    if coefficient = [0] then .ok i32Min
    else if i32Max < coefficient.length then .error .numericOverflow
    else
      let digits := coefficient.length - targetScale
      if digits < i32Min ∨ i32Max < digits then .error .numericOverflow else .ok digits
  if precision.toNat - targetScale < integerDigits then .error .numericOverflow
  else ofCoefficient negative coefficient targetScale

/-- Rounds to the scale, and checks the precision. -/
def withTypmod (precision : UInt16) (scale : Int16) : PgNumeric → Except NumericError PgNumeric
  | .nan => .ok .nan
  | .positiveInfinity | .negativeInfinity => .error .numericOverflow
  | .finite negative coefficient displayScale =>
    constrain precision scale.toInt negative (rescale coefficient displayScale scale.toInt)

end PgNumeric

/-! ## Digits -/

/-- The number that digits write. -/
def decimal (digits : List (Fin 10)) : Nat := Nat.ofDigits 10 (digits.reverse.map Fin.val)

theorem decimal_append (a b : List (Fin 10)) :
    decimal (a ++ b) = decimal a * 10 ^ b.length + decimal b := by
  simp only [decimal, reverse_append, map_append, Nat.ofDigits_append, length_map, length_reverse]
  ring

theorem decimal_cons (d : Fin 10) (a : List (Fin 10)) :
    decimal (d :: a) = d * 10 ^ a.length + decimal a := by
  have h := decimal_append [d] a
  simpa [decimal] using h

theorem decimal_lt (a : List (Fin 10)) : decimal a < 10 ^ a.length := by
  induction a with
  | nil => simp [decimal]
  | cons d a ih =>
    rw [decimal_cons, length_cons, pow_succ]
    have := d.isLt
    nlinarith

theorem decimal_replicate_zero (n : Nat) : decimal (List.replicate n 0) = 0 := by
  induction n with
  | zero => rfl
  | succ n ih => simp [replicate_succ, decimal_cons, ih]

theorem decimal_orZero (a : List (Fin 10)) : decimal (orZero a) = decimal a := by
  unfold orZero
  split_ifs with ha
  · rw [ha]
    rfl
  · rfl

theorem decimal_dropWhile (a : List (Fin 10)) : decimal (a.dropWhile (· = 0)) = decimal a := by
  induction a with
  | nil => rfl
  | cons d a ih =>
    rw [dropWhile_cons]
    split_ifs with hd
    · rw [ih, decimal_cons, of_decide_eq_true hd]
      simp
    · rfl

theorem decimal_increment (a : List (Fin 10)) :
    decimal (incrementDecimalDigits a) = decimal a + 1 := by
  rw [incrementDecimalDigits, decimal, decimal, reverse_reverse]
  induction a.reverse with
  | nil => rfl
  | cons d rest ih =>
    rw [incrementReversed]
    split_ifs with hd
    · have : ((d + 1 : Fin 10) : Nat) = d + 1 := by omega
      simp only [map_cons, Nat.ofDigits_cons, this]
      omega
    · have : (d : Nat) = 9 := by omega
      simp only [map_cons, Nat.ofDigits_cons, ih, this]
      omega

/-! ## Rounding -/

/-- The nearest multiple of the unit, ties away from zero. -/
def IsNearest (unit v w : ℚ) : Prop :=
  (∃ n : ℤ, w = n * unit) ∧ ∀ m : ℤ,
    |v - w| ≤ |v - m * unit| ∧ (|v - m * unit| = |v - w| → |m * unit| ≤ |w|)

def signed (negative : Bool) (n : ℚ) : ℚ := if negative then -n else n

/-- The number a numeric stands for. -/
def numericValue (negative : Bool) (coefficient : List (Fin 10)) (displayScale : Int) : ℚ :=
  signed negative (decimal coefficient) * 10 ^ (-displayScale)

theorem nearest_nat {x : ℚ} (hx : 0 ≤ x) {n : ℕ} (hlo : n - 1 / 2 ≤ x) (hhi : x < n + 1 / 2)
    (k : ℤ) : |x - n| ≤ |x - k| ∧ (|x - k| = |x - n| → |(k : ℚ)| ≤ n) := by
  have hhalf : |x - n| ≤ 1 / 2 := abs_le.2 ⟨by linarith, by linarith⟩
  rcases lt_trichotomy k n with hlt | rfl | hgt
  · have hk : (k : ℚ) + 1 ≤ n := by exact_mod_cast hlt
    rw [abs_of_nonneg (by linarith : 0 ≤ x - k)]
    refine ⟨by linarith, fun htie => ?_⟩
    have hpos : 0 ≤ k := by
      have : (-1 : ℚ) < k := by linarith
      have : -1 < k := by exact_mod_cast this
      omega
    rw [abs_of_nonneg (by exact_mod_cast hpos)]
    linarith
  · simp
  · have hk : (n : ℚ) + 1 ≤ k := by exact_mod_cast hgt
    rw [abs_of_nonpos (by linarith : x - k ≤ 0)]
    exact ⟨by linarith, fun htie => by linarith⟩

theorem isNearest_signed {unit x : ℚ} (hunit : 0 < unit) (hx : 0 ≤ x) {n : ℕ}
    (hlo : n - 1 / 2 ≤ x) (hhi : x < n + 1 / 2) (negative : Bool) :
    IsNearest unit (signed negative x * unit) (signed negative n * unit) := by
  have hnear (k : ℤ) := nearest_nat hx hlo hhi k
  have habs (a : ℚ) : |a * unit| = |a| * unit := by rw [abs_mul, abs_of_pos hunit]
  constructor
  · exact ⟨if negative then -n else n, by cases negative <;> simp [signed]⟩
  · intro m
    have hfactor (a b : ℚ) : |a * unit - b * unit| = |a - b| * unit := by rw [← sub_mul, habs]
    rw [hfactor, hfactor, habs, habs, mul_le_mul_iff_left₀ hunit, mul_le_mul_iff_left₀ hunit,
      mul_left_inj' hunit.ne']
    cases negative with
    | false => simpa [signed] using hnear m
    | true =>
      have hneg (b : ℚ) : |-x + b| = |x + -b| := by rw [← abs_neg, neg_add, neg_neg]
      simpa [signed, hneg, sub_eq_add_neg] using hnear (-m)

namespace PgNumeric

/-- The deciding digit is one of the coefficient's, or the first digit, which is looked at in its
place, does not round up. -/
def DecidingDigit (coefficient : List (Fin 10)) (removed : Int) : Prop :=
  removed ≤ coefficient.length ∨ ∀ d ∈ coefficient.head?, d < 5

/-- Cutting off digits rounds to the nearest, unless the digit looked at is not the first one cut
off. -/
theorem roundAt_near {cs : List (Fin 10)} {removed : Nat} (hpos : 0 < removed)
    (hlead : DecidingDigit cs removed) :
    2 * decimal (roundAt cs (cs.length - removed)) * 10 ^ removed ≤ 2 * decimal cs + 10 ^ removed ∧
      2 * decimal cs < 2 * decimal
        (roundAt cs (cs.length - removed)) * 10 ^ removed + 10 ^ removed := by
  obtain ⟨k, rfl⟩ := Nat.exists_eq_add_one.2 hpos
  have hround (keep) : decimal (roundAt cs keep) =
      decimal (cs.take keep) + if cs[keep]?.any (5 ≤ ·) then 1 else 0 := by
    unfold roundAt
    split_ifs
    · rw [decimal_increment, decimal_orZero]
    · exact decimal_orZero _
  rw [hround]
  by_cases hle : k + 1 ≤ cs.length
  · obtain ⟨digit, rest, hcut⟩ := exists_cons_of_length_pos
      (l := cs.drop (cs.length - (k + 1))) (by rw [length_drop]; omega)
    have hrest : rest.length = k := by
      have := congrArg length hcut
      rw [length_drop, length_cons] at this
      omega
    have hdigit : cs[cs.length - (k + 1)]? = some digit := by
      rw [← head?_drop, hcut]
      rfl
    have hc : decimal cs = decimal (cs.take (cs.length - (k + 1))) * 10 ^ (k + 1) +
        (digit * 10 ^ k + decimal rest) := by
      conv_lhs => rw [← take_append_drop (cs.length - (k + 1)) cs, hcut]
      rw [decimal_append, length_cons, hrest, decimal_cons, hrest]
    have hlt := hrest ▸ decimal_lt rest
    rw [hc, hdigit, Option.any_some, pow_succ]
    split_ifs with hup
    · have := Nat.mul_le_mul_right (10 ^ k) (show 5 ≤ digit.val from of_decide_eq_true hup)
      have := Nat.mul_le_mul_right (10 ^ k) (show digit.val ≤ 9 by omega)
      constructor <;> linarith
    · have := Nat.mul_le_mul_right (10 ^ k) (show digit.val ≤ 4 by simp at hup; omega)
      have := Nat.zero_le (digit * 10 ^ k)
      constructor <;> linarith
  · -- nothing is kept
    have hlead := hlead.resolve_left (by omega)
    have hdigit : cs[0]?.any (5 ≤ ·) = false := by
      cases cs with
      | nil => rfl
      | cons d rest => simpa using hlead d rfl
    have hlt := (decimal_lt cs).trans_le (Nat.pow_le_pow_right (show 0 < 10 by decide)
      (show cs.length ≤ k by omega))
    rw [show cs.length - (k + 1) = 0 by omega, hdigit, if_neg nofun, pow_succ]
    change 2 * 0 * _ ≤ _ ∧ _ < 2 * 0 * _ + _
    constructor <;> omega

/-- Where the digit looked at decides, rescaling rounds to the nearest. -/
theorem rescale_near {c : List (Fin 10)} {displayScale scale : Int}
    (hlen : c.length ≤ i32Max) (hlead : DecidingDigit c (displayScale - scale)) :
    ∃ n : ℕ, (n - 1 / 2 : ℚ) ≤ decimal c * 10 ^ (scale - displayScale) ∧
      (decimal c * 10 ^ (scale - displayScale) : ℚ) < n + 1 / 2 ∧
      (decimal (rescale c displayScale scale) = n ∨ ∀ p < 2 ^ 16,
        10 ^ p ≤ n ∧ 10 ^ p ≤ decimal (rescale c displayScale scale)) := by
  unfold rescale i32Max i32Min at *
  dsimp only
  split_ifs with hpos
  · -- digits are removed
    obtain ⟨removed, hremoved⟩ : ∃ removed : ℕ, displayScale - scale = removed :=
      ⟨_, (Int.toNat_of_nonneg (by omega)).symm⟩
    -- if the subtraction has saturated, no digit is kept either way
    have hcut : c.length - (max (-2 ^ 31) (min (2 ^ 31 - 1) (displayScale - scale))).toNat =
        c.length - removed := by omega
    rw [hcut, show scale - displayScale = -(removed : ℤ) by omega, zpow_neg, zpow_natCast]
    obtain ⟨hlo, hhi⟩ := @roundAt_near c removed (by omega) (by simpa [hremoved] using hlead)
    have hlo : (2 * decimal (roundAt c (c.length - removed)) * 10 ^ removed : ℚ) ≤
      2 * decimal c + 10 ^ removed := by exact_mod_cast hlo
    have hhi : (2 * decimal c : ℚ) <
      2 * decimal (roundAt c (c.length - removed)) * 10 ^ removed + 10 ^ removed := by
      exact_mod_cast hhi
    refine ⟨_, ?_, ?_, .inl rfl⟩
    · rw [← div_eq_mul_inv, le_div_iff₀ (by positivity)]
      linarith
    · rw [← div_eq_mul_inv, div_lt_iff₀ (by positivity)]
      linarith
  · -- zeros are added
    obtain ⟨added, hadded⟩ : ∃ added : ℕ, scale - displayScale = added :=
      ⟨_, (Int.toNat_of_nonneg (by omega)).symm⟩
    obtain ⟨zeros, hzeros⟩ : ∃ zeros,
      (max (-2 ^ 31) (min (2 ^ 31 - 1) (displayScale - scale))).natAbs = zeros := ⟨_, rfl⟩
    rw [hzeros, hadded, zpow_natCast, decimal_append, decimal_replicate_zero, length_replicate]
    refine ⟨decimal c * 10 ^ added, ?_⟩
    push_cast
    refine ⟨by linarith, by linarith, ?_⟩
    by_cases hclamp : zeros = added
    · exact .inl (by rw [hclamp, add_zero])
    -- the subtraction has saturated
    rcases Nat.eq_zero_or_pos (decimal c) with hzero | hpos
    · exact .inl (by simp [hzero])
    refine .inr fun p hp => ?_
    constructor
    all_goals
      exact (Nat.pow_le_pow_right (by decide) (by omega)).trans (Nat.le_mul_of_pos_left _ hpos)

theorem constrain_spec (precision : UInt16) {scale : Int} (hlo : -2 ^ 15 ≤ scale)
    (hhi : scale < 2 ^ 15) (negative : Bool) (c : List (Fin 10)) :
    (10 ^ precision.toNat ≤ decimal c →
      constrain precision scale negative c = .error .numericOverflow) ∧
    (decimal c < 10 ^ precision.toNat → ∃ negative' c',
      constrain precision scale negative c = .ok (.finite negative' c' scale) ∧
        signed negative' (decimal c') = signed negative (decimal c)) := by
  have hp := precision.toNat_lt
  rw [← decimal_dropWhile c, ← decimal_orZero]
  unfold constrain
  cases hc : c.dropWhile (· = 0) with
  | nil =>
    have hfits : ¬ (precision.toNat - scale < i32Min) := by unfold i32Min; omega
    refine ⟨fun h => absurd h (by simp [orZero, decimal]), fun _ => ⟨false, [0], ?_, ?_⟩⟩
    · simp [orZero, Bind.bind, Except.bind, hfits, ofCoefficient]
    · simp [orZero, decimal, signed]
  | cons d rest =>
    have hd : d ≠ 0 := by
      have := head?_dropWhile_not (fun d : Fin 10 => decide (d = 0)) c
      rw [hc] at this
      simpa using this
    have hmin : 10 ^ rest.length ≤ decimal (d :: rest) := by
      rw [decimal_cons]
      have := Nat.le_mul_of_pos_left (10 ^ rest.length) (show 0 < d.val by omega)
      omega
    have hmax := decimal_lt (d :: rest)
    have hself : orZero (d :: rest) = d :: rest := rfl
    have hzero : d :: rest ≠ [0] := fun heq => hd (head_eq_of_cons_eq heq)
    rw [hself]
    simp only [if_neg hzero, Bind.bind]
    unfold i32Max i32Min
    refine ⟨fun h => ?_, fun h => ⟨negative, d :: rest, ?_, rfl⟩⟩
    · -- more digits than the precision
      have hlen := (Nat.pow_lt_pow_iff_right (by decide)).1 (h.trans_lt hmax)
      split_ifs
      · rfl
      · rfl
      · exact if_pos (by omega)
    · have hlen := (Nat.pow_lt_pow_iff_right (by decide)).1 (hmin.trans_lt h)
      rw [if_neg (by rw [length_cons]; omega), if_neg (by rw [length_cons]; omega)]
      refine (if_neg (by rw [length_cons]; omega)).trans ?_
      rw [ofCoefficient, if_pos ⟨nofun, .inr (by simpa using hd)⟩]
      simp [hzero]

/-- What a type modifier makes of a number. -/
def Rounds (precision : UInt16) (scale : Int16) (negative : Bool) (coefficient : List (Fin 10))
    (displayScale : Int) : Prop :=
  ∃ w, IsNearest (10 ^ (-scale.toInt)) (numericValue negative coefficient displayScale) w ∧
    (10 ^ (precision.toNat - scale.toInt) ≤ |w| →
      withTypmod precision scale (.finite negative coefficient displayScale) =
        .error .numericOverflow) ∧
    (|w| < 10 ^ (precision.toNat - scale.toInt) → ∃ negative' coefficient',
      withTypmod precision scale (.finite negative coefficient displayScale) =
        .ok (.finite negative' coefficient' scale.toInt) ∧
      numericValue negative' coefficient' scale.toInt = w)

/-- Then a type modifier rounds. -/
theorem rounds_of_decidingDigit {precision : UInt16} {scale : Int16} {negative : Bool}
    {coefficient : List (Fin 10)} {displayScale : Int} (hlen : coefficient.length ≤ i32Max)
    (hlead : DecidingDigit coefficient (displayScale - scale.toInt)) :
    Rounds precision scale negative coefficient displayScale := by
  obtain ⟨n, hlo, hhi, hn⟩ := rescale_near hlen hlead
  obtain ⟨hbig, hfits⟩ := constrain_spec precision scale.le_toInt scale.toInt_lt negative
    (rescale coefficient displayScale scale.toInt)
  have hunit : (0 : ℚ) < 10 ^ (-scale.toInt) := by positivity
  have hvalue : numericValue negative coefficient displayScale =
      signed negative (decimal coefficient * 10 ^ (scale.toInt - displayScale)) *
        10 ^ (-scale.toInt) := by
    have hexp : (10 : ℚ) ^ (-displayScale) =
        10 ^ (scale.toInt - displayScale) * 10 ^ (-scale.toInt) := by
      rw [← zpow_add₀ (by decide)]
      congr 1
      omega
    rw [numericValue, hexp]
    cases negative <;> simp [signed, mul_assoc]
  have hbound : (10 : ℚ) ^ (precision.toNat - scale.toInt) ≤
      |signed negative n * 10 ^ (-scale.toInt)| ↔ 10 ^ precision.toNat ≤ n := by
    have habs : |signed negative n| = n := by cases negative <;> simp [signed]
    rw [abs_mul, abs_of_pos hunit, habs, sub_eq_add_neg, zpow_add₀ (by decide), zpow_natCast,
      mul_le_mul_iff_left₀ hunit]
    norm_cast
  refine ⟨signed negative n * 10 ^ (-scale.toInt), ?_, fun h => ?_, fun h => ?_⟩
  · rw [hvalue]
    exact isNearest_signed hunit (by positivity) hlo hhi negative
  · have h := hbound.1 h
    apply hbig
    rcases hn with heq | hall
    · rwa [heq]
    · exact (hall _ precision.toNat_lt).2
  · have h := lt_of_not_ge (mt hbound.2 (not_le.2 h))
    rcases hn with heq | hall
    · rw [heq] at hfits
      obtain ⟨negative', c', hok, hsame⟩ := hfits h
      exact ⟨negative', c', hok, congrArg (· * _) hsame⟩
    · exact absurd (hall _ precision.toNat_lt).1 (not_le.2 h)

/-- A first digit that is looked at by mistake and rounds up leaves the coefficient 1. -/
theorem rescale_of_not_decidingDigit {cs : List (Fin 10)} {displayScale scale : Int}
    (hlen : cs.length ≤ i32Max) (hlead : ¬ DecidingDigit cs (displayScale - scale)) :
    decimal (rescale cs displayScale scale) = 1 := by
  simp only [DecidingDigit, not_or, not_forall, not_lt] at hlead
  obtain ⟨hshort, digit, hdigit, hfive⟩ := hlead
  have hhead : cs[0]? = some digit := by
    rw [← head?_eq_getElem?]
    exact hdigit
  unfold rescale i32Max i32Min at *
  dsimp only
  rw [if_pos (by omega), show cs.length -
    (max (-2 ^ 31) (min (2 ^ 31 - 1) (displayScale - scale))).toNat = 0 by omega]
  simp only [roundAt, hhead, Option.any_some, decide_eq_true hfive, if_true, take_zero,
    decimal_increment, decimal_orZero]
  rfl

/-- A value of less than a tenth of the unit has 0 as its nearest multiple. -/
theorem eq_zero_of_isNearest {unit v w : ℚ} (hw : IsNearest unit v w) (hv : |v| < unit / 10) :
    w = 0 := by
  obtain ⟨⟨n, rfl⟩, hbest⟩ := hw
  have hunit : 0 < unit := by linarith [abs_nonneg v]
  have hclose := (hbest 0).1
  rw [Int.cast_zero, zero_mul, sub_zero] at hclose
  have hsmall : |(n : ℚ)| * unit < 1 * unit := by
    calc |(n : ℚ)| * unit = |n * unit| := by rw [abs_mul, abs_of_pos hunit]
      _ ≤ |v| + |v - n * unit| := by
        have := abs_sub_abs_le_abs_sub (n * unit) v
        rw [abs_sub_comm] at this
        linarith
      _ < 1 * unit := by linarith
  have hn : |n| < 1 := by exact_mod_cast lt_of_mul_lt_mul_right hsmall hunit.le
  rw [Int.abs_lt_one_iff.mp hn, Int.cast_zero, zero_mul]

/-- Elsewhere it does not. -/
theorem not_rounds_of_not_decidingDigit {precision : UInt16} {scale : Int16} {negative : Bool}
    {coefficient : List (Fin 10)} {displayScale : Int} (hlen : coefficient.length ≤ i32Max)
    (hlead : ¬ DecidingDigit coefficient (displayScale - scale.toInt)) :
    ¬ Rounds precision scale negative coefficient displayScale := by
  rintro ⟨w, hnear, -, hok⟩
  have hone := rescale_of_not_decidingDigit hlen hlead
  have hunit : (0 : ℚ) < 10 ^ (-scale.toInt) := by positivity
  -- the digits that are stored lie behind the first place that is dropped
  have hsmall : |numericValue negative coefficient displayScale| < 10 ^ (-scale.toInt) / 10 := by
    have habs : |signed negative (decimal coefficient)| = (decimal coefficient : ℚ) := by
      cases negative <;> simp [signed]
    have hdigits : (decimal coefficient : ℚ) < 10 ^ (coefficient.length : ℤ) := by
      exact_mod_cast decimal_lt coefficient
    have hplaces : (10 : ℚ) ^ (coefficient.length : ℤ) * 10 ^ (-displayScale) ≤
        10 ^ (-scale.toInt - 1) := by
      rw [← zpow_add₀ (by decide)]
      refine zpow_le_zpow_right₀ (by norm_num) ?_
      have hshort := (not_or.mp hlead).1
      omega
    rw [numericValue, abs_mul, habs, abs_of_pos (by positivity)]
    calc (decimal coefficient : ℚ) * 10 ^ (-displayScale)
        < 10 ^ (coefficient.length : ℤ) * 10 ^ (-displayScale) := by gcongr
      _ ≤ 10 ^ (-scale.toInt - 1) := hplaces
      _ = 10 ^ (-scale.toInt) / 10 := by rw [zpow_sub_one₀ (by decide), div_eq_mul_inv]
  have hw := eq_zero_of_isNearest hnear hsmall
  obtain ⟨negative', c', hresult, hvalue⟩ := hok (by rw [hw, abs_zero]; positivity)
  obtain ⟨hbig, hfits⟩ := constrain_spec precision scale.le_toInt scale.toInt_lt negative
    (rescale coefficient displayScale scale.toInt)
  rw [withTypmod] at hresult
  rw [hone] at hbig hfits
  rcases Nat.lt_or_ge 1 (10 ^ precision.toNat) with hlt | hge
  · -- the result is one unit, and the nearest multiple is zero
    obtain ⟨negative'', c'', hresult', hsame⟩ := hfits hlt
    rw [hresult'] at hresult
    cases hresult
    rw [hw, numericValue, hsame, mul_eq_zero] at hvalue
    rcases hvalue with hzero | hzero
    · cases negative <;> simp [signed] at hzero
    · exact hunit.ne' hzero
  · rw [hbig hge] at hresult
    cases hresult

/-- **Rounding to a type modifier is exact** precisely where the digit that is looked at is the one
that decides, or does not round up. -/
theorem typmod_rounds (precision : UInt16) (scale : Int16) (negative : Bool)
    (coefficient : List (Fin 10)) (displayScale : Int) (hlen : coefficient.length ≤ i32Max) :
    Rounds precision scale negative coefficient displayScale ↔
      DecidingDigit coefficient (displayScale - scale.toInt) :=
  ⟨fun h => by_contra fun hlead => not_rounds_of_not_decidingDigit hlen hlead h,
    rounds_of_decidingDigit hlen⟩

/-- 1.995 is rounded to 2.00. -/
theorem typmod_rounds_tie : Rounds 4 2 false [1, 9, 9, 5] 3 :=
  (typmod_rounds 4 2 false [1, 9, 9, 5] 3 (by decide)).mpr (.inl (by decide))

/-- 0.0007 is rounded to 0.01. -/
theorem typmod_rounds_up_small :
    withTypmod 5 2 (.finite false [7] 4) = .ok (.finite false [1] 2) ∧
      ¬ IsNearest (10 ^ (-2 : ℤ)) (numericValue false [7] 4) (numericValue false [1] 2) := by
  refine ⟨by decide, fun h => ?_⟩
  have hzero := (h.2 0).1
  norm_num [numericValue, signed, decimal] at hzero

end PgNumeric

end BicDb.Sql
