import BicDb.Foundation.OrderedMap
import BicDb.Foundation.PrefixCode

/-!
# Codes that sort like the values

A code is ordered by a relation when the smaller value shows at a place both codes have. Numbers
highest byte first and strings with escaped zeros are ordered, and so are lists of such codes; a
prefix is a range of byte strings.
-/

namespace BicDb.Foundation

open List

/-! ## Strings that differ inside -/

/-- At the first difference the first string has the smaller byte. -/
def Splits : List UInt8 → List UInt8 → Prop
  | x :: a, y :: b => x < y ∨ x = y ∧ Splits a b
  | _, _ => False

variable {a b : List UInt8}

theorem Splits.append (h : Splits a b) (s t : List UInt8) : Splits (a ++ s) (b ++ t) := by
  induction a generalizing b with
  | nil => exact h.elim
  | cons x a ih =>
    cases b with
    | nil => exact h.elim
    | cons y b => exact h.imp_right fun h => ⟨h.1, ih h.2⟩

theorem Splits.prepend (p : List UInt8) (h : Splits a b) : Splits (p ++ a) (p ++ b) := by
  induction p with
  | nil => exact h
  | cons x p ih => exact .inr ⟨rfl, ih⟩

theorem Splits.lt (h : Splits a b) : a < b := by
  induction a generalizing b with
  | nil => exact h.elim
  | cons x a ih =>
    cases b with
    | nil => exact h.elim
    | cons y b => exact cons_lt_cons_iff.2 (h.imp_right fun h => ⟨h.1, ih h.2⟩)

/-! ## Ordered codes -/

section Ordered

variable {α : Type*} {r : α → α → Prop} {code : α → List UInt8}

/-- Related values have codes that differ inside. -/
def Ordered (r : α → α → Prop) (code : α → List UInt8) : Prop :=
  ∀ ⦃a b⦄, r a b → Splits (code a) (code b)

section Total

variable (htotal : ∀ a b, r a b ∨ a = b ∨ r b a)

include htotal

theorem Ordered.delimitedOn (h : Ordered r code) : DelimitedOn Set.univ code := by
  intro a _ b _ s t heq
  rcases htotal a b with hab | rfl | hba
  · exact absurd heq ((h hab).append s t).lt.ne
  · exact ⟨rfl, append_cancel_left heq⟩
  · exact absurd heq ((h hba).append t s).lt.ne'

theorem lt_iff_of_total (hmono : ∀ a b, r a b → code a < code b) (a b : α) :
    code a < code b ↔ r a b := by
  refine ⟨fun hlt => ?_, hmono a b⟩
  rcases htotal a b with hab | rfl | hba
  · exact hab
  · exact absurd hlt (lt_irrefl _)
  · exact absurd hlt (hmono b a hba).asymm

end Total

theorem Ordered.flatMap_lt (h : Ordered r code) (hne : ∀ a, code a ≠ []) {u v : List α}
    (hlex : List.Lex r u v) : u.flatMap code < v.flatMap code := by
  induction hlex with
  | @nil b v =>
    obtain ⟨x, rest, hx⟩ := exists_cons_of_ne_nil (hne b)
    rw [flatMap_nil, flatMap_cons, hx]
    exact nil_lt_cons _ _
  | rel hab =>
    exact ((h hab).append _ _).lt
  | cons _ ih =>
    exact append_left_lt ih

theorem DelimitedOn.prefix_of_flatMap (h : DelimitedOn Set.univ code) (hne : ∀ a, code a ≠ [])
    {u v : List α} (hpre : u.flatMap code <+: v.flatMap code) : u <+: v := by
  obtain ⟨rest, hrest⟩ := hpre
  induction u generalizing v with
  | nil => exact nil_prefix
  | cons a u ih =>
    cases v with
    | nil => exact absurd (append_eq_nil_iff.1 (append_eq_nil_iff.1 hrest).1).1 (hne a)
    | cons b v =>
      rw [flatMap_cons, flatMap_cons, append_assoc] at hrest
      obtain ⟨rfl, htail⟩ := h trivial trivial hrest
      exact cons_prefix_cons.2 ⟨rfl, ih htail⟩

end Ordered

/-! ## Numbers -/

theorem beBytes_succ (width n : Nat) :
    beBytes (width + 1) n = beBytes width (n / 256) ++ [UInt8.ofNat (n % 256)] := by
  simp [beBytes, leBytes]

theorem splits_beBytes {width m n : Nat} (h : m < n) (hn : n < 256 ^ width) :
    Splits (beBytes width m) (beBytes width n) := by
  induction width generalizing m n with
  | zero => omega
  | succ width ih =>
    rw [beBytes_succ, beBytes_succ]
    rcases Nat.lt_or_ge (m / 256) (n / 256) with hlt | hge
    · exact (ih hlt (by rw [Nat.pow_succ] at hn; omega)).append _ _
    have heq : m / 256 = n / 256 := by omega
    rw [heq]
    refine Splits.prepend _ (.inl ?_)
    rw [UInt8.lt_iff_toNat_lt, UInt8.toNat_ofNat', UInt8.toNat_ofNat']
    omega

theorem strictMonoOn_beBytes (width : Nat) : StrictMonoOn (beBytes width) {n | n < 256 ^ width} :=
  fun _ _ _ hn h => (splits_beBytes h hn).lt

/-- A number read from its bytes, highest first. -/
def beNat (bytes : List UInt8) : Nat := leNat bytes.reverse

theorem beNat_beBytes {width n : Nat} (h : n < 256 ^ width) : beNat (beBytes width n) = n := by
  rw [beNat, beBytes, reverse_reverse, leNat_leBytes h]

theorem toNat_xor_intMin {w : Nat} (x : BitVec (w + 1)) :
    ((x ^^^ BitVec.intMin (w + 1)).toNat : Int) = x.toInt + 2 ^ w := by
  have hmin : BitVec.intMin (w + 1) = BitVec.cons true 0#w := by
    have hlt : 2 ^ w < 2 ^ (w + 1) := Nat.pow_lt_pow_right (by decide) w.lt_succ_self
    rw [← BitVec.toNat_inj, BitVec.toNat_cons', BitVec.toNat_intMin, Nat.add_sub_cancel,
      Nat.mod_eq_of_lt hlt, Bool.toNat_true, Nat.one_shiftLeft]
    rfl
  obtain ⟨sign, y, rfl⟩ : ∃ sign y, x = BitVec.cons sign y :=
    ⟨_, _, (BitVec.cons_msb_setWidth x).symm⟩
  rw [hmin, BitVec.cons_xor_cons, BitVec.xor_zero, BitVec.toInt_eq_msb_cond, BitVec.msb_cons,
    BitVec.toNat_cons', BitVec.toNat_cons', Nat.pow_succ]
  cases sign <;> simp [-BitVec.toNat_cons, Nat.shiftLeft_eq] <;> omega

/-- A signed number as its bytes with the sign bit flipped. -/
def signedBytes (width : Nat) {w : Nat} (x : BitVec w) : List UInt8 :=
  beBytes width (x ^^^ BitVec.intMin w).toNat

theorem splits_signedBytes {width w : Nat} {x y : BitVec (w + 1)} (hw : 2 ^ (w + 1) ≤ 256 ^ width)
    (h : x.toInt < y.toInt) : Splits (signedBytes width x) (signedBytes width y) := by
  refine splits_beBytes ?_ ((BitVec.isLt _).trans_le hw)
  have hx := toNat_xor_intMin x
  have hy := toNat_xor_intMin y
  omega

/-! ## Escaped strings -/

/-- A zero byte is followed by the byte 255. -/
def escape (bytes : List UInt8) : List UInt8 :=
  bytes.flatMap fun b => if b = 0 then [0, 255] else [b]

@[simp] theorem escape_nil : escape [] = [] := rfl

theorem escape_cons (x : UInt8) (a : List UInt8) :
    escape (x :: a) = (if x = 0 then [0, 255] else [x]) ++ escape a := rfl

theorem splits_escape {t : UInt8} (ht : t < 255) (h : a < b) (s s' : List UInt8) :
    Splits (escape a ++ 0 :: t :: s) (escape b ++ s') := by
  induction a generalizing b with
  | nil =>
    cases b with
    | nil => exact absurd h (lt_irrefl _)
    | cons y b =>
      rw [escape_cons]
      split_ifs with hy
      · exact .inr ⟨rfl, .inl ht⟩
      · exact .inl (UInt8.pos_iff_ne_zero.2 hy)
  | cons x a ih =>
    cases b with
    | nil => exact absurd h (not_lt_nil _)
    | cons y b =>
      rw [escape_cons, escape_cons, append_assoc, append_assoc]
      rcases cons_lt_cons_iff.1 h with hlt | ⟨rfl, htail⟩
      · split_ifs with hx hy hy
        · exact absurd hlt (by rw [hx, hy]; exact lt_irrefl _)
        · exact .inl (UInt8.pos_iff_ne_zero.2 hy)
        · exact absurd hlt (by rw [hy]; exact UInt8.not_lt_zero)
        · exact .inl hlt
      · exact (ih htail).prepend _

theorem escape_prefix_iff {t : UInt8} (ht : t < 255) (s : List UInt8) :
    escape a <+: escape b ++ 0 :: t :: s ↔ a <+: b := by
  induction a generalizing b with
  | nil => exact iff_of_true nil_prefix nil_prefix
  | cons x a ih =>
    cases b with
    | nil => by_cases hx : x = 0 <;> simp [escape_cons, hx, ht.ne']
    | cons y b =>
      rw [escape_cons, escape_cons, append_assoc, cons_prefix_cons, ← ih]
      split_ifs with hx hy hy
      · simp [hx, hy]
      · simp [hx, Ne.symm hy]
      · simp [hx, hy]
      · simp

/-! ## Ranges of prefixes -/

/-- What lies between a string and one of its extensions extends it as well, and by less. -/
theorem exists_extension_of_le {p k s : List UInt8} (hlo : p < k) (hhi : k ≤ p ++ s) :
    ∃ x r, k = p ++ x :: r ∧ x :: r ≤ s := by
  induction p generalizing k with
  | nil =>
    obtain ⟨x, r, rfl⟩ := exists_cons_of_ne_nil hlo.ne'
    exact ⟨x, r, rfl, hhi⟩
  | cons z p ih =>
    cases k with
    | nil => cases not_lt_nil _ hlo
    | cons y k =>
      rw [← not_lt, cons_append, cons_lt_cons_iff, not_or, not_and] at hhi
      rw [cons_lt_cons_iff] at hlo
      rcases hlo with hlt | ⟨rfl, hlo⟩
      · exact absurd hlt hhi.1
      · obtain ⟨x, r, rfl, hle⟩ := ih hlo (not_lt.1 (hhi.2 rfl))
        exact ⟨x, r, rfl, hle⟩

/-- The strings from `p` up to `bound` are those that begin with `p`. -/
def EndsPrefix (p : List UInt8) (bound : Option (List UInt8)) : Prop :=
  ∀ k, p ≤ k ∧ (∀ u ∈ bound, k < u) ↔ p <+: k

theorem endsPrefix_nil : EndsPrefix [] none := by
  intro k
  simp [← not_lt]

theorem endsPrefix_succ (p : List UInt8) {x : UInt8} (hx : x < 255) :
    EndsPrefix (p ++ [x]) (some (p ++ [x + 1])) := by
  intro k
  simp only [Option.mem_def, Option.some.injEq, forall_eq', ← not_lt]
  induction p generalizing k with
  | nil =>
    cases k with
    | nil => simp
    | cons y k =>
      have hsucc : (x + 1).toNat = x.toNat + 1 := by
        have hlt : x.toNat < 255 := UInt8.lt_iff_toNat_lt.1 hx
        exact Nat.mod_eq_of_lt (Nat.succ_lt_succ hlt)
      simp only [nil_append, cons_lt_cons_iff, not_lt_nil, and_false, or_false,
        UInt8.lt_iff_toNat_lt, hsucc, cons_prefix_cons, nil_prefix, and_true, ← UInt8.toNat_inj]
      omega
  | cons z p ih =>
    cases k with
    | nil => simp
    | cons y k =>
      simp only [cons_append, cons_lt_cons_iff, cons_prefix_cons, ← ih k, not_or, not_and]
      constructor
      · rintro ⟨⟨hge, hback⟩, hgt | ⟨rfl, hlt⟩⟩
        · exact absurd hgt hge
        · exact ⟨rfl, hback rfl, hlt⟩
      · rintro ⟨rfl, hge, hlt⟩
        exact ⟨⟨lt_irrefl _, fun _ => hge⟩, .inr ⟨rfl, hlt⟩⟩

theorem EndsPrefix.concat {p : List UInt8} {bound : Option (List UInt8)} (h : EndsPrefix p bound) :
    EndsPrefix (p ++ [255]) bound := by
  intro k
  rw [← not_lt]
  constructor
  · rintro ⟨hge, hlt⟩
    have hle : p ≤ k := not_lt.1 fun hkp => hge (hkp.trans_le (not_lt.1 (prefix_append p [255]).le))
    obtain ⟨t, rfl⟩ := (h k).1 ⟨hle, hlt⟩
    refine (prefix_append_right_inj p).2 ?_
    cases t with
    | nil => exact absurd (append_left_lt (nil_lt_cons _ _)) hge
    | cons y t =>
      rcases lt_or_ge y 255 with hy | hy
      · exact absurd (append_left_lt (cons_lt_cons_iff.2 (.inl hy))) hge
      · have hmax : y ≤ 255 := UInt8.le_iff_toNat_le.2 (Nat.le_of_lt_succ y.toNat_lt)
        rw [le_antisymm hmax hy]
        exact prefix_append [255] t
  · intro hpre
    exact ⟨hpre.le, ((h k).2 ((prefix_append _ _).trans hpre)).2⟩

theorem EndsPrefix.isLeast {p u : List UInt8} (h : EndsPrefix p (some u)) :
    IsLeast {w | ∀ k, p <+: k → k < w} u := by
  refine ⟨fun k hk => ((h k).2 hk).2 u rfl, fun w hw => ?_⟩
  by_contra hlt
  -- a smaller one would begin with the prefix itself
  have hpre := (h w).1 ⟨(hw p prefix_rfl).le, by rintro _ ⟨⟩; exact not_le.1 hlt⟩
  exact lt_irrefl _ (hw w hpre)

end BicDb.Foundation
