import BicDb.Foundation.OrderedCode

/-!
# Composite index keys

An ordered index stores its fields as one byte string. Each field is a tag byte and a body that can
be told from what follows it.

## What this module delivers

* `encodeIndexKey_embedding`: keys sort like the values, are read back, whole or by field, and a
  prefix is a range.
-/

namespace BicDb.Index

open Foundation List

/-! ## Values and their order -/

/-- The value of one field. A float is held, and ordered, as its raw bits. -/
inductive IndexValue where
  | null
  | bool (b : Bool)
  | int (i : Int64)
  | float (bits : UInt64)
  | string (s : String)
deriving DecidableEq

/-- The tag orders the kinds of values. -/
def IndexValue.tag : IndexValue → UInt8
  | .null => 0
  | .bool _ => 1
  | .int _ => 2
  | .float _ => 3
  | .string _ => 4

/-- The derived order: by variant, and within one by what it holds; strings by their bytes. -/
def IndexValue.Lt : IndexValue → IndexValue → Prop
  | .bool a, .bool b => a < b
  | .int i, .int j => i.toInt < j.toInt
  | .float a, .float b => a.toNat < b.toNat
  | .string s, .string t => utf8 s < utf8 t
  | a, b => a.tag < b.tag

theorem IndexValue.Lt.of_tag {a b : IndexValue} (h : a.tag < b.tag) : a.Lt b := by
  cases a <;> cases b <;> first | exact h | exact absurd h (lt_irrefl _)

theorem IndexValue.lt_total (a b : IndexValue) : a.Lt b ∨ a = b ∨ b.Lt a := by
  rcases lt_trichotomy a.tag b.tag with h | h | h
  · exact .inl (.of_tag h)
  · cases a <;> cases b <;> simp [tag] at h
    case null.null => exact .inr (.inl rfl)
    case bool.bool a b => exact (lt_trichotomy a b).imp_right (Or.imp_left (congrArg _))
    case int.int i j =>
      exact (lt_trichotomy _ _).imp_right (Or.imp_left fun h => congrArg _ (Int64.toInt_inj.1 h))
    case float.float a b =>
      exact (lt_trichotomy _ _).imp_right (Or.imp_left fun h => congrArg _ (UInt64.toNat_inj.1 h))
    case string.string s t =>
      exact (lt_trichotomy _ _).imp_right (Or.imp_left fun h => congrArg _ (utf8_injective h))
  · exact .inr (.inr (.of_tag h))

/-! ## Encoding -/

/-- A value: its tag, and bytes in the order of the values. -/
def encodeIndexValue (value : IndexValue) : List UInt8 :=
  value.tag :: match value with
    | .null => []
    | .bool b => [b.toUInt8]
    | .int i => signedBytes 8 i.toBitVec
    | .float bits => beBytes 8 bits.toNat
    | .string s => escape (utf8 s) ++ [0, 0]

/-- The values one after the other. -/
def encodeIndexKey (values : List IndexValue) : List UInt8 := values.flatMap encodeIndexValue

theorem encodeIndexValue_ne_nil (value : IndexValue) : encodeIndexValue value ≠ [] :=
  cons_ne_nil _ _

theorem encodeIndexValue_ordered : Ordered IndexValue.Lt encodeIndexValue := by
  intro a b h
  -- values of two variants differ in the tag
  cases a <;> cases b <;> try exact .inl h
  -- and those of one variant behind it
  all_goals refine .inr ⟨rfl, ?_⟩
  case bool.bool a b =>
    obtain ⟨rfl, rfl⟩ := Bool.lt_iff.1 h
    exact .inl (by decide)
  case int.int i j => exact splits_signedBytes (by decide) h
  case float.float a b => exact splits_beBytes h b.toNat_lt
  case string.string s t => exact splits_escape (by decide) h [] _

/-! ## Decoding

Positions in the encoded key are the bytes that are left. Where the source would panic there is no
result. -/

/-- Reads text up to its terminator. -/
def decodeText : List UInt8 → Option (List UInt8 × List UInt8)
  | [] => none
  | b :: rest =>
    if b = 0 then
      match rest with
      | [] => some ([], [])
      | c :: rest =>
        if c = 255 then (decodeText rest).map (Prod.map (0 :: ·) id) else some ([], rest)
    else (decodeText rest).map (Prod.map (b :: ·) id)

def decodeNat (bytes : List UInt8) : Option (Nat × List UInt8) :=
  if 8 ≤ bytes.length then some (beNat (bytes.take 8), bytes.drop 8) else none

-- what `from_utf8_lossy` makes of bytes that are not a text
variable (replaced : List UInt8 → String)

/-- Reads one value. -/
def decodeIndexValueAt : List UInt8 → Option (IndexValue × List UInt8)
  | [] => none
  | tag :: rest =>
    match tag.toNat with
    | 0 => some (.null, rest)
    | 1 => rest.head?.map fun b => (.bool (b ≠ 0), rest.tail)
    | 2 => (decodeNat rest).map fun (n, rest) =>
        (.int (.ofBitVec (BitVec.ofNat 64 n ^^^ BitVec.intMin 64)), rest)
    | 3 => (decodeNat rest).map fun (n, rest) => (.float (.ofNat n), rest)
    | 4 => (decodeText rest).map fun (text, rest) =>
        (.string ((readUtf8 text).getD (replaced text)), rest)
    | _ => none

/-- The loop over the fields; as many rounds as bytes are enough. -/
def decodeFields : Nat → List UInt8 → Option (List IndexValue)
  | _, [] => some []
  | 0, _ => none
  | rounds + 1, encoded => do
    let (value, rest) ← decodeIndexValueAt replaced encoded
    return value :: (← decodeFields rounds rest)

/-- Reads all values. -/
def decodeIndexKey (encoded : List UInt8) : Option (List IndexValue) :=
  decodeFields replaced encoded.length encoded

/-- Reads the value of one field. -/
def decodeIndexField (encoded : List UInt8) : Nat → Option IndexValue
  | 0 => (decodeIndexValueAt replaced encoded).map Prod.fst
  | i + 1 => do
    let (_, rest) ← decodeIndexValueAt replaced encoded
    decodeIndexField rest i

theorem decodeText_escape (text rest : List UInt8) :
    decodeText (escape text ++ 0 :: 0 :: rest) = some (text, rest) := by
  induction text with
  | nil => simp [escape, decodeText]
  | cons x text ih =>
    rw [escape_cons]
    split_ifs with hx
    · simp [decodeText, ih, hx]
    · rw [singleton_append, cons_append, decodeText.eq_def]
      simp [ih, hx]

theorem decodeNat_beBytes {n : Nat} (h : n < 256 ^ 8) (rest : List UInt8) :
    decodeNat (beBytes 8 n ++ rest) = some (n, rest) := by
  rw [decodeNat, if_pos (by simp)]
  simp [beNat_beBytes h]

variable (replaced : List UInt8 → String)

theorem decodeIndexValueAt_encode (value : IndexValue) (rest : List UInt8) :
    decodeIndexValueAt replaced (encodeIndexValue value ++ rest) = some (value, rest) := by
  cases value with
  | null => rfl
  | bool b => cases b <;> rfl
  | int i =>
    have hdecode := decodeNat_beBytes (BitVec.isLt (i.toBitVec ^^^ BitVec.intMin 64)) rest
    rw [encodeIndexValue, cons_append, decodeIndexValueAt]
    simp only [IndexValue.tag, signedBytes, hdecode, Option.map_some, BitVec.ofNat_toNat,
      BitVec.setWidth_eq, BitVec.xor_assoc, BitVec.xor_self, BitVec.xor_zero]
    rfl
  | float bits =>
    simp [decodeIndexValueAt, encodeIndexValue, IndexValue.tag, decodeNat_beBytes bits.toNat_lt]
  | string s => simp [decodeIndexValueAt, encodeIndexValue, IndexValue.tag, decodeText_escape]

theorem decodeIndexField_encode (values : List IndexValue) (i : Nat) :
    decodeIndexField replaced (encodeIndexKey values) i = values[i]? := by
  induction i generalizing values with
  | zero =>
    cases values with
    | nil => rfl
    | cons value values => simp [decodeIndexField, encodeIndexKey, decodeIndexValueAt_encode]
  | succ i ih =>
    cases values with
    | nil => rfl
    | cons value values =>
      simp only [decodeIndexField, encodeIndexKey, flatMap_cons, decodeIndexValueAt_encode]
      exact ih values

theorem decodeFields_encode (values : List IndexValue) (rounds : Nat)
    (hrounds : (encodeIndexKey values).length ≤ rounds) :
    decodeFields replaced rounds (encodeIndexKey values) = some values := by
  induction values generalizing rounds with
  | nil => cases rounds <;> rfl
  | cons value values ih =>
    rw [encodeIndexKey, flatMap_cons, length_append] at hrounds
    have hbyte := length_pos_of_ne_nil (encodeIndexValue_ne_nil value)
    cases rounds with
    | zero => omega
    | succ rounds =>
      have hvalue := decodeIndexValueAt_encode replaced value (encodeIndexKey values)
      have hrest := ih rounds (by rw [encodeIndexKey]; omega)
      change (decodeIndexValueAt replaced (encodeIndexValue value ++ encodeIndexKey values)).bind
        _ = _
      rw [hvalue]
      simp [hrest]

/-! ## Prefixes -/

/-- The last byte that can goes up by one, those behind it are dropped; the last byte is first. -/
def bumpLast : List UInt8 → Option (List UInt8)
  | [] => none
  | last :: front => if last < 255 then some (front.reverse ++ [last + 1]) else bumpLast front

/-- The least bytes above all with the prefix. -/
def prefixUpperBound (p : List UInt8) : Option (List UInt8) := bumpLast p.reverse

theorem endsPrefix_prefixUpperBound (p : List UInt8) : EndsPrefix p (prefixUpperBound p) := by
  -- from the end, where the bytes go up or are dropped
  induction p using reverseRecOn with
  | nil => exact endsPrefix_nil
  | append_singleton p x ih =>
    rw [prefixUpperBound, reverse_append, reverse_singleton, singleton_append, bumpLast,
      reverse_reverse]
    split_ifs with hx
    · exact endsPrefix_succ p hx
    · obtain rfl : x = 255 :=
        le_antisymm (UInt8.le_iff_toNat_le.2 (Nat.le_of_lt_succ x.toNat_lt)) (not_lt.1 hx)
      exact ih.concat

instance : Std.Trichotomous IndexValue.Lt :=
  ⟨fun a b hab hba => ((a.lt_total b).resolve_left hab).resolve_right hba⟩

/-- The keys sort like the lists of values, can be read back, and a prefix is a range of them. -/
theorem encodeIndexKey_embedding :
    (∀ u v, encodeIndexKey u < encodeIndexKey v ↔ List.Lex IndexValue.Lt u v) ∧
    (∀ u, decodeIndexKey replaced (encodeIndexKey u) = some u) ∧
    (∀ u i, decodeIndexField replaced (encodeIndexKey u) i = u[i]?) ∧
    ∀ p v, (encodeIndexKey p ≤ encodeIndexKey v ∧
        ∀ bound ∈ prefixUpperBound (encodeIndexKey p), encodeIndexKey v < bound) ↔ p <+: v := by
  refine ⟨?_, fun u => decodeFields_encode replaced u _ le_rfl,
    decodeIndexField_encode replaced, ?_⟩
  · exact lt_iff_of_total (trichotomous_of (List.Lex IndexValue.Lt)) fun u v =>
      encodeIndexValue_ordered.flatMap_lt encodeIndexValue_ne_nil
  · intro p v
    rw [endsPrefix_prefixUpperBound (encodeIndexKey p) (encodeIndexKey v)]
    refine ⟨?_, fun ⟨rest, h⟩ => h ▸ ⟨encodeIndexKey rest, flatMap_append.symm⟩⟩
    exact (encodeIndexValue_ordered.delimitedOn IndexValue.lt_total).prefix_of_flatMap
      encodeIndexValue_ne_nil

end BicDb.Index
