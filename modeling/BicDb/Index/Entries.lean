import Mathlib.Data.Vector.Defs
import BicDb.Index.Keys

/-!
# Durable index entries

The paged store keeps the entries of every index in one tree. An entry key is the namespace, the
index name behind its length, the encoded key with its zeros escaped, a terminator, and its row.

## What this module delivers

* `terminatedKey_lt_iff`, `terminatedKey_prefix_iff`: order and prefixes of keys in general.
* `indexEntryKey_embedding`: both formats are read back and sort by key and row; prefixes, exact
  keys and other indexes are ranges of their own.
-/

namespace BicDb.Index

open Foundation
open List hiding Vector

/-! ## Keys -/

/-- Names are validated before a key is built from them: the length of one fits two bytes. -/
abbrev DurableName := { name : String // (utf8 name).length < 256 ^ 2 }

/-- What all keys of an index start with. -/
def nsPrefix (ns : Vector UInt8 3) (index : DurableName) : List UInt8 :=
  ns.toList ++ counted 2 (utf8 index.1)

/-- What the keys of an encoded prefix start with. -/
def nsEntryPrefix (ns : Vector UInt8 3) (index : DurableName) (encodedPrefix : List UInt8) :
    List UInt8 :=
  nsPrefix ns index ++ escape encodedPrefix

/-- The keys differ in the byte that ends the encoded key and in what follows it. -/
def terminatedKey (ns : Vector UInt8 3) (index : DurableName) (encodedKey : List UInt8)
    (term : UInt8)
    (suffix : List UInt8) : List UInt8 :=
  nsEntryPrefix ns index encodedKey ++ 0 :: term :: suffix

/-- A key that ends in text. -/
def nsTermKey (ns : Vector UInt8 3) (index : DurableName) (encodedKey : List UInt8)
    (suffix : String) :
    List UInt8 :=
  terminatedKey ns index encodedKey 0 (utf8 suffix)

/-- A key that ends in a number. -/
def nsTermU64Key (ns : Vector UInt8 3) (index : DurableName) (encodedKey : List UInt8)
    (suffix : UInt64) :
    List UInt8 :=
  terminatedKey ns index encodedKey 0 (beBytes 8 suffix.toNat)

def indexNs : Vector UInt8 3 := #v[0, 0, 1]

def indexPrefix (index : DurableName) : List UInt8 := nsPrefix indexNs index

def indexEntryPrefix (index : DurableName) (encodedPrefix : List UInt8) : List UInt8 :=
  nsEntryPrefix indexNs index encodedPrefix

/-- The key of an entry by primary key. -/
def indexEntryKey (index : DurableName) (encodedKey : List UInt8) (pk : String) : List UInt8 :=
  terminatedKey indexNs index encodedKey 0 (utf8 pk)

/-- An entry with the document id, the third format. -/
def indexEntryKeyV3 (index : DurableName) (encodedKey : List UInt8) (id : UInt64) : List UInt8 :=
  terminatedKey indexNs index encodedKey 1 (beBytes 8 id.toNat)

/-! ## Decoding -/

/-- The row of an entry: by primary key, or by interned id. -/
inductive IndexEntryRef where
  | pk (pk : String)
  | intern (id : UInt64)
deriving DecidableEq

/-- The encoded key up to a zero and a byte that ends it, that byte, and what follows. -/
def splitTerminated (ends : UInt8 → Bool) : List UInt8 → Option (List UInt8 × UInt8 × List UInt8)
  | [] | [_] => none
  | byte :: next :: rest =>
    if byte = 0 ∧ ends next then some ([], next, rest)
    else if byte = 0 ∧ next = 255 then (splitTerminated ends rest).map (Prod.map (0 :: ·) id)
    else (splitTerminated ends (next :: rest)).map (Prod.map (byte :: ·) id)

def corrupt {α : Type} (index : DurableName) (message : String) : Except String α :=
  .error s!"index entry for `{index.1}`: {message}"

/-- What follows the terminator: the text of a primary key, or the eight bytes of an id. -/
def decodeRef (index : DurableName) (term : UInt8) (tail : List UInt8) :
    Except String IndexEntryRef :=
  if term = 0 then
    match readUtf8 tail with
    | none => corrupt index "pk is not utf-8"
    | some pk => .ok (.pk pk)
  else if tail.length = 8 then .ok (.intern (.ofNat (beNat tail)))
  else corrupt index "intern id suffix is not 8 bytes"

/-- Index key and row of an entry. -/
def decodeIndexEntryKeyAny (index : DurableName) (key : List UInt8) :
    Except String (List UInt8 × IndexEntryRef) :=
  if key.length < (indexPrefix index).length then
    corrupt index "key shorter than its prefix"
  else
    match splitTerminated (· ≤ 1) (key.drop (indexPrefix index).length) with
    | none => corrupt index "key ends inside its encoded prefix"
    | some (encoded, term, tail) => (decodeRef index term tail).map (encoded, ·)

/-- The parts of a key in a namespace. -/
def decodeNamespacedTermKey (body : List UInt8) (index : DurableName) :
    Except String (List UInt8 × List UInt8) :=
  match splitTerminated (· = 0) body with
  | none => .error s!"numeric block key for `{index.1}` missing terminator"
  | some (encoded, _, tail) => .ok (encoded, tail)

theorem splitTerminated_escape {ends : UInt8 → Bool} {term : UInt8} (hterm : ends term)
    (hescape : ends 255 = false) (encoded tail : List UInt8) :
    splitTerminated ends (escape encoded ++ 0 :: term :: tail) = some (encoded, term, tail) := by
  induction encoded with
  | nil => simp [escape, splitTerminated, hterm]
  | cons x encoded ih =>
    rw [escape_cons]
    split_ifs with hx
    · simp [splitTerminated, hescape, ih, hx]
    obtain ⟨y, rest, hrest⟩ : ∃ y rest, escape encoded ++ 0 :: term :: tail = y :: rest :=
      exists_cons_of_ne_nil (append_ne_nil_of_right_ne_nil _ (cons_ne_nil _ _))
    rw [hrest] at ih
    simp [hrest, splitTerminated, ih, hx]

/-! ## Order and prefixes -/

variable {ns ns' : Vector UInt8 3} {index index' : DurableName} {a b : List UInt8}
  {term term' : UInt8}

theorem nsPrefix_delimited {rest rest' : List UInt8}
    (h : nsPrefix ns index ++ rest = nsPrefix ns' index' ++ rest') :
    ns = ns' ∧ index = index' ∧ rest = rest' := by
  simp only [nsPrefix, append_assoc] at h
  obtain ⟨hns, hrest⟩ := append_inj h (by simp)
  obtain ⟨hindex, hrest⟩ := delimitedOn_countedText 2 index.2 index'.2 hrest
  exact ⟨Vector.toList_inj.1 hns, Subtype.ext hindex, hrest⟩

theorem terminatedKey_lt_iff (hterm : term < 255) (hterm' : term' < 255) (s s' : List UInt8) :
    terminatedKey ns index a term s < terminatedKey ns index b term' s' ↔
      a < b ∨ a = b ∧ (term < term' ∨ term = term' ∧ s < s') := by
  have hmono {a b : List UInt8} {t : UInt8} (ht : t < 255) (h : a < b) (s s' : List UInt8)
      (t' : UInt8) : terminatedKey ns index a t s < terminatedKey ns index b t' s' := by
    simp only [terminatedKey, nsEntryPrefix, append_assoc]
    exact ((splits_escape ht h s _).prepend _).lt
  rcases lt_trichotomy a b with hab | rfl | hba
  · exact iff_of_true (hmono hterm hab s s' term') (.inl hab)
  · have hsuffix : StrictMono fun tail : List UInt8 => nsEntryPrefix ns index a ++ 0 :: tail :=
      fun tail tail' h => append_left_lt (by simpa using h)
    have hlt := @StrictMono.lt_iff_lt _ _ _ _ _ hsuffix (term :: s) (term' :: s')
    simpa [terminatedKey, cons_lt_cons_iff] using hlt
  · exact iff_of_false (hmono hterm' hba s' s term).asymm (by simp [hba.asymm, hba.ne'])

/-- A key starts with the prefix of an index or of a term only if it is one of its own. -/
theorem nsEntryPrefix_prefix_iff (hterm : term < 255) (s : List UInt8) :
    nsEntryPrefix ns index a <+: terminatedKey ns' index' b term s ↔
      ns = ns' ∧ index = index' ∧ a <+: b := by
  simp only [terminatedKey, nsEntryPrefix, append_assoc]
  constructor
  · rintro ⟨rest, h⟩
    rw [append_assoc] at h
    obtain ⟨rfl, rfl, hrest⟩ := nsPrefix_delimited h
    exact ⟨rfl, rfl, (escape_prefix_iff hterm s).1 ⟨rest, hrest⟩⟩
  · rintro ⟨rfl, rfl, hab⟩
    exact (prefix_append_right_inj _).2 ((escape_prefix_iff hterm s).2 hab)

/-- The keys that begin with an encoded key and its terminator are the entries of that key. -/
theorem terminatedKey_prefix_iff (hterm : term < 255) (hterm' : term' < 255) (s : List UInt8) :
    terminatedKey ns index a term [] <+: terminatedKey ns' index' b term' s ↔
      ns = ns' ∧ index = index' ∧ a = b ∧ term = term' := by
  constructor
  · rintro ⟨rest, hrest⟩
    simp only [terminatedKey, nsEntryPrefix, append_assoc] at hrest
    obtain ⟨rfl, rfl, hkey⟩ := nsPrefix_delimited hrest
    rcases lt_trichotomy a b with hab | rfl | hba
    · exact absurd hkey (splits_escape hterm hab _ _).lt.ne
    · exact ⟨rfl, rfl, rfl, (cons.inj (cons.inj (append_cancel_left hkey)).2).1⟩
    · exact absurd hkey (splits_escape hterm' hba _ _).lt.ne'
  · rintro ⟨rfl, rfl, rfl, rfl⟩
    exact (prefix_append_right_inj _).2 (by simp)

/-! ## The entries of one key -/

/-- `scan_index_exact_refs` starts at this prefix, the first byte of both terminators behind the
encoded key. -/
def exactRefsPrefix (index : DurableName) (encodedKey : List UInt8) : List UInt8 :=
  indexEntryPrefix index encodedKey ++ [0]

/-- The condition under which it goes on. -/
def takesExactRef (index : DurableName) (encodedKey key : List UInt8) : Bool :=
  (exactRefsPrefix index encodedKey).isPrefixOf key &&
    match key[(exactRefsPrefix index encodedKey).length]? with
    | some 0 | some 1 => true
    | _ => false

theorem takesExactRef_iff {key : List UInt8} :
    takesExactRef index a key = true ↔
      ∃ term ≤ 1, ∃ tail, key = exactRefsPrefix index a ++ term :: tail := by
  rw [takesExactRef, Bool.and_eq_true, isPrefixOf_iff_prefix]
  constructor
  · rintro ⟨⟨rest, rfl⟩, htag⟩
    cases rest with
    | nil => simp at htag
    | cons term tail =>
      refine ⟨term, ?_, tail, rfl⟩
      rw [getElem?_append_right le_rfl, Nat.sub_self, getElem?_cons_zero] at htag
      split at htag
      · next h => cases h; decide
      · next h => cases h; decide
      · cases htag
  · rintro ⟨term, hterm, tail, rfl⟩
    refine ⟨prefix_append _ _, ?_⟩
    rw [getElem?_append_right le_rfl, Nat.sub_self, getElem?_cons_zero]
    obtain rfl | rfl : term = 0 ∨ term = 1 := by
      rw [← UInt8.toNat_inj, ← UInt8.toNat_inj]
      exact Nat.le_one_iff_eq_zero_or_eq_one.1 (UInt8.le_iff_toNat_le.1 hterm)
    · rfl
    · rfl

/-- The scan takes the entries of its key, in both formats, and no others. -/
theorem takesExactRef_terminatedKey (hterm : term ≤ 1) (s : List UInt8) :
    takesExactRef index a (terminatedKey ns' index' b term s) = true ↔
      indexNs = ns' ∧ index = index' ∧ a = b := by
  have hsmall {t : UInt8} (ht : t ≤ 1) : t < 255 := ht.trans_lt (by decide)
  have hkey (t : UInt8) (tail : List UInt8) :
      exactRefsPrefix index a ++ t :: tail = terminatedKey indexNs index a t tail := by
    simp [exactRefsPrefix, indexEntryPrefix, terminatedKey]
  rw [takesExactRef_iff]
  constructor
  · rintro ⟨t, ht, tail, h⟩
    rw [hkey] at h
    have hprefix : terminatedKey indexNs index a t [] <+: terminatedKey ns' index' b term s :=
      ⟨tail, by rw [h]; simp [terminatedKey]⟩
    obtain ⟨hns, hindex, hab, -⟩ :=
      (terminatedKey_prefix_iff (hsmall ht) (hsmall hterm) s).1 hprefix
    exact ⟨hns, hindex, hab⟩
  · rintro ⟨rfl, rfl, rfl⟩
    exact ⟨term, hterm, s, (hkey term s).symm⟩

/-- The scan has seen every entry of its key when it stops. -/
theorem lt_of_takesExactRef {key key' : List UInt8} (hstart : exactRefsPrefix index a < key')
    (hstop : takesExactRef index a key' = false) (hkey : takesExactRef index a key = true) :
    key < key' := by
  by_contra hle
  obtain ⟨term, hterm, tail, rfl⟩ := takesExactRef_iff.1 hkey
  obtain ⟨x, rest, rfl, hbelow⟩ := exists_extension_of_le hstart (not_lt.1 hle)
  have hx : x ≤ term := by
    rw [← not_lt, cons_lt_cons_iff, not_or] at hbelow
    exact not_lt.1 hbelow.1
  rw [takesExactRef_iff.2 ⟨x, hx.trans hterm, rest, rfl⟩] at hstop
  cases hstop

/-! ## The successor of a prefix -/

/-- Trailing bytes 255 are dropped, and the last byte left goes up by one. -/
def encodedPrefixSuccessor (p : List UInt8) : Option (List UInt8) :=
  match p.reverse.dropWhile (· = 255) with
  | [] => none
  | last :: front => some (front.reverse ++ [last + 1])

theorem encodedPrefixSuccessor_eq (p : List UInt8) :
    encodedPrefixSuccessor p = prefixUpperBound p := by
  rw [encodedPrefixSuccessor, prefixUpperBound]
  induction p.reverse with
  | nil => rfl
  | cons last front ih =>
    rw [bumpLast, dropWhile_cons]
    by_cases h : last = 255
    · simp [h, ih]
    · simp [h, lt_of_le_of_ne (UInt8.le_iff_toNat_le.2 (Nat.le_of_lt_succ last.toNat_lt)) h]

/-! ## Entries -/

theorem decodeIndexEntryKeyAny_terminated (index : DurableName) (encoded : List UInt8)
    {term : UInt8}
    (hterm : term ≤ 1) (tail : List UInt8) :
    decodeIndexEntryKeyAny index (terminatedKey indexNs index encoded term tail) =
      (decodeRef index term tail).map (encoded, ·) := by
  rw [terminatedKey, nsEntryPrefix, append_assoc, ← indexPrefix, decodeIndexEntryKeyAny,
    if_neg (by simp), drop_left, splitTerminated_escape (decide_eq_true hterm) rfl]

theorem decodeNamespacedTermKey_terminated (ns : Vector UInt8 3) (index : DurableName)
    (encoded tail : List UInt8) :
    decodeNamespacedTermKey
      ((terminatedKey ns index encoded 0 tail).drop (nsPrefix ns index).length) index =
      .ok (encoded, tail) := by
  rw [terminatedKey, nsEntryPrefix, append_assoc, drop_left, decodeNamespacedTermKey,
    splitTerminated_escape rfl rfl]

/-- **Index entries** can be read back and sort by encoded key, then by format and row; a prefix of
the encoded key is a range of them, and so are the entries of one key. -/
theorem indexEntryKey_embedding (index : DurableName) :
    (∀ encoded pk,
      decodeIndexEntryKeyAny index (indexEntryKey index encoded pk) = .ok (encoded, .pk pk)) ∧
    (∀ encoded id,
      decodeIndexEntryKeyAny index (indexEntryKeyV3 index encoded id) = .ok (encoded, .intern id)) ∧
    (∀ a b pk pk', indexEntryKey index a pk < indexEntryKey index b pk' ↔
      a < b ∨ a = b ∧ utf8 pk < utf8 pk') ∧
    (∀ a b id id', indexEntryKeyV3 index a id < indexEntryKeyV3 index b id' ↔
      a < b ∨ a = b ∧ id < id') ∧
    (∀ a b pk id, indexEntryKey index a pk < indexEntryKeyV3 index b id ↔ a < b ∨ a = b) ∧
    (∀ p encoded pk, indexEntryPrefix index p <+: indexEntryKey index encoded pk ↔ p <+: encoded) ∧
    (∀ p encoded id,
      indexEntryPrefix index p <+: indexEntryKeyV3 index encoded id ↔ p <+: encoded) ∧
    (∀ p, ∀ bound ∈ encodedPrefixSuccessor p, IsLeast {w | ∀ k, p <+: k → k < w} bound) ∧
    (∀ ns encoded suffix, decodeNamespacedTermKey
      ((nsTermKey ns index encoded suffix).drop (nsPrefix ns index).length) index =
        .ok (encoded, utf8 suffix)) ∧
    (∀ ns encoded suffix, decodeNamespacedTermKey
      ((nsTermU64Key ns index encoded suffix).drop (nsPrefix ns index).length) index =
        .ok (encoded, beBytes 8 suffix.toNat)) ∧
    (∀ a key key', exactRefsPrefix index a < key' → takesExactRef index a key' = false →
      takesExactRef index a key = true → key < key') ∧
    ∀ ns ns' index' a b first term s, first ≤ 1 → term ≤ 1 →
      (nsPrefix ns index <+: terminatedKey ns' index' b term s ↔ ns = ns' ∧ index = index') ∧
      (nsEntryPrefix ns index a <+: terminatedKey ns' index' b term s ↔
        ns = ns' ∧ index = index' ∧ a <+: b) ∧
      (terminatedKey ns index a first [] <+: terminatedKey ns' index' b term s ↔
        ns = ns' ∧ index = index' ∧ a = b ∧ first = term) ∧
      (takesExactRef index a (terminatedKey ns' index' b term s) = true ↔
        indexNs = ns' ∧ index = index' ∧ a = b) := by
  refine ⟨fun encoded pk => ?_, fun encoded id => ?_, fun a b pk pk' => ?_, fun a b id id' => ?_,
    fun a b pk id => ?_, fun p encoded pk => ?_, fun p encoded id => ?_, ?_,
    fun ns encoded _ => decodeNamespacedTermKey_terminated ns index encoded _,
    fun ns encoded _ => decodeNamespacedTermKey_terminated ns index encoded _,
    fun a key key' => lt_of_takesExactRef,
    fun ns ns' index' a b first term s hfirst hterm => ?_⟩
  · rw [indexEntryKey, decodeIndexEntryKeyAny_terminated index encoded (by decide)]
    simp [decodeRef, Except.map]
  · have hid : beNat (beBytes 8 id.toNat) = id.toNat := beNat_beBytes id.toNat_lt
    rw [indexEntryKeyV3, decodeIndexEntryKeyAny_terminated index encoded (by decide)]
    simp [decodeRef, Except.map, hid]
  · rw [indexEntryKey, indexEntryKey, terminatedKey_lt_iff (by decide) (by decide)]
    simp
  · rw [indexEntryKeyV3, indexEntryKeyV3, terminatedKey_lt_iff (by decide) (by decide),
      UInt64.lt_iff_toNat_lt, (strictMonoOn_beBytes 8).lt_iff_lt id.toNat_lt id'.toNat_lt]
    simp
  · rw [indexEntryKey, indexEntryKeyV3, terminatedKey_lt_iff (by decide) (by decide)]
    simp
  · simp [indexEntryPrefix, indexEntryKey, nsEntryPrefix_prefix_iff]
  · simp [indexEntryPrefix, indexEntryKeyV3, nsEntryPrefix_prefix_iff]
  · intro p bound hbound
    rw [encodedPrefixSuccessor_eq, Option.mem_def] at hbound
    exact EndsPrefix.isLeast (hbound ▸ endsPrefix_prefixUpperBound p)
  · have hterm' : term < 255 := hterm.trans_lt (by decide)
    refine ⟨?_, nsEntryPrefix_prefix_iff hterm' s,
      terminatedKey_prefix_iff (hfirst.trans_lt (by decide)) hterm' s,
      takesExactRef_terminatedKey hterm s⟩
    rw [← append_nil (nsPrefix ns index), ← escape_nil, ← nsEntryPrefix,
      nsEntryPrefix_prefix_iff hterm' s]
    simp

end BicDb.Index
