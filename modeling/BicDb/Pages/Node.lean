import BicDb.Pages.Store

/-!
# Nodes of the B+ tree

A node is a page with the frame of a heap page. A directory entry has the offset of its data and the
lengths of key and value; entries stand in key order and none is dead. The list operations are what
the page operations do to the entries, while every offset fits its 16 bits.

## What this module delivers

* `nodeInsert_spec`, `rebuild_spec`: operations on a page as operations on its list.
* `offsets_not_truncated`: every run is exact and read back exactly if pages have at most 64 KiB.
* `offset_truncated_128KiB`: a larger page that is accepted.
-/

namespace BicDb.Pages

open BicDb.Foundation Page List
open Memory hiding fill write read
open BicDb.Paged (Bytes)

abbrev Entries := List (Bytes × Bytes)

/-- An entry of the directory. -/
structure Entry where
  offset : Nat
  keyLen : Nat
  valueLen : Nat

def entryBytes : Nat := 8

def requiredSpace (key value : Bytes) : Nat := key.length + value.length + entryBytes

/-- Bytes in lexicographic order. -/
def compareBytes : Bytes → Bytes → Ordering
  | [], [] => .eq
  | [], _ :: _ => .lt
  | _ :: _, [] => .gt
  | a :: as, b :: bs => if a < b then .lt else if b < a then .gt else compareBytes as bs

/-- Binary search between `low` and `high`; `high - low` rounds are enough. -/
def searchLoop (key : Nat → Bytes) (needle : Bytes) : Nat → Nat → Nat → Nat × Bool
  | 0, low, _ => (low, false)
  | rounds + 1, low, high =>
    if low < high then
      let mid := (low + high) / 2
      match compareBytes (key mid) needle with
      | .lt => searchLoop key needle rounds (mid + 1) high
      | .gt => searchLoop key needle rounds low mid
      | .eq => (mid, true)
    else (low, false)

/-- The first of `count` keys that is not below the needle, and whether it is the needle. -/
def searchKeys (key : Nat → Bytes) (count : Nat) (needle : Bytes) : Nat × Bool :=
  searchLoop key needle count 0 count

namespace Page

variable (p : Page)

/-- The directory entry at an index. -/
def entryAt (index : Nat) : Entry :=
  ⟨p.readU16 (slotOffset index), p.readU16 (slotOffset index + 2), p.readU16 (slotOffset index + 4)⟩

def key (index : Nat) : Bytes := p.bytes.read (p.entryAt index).offset (p.entryAt index).keyLen

def value (index : Nat) : Bytes :=
  p.bytes.read ((p.entryAt index).offset + (p.entryAt index).keyLen) (p.entryAt index).valueLen

/-- The index of a key, and whether it is there. -/
def search (needle : Bytes) : Nat × Bool := searchKeys p.key p.slotCount needle

/-- The entries, in the order of the directory. -/
def entries : Entries := (List.range p.slotCount).map fun index => (p.key index, p.value index)

/-- An empty node. -/
def nodeInit (pageId pageSize : Nat) (leaf : Bool) : Page :=
  init pageId (if leaf then .bTreeLeaf else .bTreeInterior) pageSize 0

def writeEntry (index offset keyLen valueLen : Nat) : Page :=
  (((p.writeU16 (slotOffset index) offset).writeU16 (slotOffset index + 2) keyLen).writeU16
    (slotOffset index + 4) valueLen).writeU16 (slotOffset index + 6) 0

def setCount (count : Nat) : Page :=
  (p.setSlotCount count).setFreeStart (pageHeaderBytes + count * entryBytes)

/-- Drops an entry; its bytes are not reused. -/
def removeAt (index : Nat) : Page :=
  let entry := p.entryAt index
  let q := p.fill entry.offset (entry.offset + entry.keyLen + entry.valueLen)
  (q.copyWithin (slotOffset (index + 1)) (slotOffset p.slotCount)
    (slotOffset (index + 1) - entryBytes)).setCount (p.slotCount - 1)

/-- The key and the value go in side by side, and the directory makes room in the order of keys. -/
def insertFresh (key value : Bytes) : Page :=
  let offset := p.freeEnd - (key ++ value).length
  let q := p.placeData (key ++ value)
  let index := (q.search key).1
  ((q.copyWithin (slotOffset index) (slotOffset q.slotCount)
    (slotOffset index + entryBytes)).writeEntry index offset key.length value.length).setCount
      (q.slotCount + 1)

/-- `false` when there is no room. -/
def nodeInsert (key value : Bytes) : Bool × Page :=
  let found := p.search key
  let entry := p.entryAt found.1
  if found.2 then
    if entry.valueLen = value.length then
      (true, p.copyFromSlice (entry.offset + entry.keyLen) value)
    else if p.freeSpace + entryBytes < requiredSpace key value then (false, p)
    else
      let q := p.removeAt found.1
      if q.freeSpace < requiredSpace key value then (false, q)
      else (true, q.insertFresh key value)
  else if p.freeSpace < requiredSpace key value then (false, p)
  else (true, p.insertFresh key value)

/-- Removes a key. -/
def nodeRemove (key : Bytes) : Bool × Page :=
  if (p.search key).2 then (true, p.removeAt (p.search key).1) else (false, p)

/-- Inserts entries one by one; stops at the first that does not fit. -/
def insertAll (p : Page) : Entries → Bool × Page
  | [] => (true, p)
  | (key, value) :: rest =>
    match p.nodeInsert key value with
    | (true, q) => insertAll q rest
    | (false, q) => (false, q)

def neededSpace (entries : Entries) : Nat := (entries.map fun e => requiredSpace e.1 e.2).sum

/-- Writes the node anew. -/
def rebuild (entries : Entries) (pageSize : Nat) : Except PageError Unit × Page :=
  let needed := neededSpace entries
  let available := usableBytes pageSize
  if available < needed then (.error (.valueTooLarge p.pageId needed available), p)
  else
    let dataTop := pageSize - pageTrailerBytes
    let q :=
      ((((p.fill pageHeaderBytes dataTop).setSlotCount 0).setFreeStart pageHeaderBytes).setFreeEnd
      dataTop).setNextPage p.nextPage
    match q.insertAll entries with
    | (true, q) => (.ok (), q)
    | (false, q) => (.error (.valueTooLarge p.pageId needed available), q)

end Page

/-! ## Entries as a list -/

namespace Entries

variable (entries : Entries)

/-- The index of a key in a list. -/
def search (needle : Bytes) : Nat × Bool :=
  searchKeys (fun index => (entries[index]?.map Prod.fst).getD []) entries.length needle

def insertSorted (key value : Bytes) : Entries :=
  entries.insertIdx (search entries key).1 (key, value)

/-- A value of the same length stays in place. -/
def insert (key value : Bytes) : Entries :=
  let found := search entries key
  if found.2 then
    if (entries[found.1]?.map fun e => e.2.length) = some value.length then
      entries.modify found.1 fun e => (e.1, value)
    else insertSorted (entries.eraseIdx found.1) key value
  else insertSorted entries key value

def remove (key : Bytes) : Entries :=
  if (search entries key).2 then entries.eraseIdx (search entries key).1 else entries

/-- The list after the insertions. -/
def ofList (list : Entries) : Entries := list.foldl (fun acc e => insert acc e.1 e.2) []

end Entries

/-! ## Searching -/

theorem searchLoop_congr {f g : Nat → Bytes} {needle : Bytes} (rounds : Nat) :
    ∀ {low high : Nat}, (∀ i < high, f i = g i) →
      searchLoop f needle rounds low high = searchLoop g needle rounds low high := by
  induction rounds with
  | zero => intros; rfl
  | succ rounds ih =>
    intro low high h
    simp only [searchLoop]
    split
    · rw [h _ (by omega), ih h, ih fun i hi => h i (by omega)]
    · rfl

theorem searchLoop_le {f : Nat → Bytes} {needle : Bytes} (rounds : Nat) :
    ∀ {low high : Nat}, low ≤ high → (searchLoop f needle rounds low high).1 ≤ high ∧
      ((searchLoop f needle rounds low high).2 = true →
        (searchLoop f needle rounds low high).1 < high) := by
  induction rounds with
  | zero => exact fun h => ⟨h, nofun⟩
  | succ rounds ih =>
    intro low high h
    simp only [searchLoop]
    split
    · split
      · exact ih (by omega)
      · obtain ⟨hle, hlt⟩ := @ih low ((low + high) / 2) (by omega)
        exact ⟨by omega, fun hfound => by have := hlt hfound; omega⟩
      · exact ⟨by simp only; omega, fun _ => by simp only; omega⟩
    · exact ⟨h, nofun⟩

variable (p : Page)

@[simp] theorem Page.length_entries : p.entries.length = p.slotCount := by
  simp [entries]

theorem Page.search_eq (needle : Bytes) : p.search needle = p.entries.search needle := by
  rw [search, Entries.search, length_entries]
  refine searchLoop_congr _ fun i hi => ?_
  simp [entries, getElem?_range hi]

theorem Entries.search_le (entries : Entries) (needle : Bytes) :
    (entries.search needle).1 ≤ entries.length ∧
      ((entries.search needle).2 = true → (entries.search needle).1 < entries.length) :=
  searchLoop_le _ (Nat.zero_le _)

/-! ## The directory of a node -/

/-- The length of the data of an entry; that of the value is the lower half of what is the
generation on a heap page. -/
def entryLen (s : Slot) : Nat := s.len + s.generation % 2 ^ 16

def Page.entryOf (s : Slot) : Bytes × Bytes :=
  (p.bytes.read s.offset s.len, p.bytes.read (s.offset + s.len) (s.generation % 2 ^ 16))

/-- A node in order: its data lie as on a heap page, and no entry is dead. -/
structure NodeOk (size : Nat) (p : Page) : Prop where
  layout : LayoutOk entryLen size p
  live : ∀ i < p.slotCount, (p.slotAt i).offset ≠ deadOffset

theorem Page.entryAt_eq (i : Nat) :
    p.entryAt i = ⟨(p.slotAt i).offset, (p.slotAt i).len, (p.slotAt i).generation % 2 ^ 16⟩ := by
  have hlow := (p.bytes (slotOffset i + 4)).toNat_lt
  have hhigh := (p.bytes (slotOffset i + 4 + 1)).toNat_lt
  simp only [entryAt, slotAt, Entry.mk.injEq, true_and]
  simp [readU16, readU32, number, Memory.read, range_succ, leNat]
  omega

theorem Page.entry_eq (i : Nat) : (p.key i, p.value i) = p.entryOf (p.slotAt i) := by
  simp only [key, value, entryOf, entryAt_eq]

theorem Page.getElem?_entries {p : Page} {i : Nat} (hi : i < p.slotCount) :
    p.entries[i]? = some (p.entryOf (p.slotAt i)) := by
  simp [entries, getElem?_range hi, entry_eq]

theorem writeEntry_eq {p : Page} {i offset keyLen valueLen : Nat} (hv : valueLen < 2 ^ 16) :
    p.writeEntry i offset keyLen valueLen = p.writeSlot i offset keyLen valueLen := by
  have hbytes : leBytes 4 valueLen = leBytes 2 valueLen ++ leBytes 2 0 := by
    have hhigh : valueLen / 256 / 256 = 0 := by omega
    simp [leBytes, hhigh]
  simp only [writeEntry, writeSlot, writeU16, writeNumber, putNumber,
    hbytes, write_append, length_leBytes, hv, decide_true, Bool.and_true, Nat.add_assoc]
  simp

section Nodes

variable {size : Nat} {p q : Page} {k : Nat}

variable (h : NodeOk size p)

include h

theorem NodeOk.entryOf {i : Nat} (hi : i < p.slotCount)
    (hq : ∀ a, Occupies entryLen p i a → q.bytes a = p.bytes a) :
    q.entryOf (p.slotAt i) = p.entryOf (p.slotAt i) := by
  have hdata : ∀ a, (p.slotAt i).offset ≤ a →
      a < (p.slotAt i).offset + entryLen (p.slotAt i) → q.bytes a = p.bytes a :=
    fun a hlo hhi => hq a ⟨h.live i hi, hlo, hhi⟩
  simp only [entryLen] at hdata
  rw [Page.entryOf, Page.entryOf, read_congr fun a hlo hhi => hdata a hlo (by omega),
    read_congr fun a hlo hhi => hdata a (by omega) (by omega)]

theorem NodeOk.entries_congr (hcount : q.slotCount = p.slotCount)
    (hslot : ∀ i < p.slotCount, q.slotAt i = p.slotAt i)
    (hdata : ∀ a, p.freeEnd ≤ a → q.bytes a = p.bytes a) : q.entries = p.entries := by
  rw [entries, entries, hcount]
  refine map_congr_left fun i hi => ?_
  have hi := mem_range.mp hi
  rw [entry_eq, entry_eq, hslot i hi, h.entryOf hi fun a hocc => hdata a ?_]
  exact (h.layout.inside i hi hocc.1).1.trans hocc.2.1

theorem NodeOk.remap (from? : Nat → Option Nat)
    (hstart : q.freeStart = pageHeaderBytes + q.slotCount * slotBytes)
    (hroom : q.freeStart ≤ q.freeEnd) (hend : q.freeEnd ≤ p.freeEnd)
    (hinj : ∀ i i' j, from? i = some j → from? i' = some j → i = i')
    (hold : ∀ i < q.slotCount, ∀ j, from? i = some j → j < p.slotCount ∧ q.slotAt i = p.slotAt j)
    (hnew : ∀ i < q.slotCount, from? i = none → i = k ∧ q.freeEnd ≤ (q.slotAt i).offset ∧
      (q.slotAt i).offset + entryLen (q.slotAt i) ≤ p.freeEnd) : NodeOk size q := by
  refine ⟨h.layout.remap from? hstart hroom hend hinj (fun i hi j hj => ?_)
    (fun i hi hnone _ => hnew i hi hnone), fun i hi => ?_⟩
  · obtain ⟨hlt, heq⟩ := hold i hi j hj
    rw [heq]
    exact ⟨hlt, rfl, Nat.le_refl _⟩
  · cases hfrom : from? i with
    | some j =>
      obtain ⟨hlt, heq⟩ := hold i hi j hfrom
      rw [heq]
      exact h.live j hlt
    | none =>
      have hlow := (hnew i hi hfrom).2.1
      simp only [pageHeaderBytes] at hstart
      simp only [deadOffset]
      omega

theorem NodeOk.frame (hq : ∀ a < p.freeStart, 36 ≤ a ∧ a < 44 ∨ 64 ≤ a → q.bytes a = p.bytes a) :
    NodeOk size q ∧ q.slotCount = p.slotCount ∧ q.freeSpace = p.freeSpace ∧
      ∀ i < p.slotCount, q.slotAt i = p.slotAt i := by
  obtain ⟨⟨hcount, hstart, hend⟩, hslot⟩ := h.layout.directory hq
  rw [← h.layout.start] at hstart
  refine ⟨h.remap (k := 0) some ?_ ?_ hend.le ?_ ?_ nofun, hcount, ?_, hslot⟩
  · rw [hstart, hcount]
    exact h.layout.start
  · rw [hstart, hend]
    exact h.layout.room
  · rintro i i' j ⟨⟩ ⟨⟩
    rfl
  · rintro i hi j ⟨⟩
    exact ⟨hcount ▸ hi, hslot i (hcount ▸ hi)⟩
  · rw [freeSpace, freeSpace, hstart, hend]

omit h

theorem setCount_spec {n : Nat} (hn : 64 + n * 8 < 2 ^ 16) :
    Counters (q.setCount n) n q.freeEnd ∧ (q.setCount n).exact = q.exact ∧
      ∀ a, a < 36 ∨ 42 ≤ a → (q.setCount n).bytes a = q.bytes a :=
  counters_set rfl hn

/-- **Removing** an entry. -/
theorem removeAt_spec (hsize : size ≤ 65536) (h : NodeOk size p) (hk : k < p.slotCount) :
    NodeOk size (p.removeAt k) ∧ Preserved p (p.removeAt k) ∧
      (p.removeAt k).entries = p.entries.eraseIdx k ∧
      (p.removeAt k).freeEnd = p.freeEnd ∧ (p.removeAt k).freeStart + entryBytes = p.freeStart := by
  have hlt := h.layout.freeEnd_lt hsize
  have hstart := h.layout.start_eq
  have hroom := h.layout.room
  have hin := fun i hi => (h.layout.inside i hi (h.live i hi)).1
  have hoff := hin k hk
  -- the page before its counters are set
  generalize hmid : (p.fill (p.entryAt k).offset ((p.entryAt k).offset + (p.entryAt k).keyLen +
    (p.entryAt k).valueLen)).copyWithin (slotOffset (k + 1)) (slotOffset p.slotCount)
      (slotOffset (k + 1) - entryBytes) = mid
  have hremove : p.removeAt k = mid.setCount (p.slotCount - 1) := by
    rw [← hmid]
    rfl
  have hfill : ∀ a, ¬ Occupies entryLen p k a → (p.fill (p.entryAt k).offset
      ((p.entryAt k).offset + (p.entryAt k).keyLen + (p.entryAt k).valueLen)).bytes a =
        p.bytes a := by
    intro a hocc
    have := h.live k hk
    simp only [Occupies, entryLen] at hocc
    simp only [entryAt_eq]
    exact fill_outside (by omega)
  have hbelow : ∀ a, a < p.freeEnd → ¬ Occupies entryLen p k a := by
    intro a ha hocc
    have := hocc.2.1
    omega
  have hdata : ∀ a, a < slotOffset k ∨ p.freeStart ≤ a → ¬ Occupies entryLen p k a →
      mid.bytes a = p.bytes a := by
    intro a ha hocc
    rw [← hmid, ← hfill a hocc]
    exact if_neg (by simp only [slotOffset, pageHeaderBytes, slotBytes, entryBytes] at *; omega)
  have hmoved : ∀ j d, k ≤ j → j + 1 < p.slotCount → d < 8 →
      mid.bytes (slotOffset j + d) = p.bytes (slotOffset (j + 1) + d) := by
    intro j d hkj hj hd
    rw [← hmid, ← hfill _ (hbelow _ (by simp only [slotOffset, pageHeaderBytes, slotBytes]; omega))]
    refine (if_pos ?_).trans ?_ <;>
      simp only [slotOffset, pageHeaderBytes, slotBytes, entryBytes]
    · omega
    · congr 1
      omega
  have hexact : mid.exact = p.exact := by
    rw [← hmid]
    rfl
  obtain ⟨hc, hsetExact, hset⟩ := setCount_spec (n := p.slotCount - 1)
    (by omega)
  rw [← hremove] at hc hsetExact hset
  generalize p.removeAt k = r at *
  have hcount := hc.slotCount
  have hrstart := hc.freeStart
  simp only [pageHeaderBytes, slotBytes] at hrstart
  have hend : r.freeEnd = p.freeEnd := hc.freeEnd.trans (number_congr fun a _ _ =>
    hdata a (.inl (by simp only [slotOffset, pageHeaderBytes]; omega)) (hbelow a (by omega)))
  have hslot : ∀ i < p.slotCount - 1, r.slotAt i = p.slotAt (if i < k then i else i + 1) := by
    intro i hi
    apply slotAt_congr
    intro d hd
    rw [hset _ (by omega)]
    split
    · exact hdata _ (.inl (by simp only [slotOffset, pageHeaderBytes, slotBytes]; omega))
        (hbelow _ (by omega))
    · exact hmoved i d (by omega) (by omega) hd
  refine ⟨h.remap (k := k)
    (fun i => some (if i < k then i else i + 1)) ?_ ?_ hend.le ?_ ?_ (by simp),
    Preserved.of_bytes (fun a ha hout => ?_) (hsetExact.trans hexact), ?_, hend, ?_⟩
  · rw [hc.freeStart, hcount]
  · omega
  · intro i i' j hi hi'
    simp only [Option.some.injEq] at hi hi'
    split at hi <;> split at hi' <;> omega
  · intro i hi j hj
    cases hj
    rw [hcount] at hi
    exact ⟨by split <;> omega, hslot i hi⟩
  · rw [hset a hout]
    exact hdata a (.inl (by simp only [slotOffset, pageHeaderBytes]; omega)) (hbelow a (by omega))
  · refine ext_getElem? fun i => ?_
    rw [getElem?_eraseIdx]
    by_cases hi : i < p.slotCount - 1
    · have hfrom : (if i < k then i else i + 1) < p.slotCount := by split <;> omega
      have hne : (if i < k then i else i + 1) ≠ k := by split <;> omega
      rw [getElem?_entries (hcount ▸ hi), hslot i hi, ← apply_ite (fun j => p.entries[j]?),
        getElem?_entries hfrom, h.entryOf hfrom fun a hocc => ?_]
      have := (hin _ hfrom).trans hocc.2.1
      rw [hset a (by omega)]
      exact hdata a (by omega) (h.layout.apart _ hfrom k hk hne a hocc)
    · rw [if_neg (by omega), getElem?_eq_none (by simp; omega), getElem?_eq_none (by simp; omega)]
  · simp only [entryBytes]
    omega

/-- **Adding** an entry that fits. -/
theorem insertFresh_spec (hsize : size ≤ 65536) (h : NodeOk size p) {key value : Bytes}
    (hfit : requiredSpace key value ≤ p.freeSpace) :
    NodeOk size (p.insertFresh key value) ∧ Preserved p (p.insertFresh key value) ∧
      (p.insertFresh key value).entries = p.entries.insertSorted key value ∧
      (p.insertFresh key value).freeEnd + key.length + value.length = p.freeEnd ∧
      (p.insertFresh key value).freeStart = p.freeStart + entryBytes := by
  have hlt := h.layout.freeEnd_lt hsize
  have hstart := h.layout.start_eq
  have hroom := h.layout.room
  have hin := fun i hi => (h.layout.inside i hi (h.live i hi)).1
  simp only [requiredSpace, entryBytes, freeSpace] at hfit
  have hlen : (key ++ value).length = key.length + value.length := length_append
  obtain ⟨hc, hqexact, hq⟩ := @placeData_spec p (key ++ value)
    (by rw [hlen]; omega) hlt h.layout.start
  have hcount := hc.slotCount
  unfold insertFresh
  dsimp only
  rw [writeEntry_eq (by omega)]
  generalize p.placeData (key ++ value) = q at *
  rw [hlen] at hc hq ⊢
  -- what lies outside the free space is as it was
  have hout : ∀ a, a < 36 ∨ 42 ≤ a → a < p.freeStart ∨ p.freeEnd ≤ a → q.bytes a = p.bytes a :=
    fun a ha hfree => (hq a (by omega)).trans (write_outside (by rw [hlen]; omega))
  have hqslot : ∀ i < p.slotCount, q.slotAt i = p.slotAt i := fun i hi =>
    slotAt_congr fun d hd => hout _ (by omega) (by omega)
  rw [q.search_eq, h.entries_congr hcount hqslot fun a ha => hout a (by omega) (.inr ha), hcount]
  have hk := (p.entries.search_le key).1
  rw [length_entries] at hk
  simp only [Entries.insertSorted]
  generalize (p.entries.search key).1 = k at *
  generalize hmid : q.copyWithin (slotOffset k) (slotOffset p.slotCount)
    (slotOffset k + entryBytes) = mid
  have hkeep : ∀ a, a < slotOffset k ∨ p.freeStart + 8 ≤ a → mid.bytes a = q.bytes a := by
    intro a ha
    rw [← hmid]
    exact if_neg (by simp only [slotOffset, pageHeaderBytes, slotBytes, entryBytes] at *; omega)
  have hmoved : ∀ j d, k ≤ j → j < p.slotCount → d < 8 →
      mid.bytes (slotOffset (j + 1) + d) = q.bytes (slotOffset j + d) := by
    intro j d hkj hj hd
    rw [← hmid]
    refine (if_pos ?_).trans ?_ <;>
      simp only [slotOffset, pageHeaderBytes, slotBytes, entryBytes]
    · omega
    · congr 1
      omega
  have hself := @slotAt_writeSlot mid k (p.freeEnd - (key.length + value.length)) key.length
    value.length (by omega) (by omega) (by omega)
  have hwexact := @exact_writeSlot mid k (p.freeEnd - (key.length + value.length)) key.length
    value.length (by omega) (by omega)
  have hwrite :=
    fun a => @bytes_writeSlot mid k (p.freeEnd - (key.length + value.length)) key.length
    value.length a
  have hmexact : mid.exact = p.exact := by
    rwa [← hmid]
  generalize mid.writeSlot k (p.freeEnd - (key.length + value.length)) key.length value.length =
    written at *
  obtain ⟨hrc, hrexact, hr⟩ := setCount_spec (q := written) (n := p.slotCount + 1)
    (by omega)
  generalize written.setCount (p.slotCount + 1) = r at *
  have hrcount := hrc.slotCount
  have hrstart := hrc.freeStart
  simp only [pageHeaderBytes, slotBytes] at hrstart
  simp only [slotOffset, pageHeaderBytes, slotBytes] at hkeep hmoved
  have hend : r.freeEnd = p.freeEnd - (key.length + value.length) := by
    rw [hrc.freeEnd, ← hc.freeEnd]
    exact number_congr fun a _ _ => (hwrite a (by omega)).trans (hkeep a (by omega))
  have hkslot :
      r.slotAt k = ⟨p.freeEnd - (key.length + value.length), key.length, value.length⟩ := by
    rw [← hself]
    exact slotAt_congr fun d _ => hr _ (.inr (by omega))
  have hslot : ∀ i ≤ p.slotCount, i ≠ k → r.slotAt i = p.slotAt (if i < k then i else i - 1) := by
    intro i hi hne
    rw [← hqslot _ (by split <;> omega)]
    apply slotAt_congr
    intro d hd
    rw [hr _ (by omega), hwrite _ (by omega)]
    split
    · exact hkeep _ (by omega)
    · obtain ⟨j, rfl⟩ : ∃ j, i = j + 1 := ⟨i - 1, by omega⟩
      exact hmoved j d (by omega) (by omega) hd
  have hdata : ∀ a, p.freeEnd - (key.length + value.length) ≤ a → r.bytes a = q.bytes a := by
    intro a ha
    rw [hr a (by omega), hwrite a (by omega), hkeep a (by omega)]
  have hnew : r.entryOf (r.slotAt k) = (key, value) := by
    have hread :
        r.bytes.read (p.freeEnd - (key.length + value.length)) (key.length + value.length) =
        key ++ value := by
      rw [← hlen]
      refine (read_congr fun a ha _ => ?_).trans (read_write (m := p.bytes) _)
      rw [hlen] at ha ⊢
      rw [hdata a ha, hq a (by omega)]
    rw [read_add] at hread
    obtain ⟨hkey, hvalue⟩ := append_inj hread (by simp)
    have hvlen : value.length % 2 ^ 16 = value.length := Nat.mod_eq_of_lt (by omega)
    simp only [hkslot, entryOf, hvlen, hkey, hvalue]
  refine ⟨h.remap (k := k) (fun i => if i = k then none else some (if i < k then i else i - 1))
    ?_ ?_ ?_ ?_ ?_ ?_, Preserved.of_bytes (fun a ha hout' => ?_)
      (hrexact.trans (hwexact.trans hmexact)), ?_, ?_, ?_⟩
  · rw [hrc.freeStart, hrcount]
  · omega
  · omega
  · intro i i' j hi hi'
    simp only [Option.ite_none_left_eq_some, Option.some.injEq] at hi hi'
    split at hi <;> split at hi' <;> omega
  · intro i hi j hj
    simp only [Option.ite_none_left_eq_some, Option.some.injEq] at hj
    obtain ⟨hne, rfl⟩ := hj
    exact ⟨by split <;> omega, hslot i (by omega) hne⟩
  · intro i hi hnone
    simp only [ite_eq_left_iff, reduceCtorEq, imp_false, not_not] at hnone
    subst hnone
    rw [hkslot, hend]
    exact ⟨rfl, Nat.le_refl _, by simp only [entryLen]; omega⟩
  · rw [hr a hout', hwrite a (by omega), hkeep a (by omega)]
    exact hout a hout' (by omega)
  · refine ext_getElem? fun i => ?_
    rw [getElem?_insertIdx]
    by_cases hik : i = k
    · subst hik
      rw [if_neg (Nat.lt_irrefl _), if_pos rfl, if_pos (by simpa using hk),
        getElem?_entries (by omega), hnew]
    · rw [if_neg hik, ← apply_ite (fun j => p.entries[j]?)]
      by_cases hi : i ≤ p.slotCount
      · have hfrom : (if i < k then i else i - 1) < p.slotCount := by split <;> omega
        rw [getElem?_entries (by omega), getElem?_entries hfrom, hslot i hi hik,
          h.entryOf hfrom fun a hocc => ?_]
        have := (hin _ hfrom).trans hocc.2.1
        rw [hdata a (by omega), hout a (by omega) (by omega)]
      · rw [getElem?_eq_none (by simp; omega), getElem?_eq_none (by simp; split <;> omega)]
  · omega
  · simp only [entryBytes]
    omega

/-- A value of the same length goes in place. -/
theorem overwrite_spec (h : NodeOk size p) (hk : k < p.slotCount) {value : Bytes}
    (hlen : (p.entryAt k).valueLen = value.length)
    (hq : q = p.copyFromSlice ((p.entryAt k).offset + (p.entryAt k).keyLen) value) :
    NodeOk size q ∧ Preserved p q ∧ q.entries = p.entries.modify k (fun e => (e.1, value)) ∧
      q.freeSpace = p.freeSpace := by
  have hstart := h.layout.start_eq
  have hroom := h.layout.room
  have hin := (h.layout.inside k hk (h.live k hk)).1
  rw [entryAt_eq] at hlen hq
  simp only at hlen hq
  have hout : ∀ a, ¬ Occupies entryLen p k a → q.bytes a = p.bytes a := by
    intro a hocc
    have := h.live k hk
    simp only [Occupies, entryLen] at hocc
    rw [hq]
    exact write_outside (by omega)
  have hbelow : ∀ a, a < p.freeEnd → q.bytes a = p.bytes a :=
    fun a ha => hout a fun hocc => by have := hocc.2.1; omega
  obtain ⟨hok, hcount, hspace, hslot⟩ := h.frame fun a ha _ => hbelow a (by omega)
  refine ⟨hok, Preserved.of_bytes (fun a ha _ => ?_) (hq ▸ rfl), ?_, hspace⟩
  · exact hbelow a (by omega)
  · refine ext_getElem? fun i => ?_
    rw [getElem?_modify]
    by_cases hi : i < p.slotCount
    · rw [getElem?_entries (hcount ▸ hi), getElem?_entries hi, hslot i hi]
      by_cases hik : k = i
      · subst hik
        have hkey : q.bytes.read (p.slotAt k).offset (p.slotAt k).len =
            p.bytes.read (p.slotAt k).offset (p.slotAt k).len := by
          refine read_congr fun a ha hhi => ?_
          rw [hq]
          exact write_outside (by omega)
        have hvalue : q.bytes.read ((p.slotAt k).offset + (p.slotAt k).len)
            ((p.slotAt k).generation % 2 ^ 16) = value := by
          rw [hlen, hq]
          exact read_write _
        simp only [entryOf, hkey, hvalue, if_true]
        rfl
      · rw [h.entryOf hi fun a hocc => hout a (h.layout.apart i hi k hk (Ne.symm hik) a hocc)]
        simp [hik]
    · rw [getElem?_eq_none (by simp; omega), getElem?_eq_none (by simp; omega)]
      rfl

/-- **Inserting** an entry, or replacing the value of its key. Without room nothing changes. -/
theorem nodeInsert_spec (hsize : size ≤ 65536) (h : NodeOk size p) (key value : Bytes) :
    (∃ q, p.nodeInsert key value = (true, q) ∧ NodeOk size q ∧ Preserved p q ∧
      q.entries = p.entries.insert key value ∧
      p.freeSpace ≤ q.freeSpace + requiredSpace key value) ∨
    (p.nodeInsert key value = (false, p) ∧ p.freeSpace < requiredSpace key value) := by
  have hlt := (Entries.search_le p.entries key).2
  rw [← search_eq, length_entries] at hlt
  rw [Entries.insert, ← search_eq, nodeInsert]
  by_cases hfound : (p.search key).2 = true
  · have hk := hlt hfound
    have hvalue : (p.entries[(p.search key).1]?.map fun e => e.2.length) =
        some (p.entryAt (p.search key).1).valueLen := by
      simp [getElem?_entries hk, entryOf, entryAt_eq]
    simp only [hfound, if_true, hvalue, Option.some.injEq]
    split
    · next hlen =>
      obtain ⟨hok, hkept, hentries, hfree⟩ := overwrite_spec h hk hlen rfl
      exact .inl ⟨_, rfl, hok, hkept, hentries, by omega⟩
    · split
      · next hsmall => exact .inr ⟨rfl, by omega⟩
      · -- the entry leaves the directory, and its place there is room for the new one
        obtain ⟨hok, hkept, hentries, hend, hstart⟩ := removeAt_spec hsize h hk
        have hroom := h.layout.room
        have hspace : (p.removeAt (p.search key).1).freeSpace = p.freeSpace + entryBytes := by
          simp only [freeSpace, hend]
          omega
        rw [if_neg (by omega)]
        obtain ⟨hok', hkept', hentries', hend', hstart'⟩ := @insertFresh_spec _ _ hsize hok
          key value (by omega)
        refine .inl ⟨_, rfl, hok', hkept.trans hkept', hentries'.trans (by rw [hentries]), ?_⟩
        simp only [freeSpace, requiredSpace] at hspace ⊢
        omega
  · simp only [hfound, Bool.false_eq_true, if_false]
    split
    · next hsmall => exact .inr ⟨rfl, hsmall⟩
    next hfit =>
    obtain ⟨hok, hkept, hentries, hend, hstart⟩ := insertFresh_spec hsize h (Nat.not_lt.mp hfit)
    refine .inl ⟨_, rfl, hok, hkept, hentries, ?_⟩
    simp only [freeSpace, requiredSpace]
    omega

/-- **Removing** the entry of a key. -/
theorem nodeRemove_spec (hsize : size ≤ 65536) (h : NodeOk size p) (key : Bytes) :
    NodeOk size (p.nodeRemove key).2 ∧ Preserved p (p.nodeRemove key).2 ∧
      (p.nodeRemove key).2.entries = p.entries.remove key := by
  have hlt := (Entries.search_le p.entries key).2
  rw [← search_eq, length_entries] at hlt
  rw [Entries.remove, ← search_eq, nodeRemove]
  split
  · next hfound =>
    obtain ⟨hok, hkept, hentries, -⟩ := removeAt_spec hsize h (hlt hfound)
    exact ⟨hok, hkept, hentries⟩
  · exact ⟨h, .refl p, rfl⟩

theorem insertAll_spec (hsize : size ≤ 65536) (list : Entries) :
    ∀ {p : Page}, NodeOk size p → Page.neededSpace list ≤ p.freeSpace →
      ∃ q, p.insertAll list = (true, q) ∧ NodeOk size q ∧ Preserved p q ∧
        q.entries = list.foldl (fun acc e => acc.insert e.1 e.2) p.entries := by
  induction list with
  | nil => exact fun h _ => ⟨_, rfl, h, .refl _, rfl⟩
  | cons e rest ih =>
    intro p h hfit
    simp only [neededSpace, map_cons, sum_cons] at hfit ih
    rcases nodeInsert_spec hsize h e.1 e.2 with
      ⟨q, hrun, hok, hkept, hentries, hspace⟩ | ⟨-, hsmall⟩
    · obtain ⟨r, hrest, hokr, hkeptr, hentriesr⟩ := ih hok (by omega)
      refine ⟨r, ?_, hokr, hkept.trans hkeptr, ?_⟩
      · rwa [insertAll, hrun]
      · rw [hentriesr, hentries, foldl_cons]
    · omega

theorem clear_spec (hlo : minPageSize ≤ size) (hsize : size ≤ 65536) (hq :
    ((((p.fill pageHeaderBytes (size - pageTrailerBytes)).setSlotCount 0).setFreeStart
      pageHeaderBytes).setFreeEnd (size - pageTrailerBytes)).setNextPage p.nextPage = q) :
    NodeOk size q ∧ Preserved p q ∧ q.slotCount = 0 ∧ q.freeSpace = usableBytes size := by
  have hend : size - pageTrailerBytes < 2 ^ 16 := by
    simp only [pageTrailerBytes]
    omega
  have hfree : q.freeEnd = size - pageTrailerBytes := by
    rw [← hq]
    exact (number_putNumber_disjoint (by decide)).trans (number_putNumber hend)
  obtain ⟨hc, -⟩ := @counters_set (p.fill pageHeaderBytes (size - pageTrailerBytes)) 0 _ rfl
    (by decide)
  have hstart : q.freeStart = pageHeaderBytes := by
    rw [← hq]
    exact (number_putNumber_disjoint (by decide)).trans
      ((number_putNumber_disjoint (by decide)).trans hc.freeStart)
  have hcount : q.slotCount = 0 := by
    rw [← hq]
    exact (number_putNumber_disjoint (by decide)).trans
      ((number_putNumber_disjoint (by decide)).trans hc.slotCount)
  -- the rest of the header is neither cleared nor written
  have hbyte : ∀ a, a < 36 ∨ 52 ≤ a ∧ a < 64 → q.bytes a = p.bytes a := by
    intro a ha
    rw [← hq]
    refine (putNumber_outside (by omega)).trans ((putNumber_outside (by omega)).trans
      ((putNumber_outside (by omega)).trans ((putNumber_outside (by omega)).trans ?_)))
    exact fill_outside (by simp only [pageHeaderBytes]; omega)
  refine ⟨⟨.empty hstart hfree hcount hlo, by simp [hcount]⟩,
    ⟨number_congr fun a _ _ => hbyte a (by omega),
      number_congr fun a _ _ => hbyte a (by omega), ?_, hbyte 6 (by decide), ?_⟩, hcount, ?_⟩
  · rw [← hq]
    exact number_putNumber (number_lt 8)
  · simp only [← hq, setNextPage, setSlotCount, setFreeEnd, setFreeStart, writeU16,
      writeNumber, fill, decide_eq_true hend]
    simp [pageHeaderBytes]
  · simp only [freeSpace, hfree, hstart, usableBytes]
    omega

/-- **Rebuilding** a node from a list fails exactly when the list is too long for a page. -/
theorem rebuild_spec (hlo : minPageSize ≤ size) (hsize : size ≤ 65536) (p : Page) (list : Entries) :
    if Page.neededSpace list ≤ usableBytes size then
      ∃ q, p.rebuild list size = (.ok (), q) ∧ NodeOk size q ∧ Preserved p q ∧
        q.entries = Entries.ofList list
    else ∃ e, p.rebuild list size = (.error e, p) := by
  rw [rebuild]
  split
  · next hfit =>
    generalize hq :
        ((((p.fill pageHeaderBytes (size - pageTrailerBytes)).setSlotCount 0).setFreeStart
      pageHeaderBytes).setFreeEnd (size - pageTrailerBytes)).setNextPage p.nextPage = q
    obtain ⟨hok, hkept, hcount, hspace⟩ := clear_spec hlo hsize hq
    obtain ⟨r, hrun, hokr, hkeptr, hentries⟩ := insertAll_spec hsize list hok (by omega)
    refine ⟨r, ?_, hokr, hkept.trans hkeptr, ?_⟩
    · simp only [if_neg (Nat.not_lt.mpr hfit), hq, hrun]
    · rw [hentries, Entries.ofList, eq_nil_of_length_eq_zero (q.length_entries.trans hcount)]
  · next hfit => exact ⟨_, by rw [if_pos (Nat.lt_of_not_ge hfit)]⟩

theorem setNextPage_spec (h : NodeOk size p) (next : Nat) :
    NodeOk size (p.setNextPage next) ∧ (p.setNextPage next).entries = p.entries := by
  generalize hq : p.setNextPage next = q
  have hout : ∀ a, a < 44 ∨ 52 ≤ a → q.bytes a = p.bytes a :=
    fun a ha => hq ▸ putNumber_outside (by omega)
  obtain ⟨hok, hcount, -, hslot⟩ := h.frame fun a _ ha => hout a (by omega)
  have hroom := h.layout.room
  have hbase := h.layout.start
  simp only [pageHeaderBytes] at hbase
  exact ⟨hok, h.entries_congr hcount hslot fun a ha => hout a (by omega)⟩

end Nodes

/-! ## Runs on a node -/

/-- The operations on a node. -/
inductive NodeOp where
  | insert (key value : Bytes)
  | remove (key : Bytes)
  | rebuild (entries : Entries)
  | setNextPage (next : Nat)

/-- A node with the list it stands for. -/
structure NodeRun where
  page : Page
  written : Entries

namespace NodeRun

def new (pageId size : Nat) (leaf : Bool) : NodeRun := ⟨.nodeInit pageId size leaf, []⟩

/-- One operation. -/
def step (size : Nat) (s : NodeRun) : NodeOp → Option NodeRun
  | .insert key value =>
    let done := s.page.nodeInsert key value
    some ⟨done.2, if done.1 then s.written.insert key value else s.written⟩
  | .remove key => some ⟨(s.page.nodeRemove key).2, s.written.remove key⟩
  | .rebuild entries =>
    match s.page.rebuild entries size with
    | (.ok _, page) => some ⟨page, .ofList entries⟩
    | (.error _, page) => some ⟨page, s.written⟩
  | .setNextPage next => some { s with page := s.page.setNextPage next }

end NodeRun

/-- The node holds its list, exactly. -/
structure NodeRunOk (size : Nat) (s : NodeRun) : Prop where
  ok : NodeOk size s.page
  exact : s.page.exact = true
  written : s.page.entries = s.written

variable {size : Nat}

theorem NodeRunOk.step {s s' : NodeRun} {op : NodeOp} (hlo : minPageSize ≤ size)
    (hhi : size ≤ 65536) (h : NodeRunOk size s) (hstep : s.step size op = some s') :
    NodeRunOk size s' := by
  cases op with
  | insert key value =>
    rcases nodeInsert_spec hhi h.ok key value with
      ⟨q, hrun, hok, hkept, hentries, -⟩ | ⟨hrun, -⟩ <;>
      simp only [NodeRun.step, hrun, Option.some.injEq] at hstep <;> subst hstep
    · exact ⟨hok, hkept.exact.trans h.exact, hentries.trans (by rw [h.written]; rfl)⟩
    · exact h
  | remove key =>
    obtain ⟨hok, hkept, hentries⟩ := nodeRemove_spec hhi h.ok key
    cases hstep
    exact ⟨hok, hkept.exact.trans h.exact, hentries.trans (by rw [h.written])⟩
  | rebuild entries =>
    have hspec := rebuild_spec hlo hhi s.page entries
    split at hspec
    · obtain ⟨q, hrun, hok, hkept, hentries⟩ := hspec
      simp only [NodeRun.step, hrun, Option.some.injEq] at hstep
      subst hstep
      exact ⟨hok, hkept.exact.trans h.exact, hentries⟩
    · obtain ⟨e, hrun⟩ := hspec
      simp only [NodeRun.step, hrun, Option.some.injEq] at hstep
      subst hstep
      exact h
  | setNextPage next =>
    obtain ⟨hok, hentries⟩ := setNextPage_spec h.ok next
    cases hstep
    exact ⟨hok, h.exact, hentries.trans h.written⟩

theorem NodeRunOk.reach {pageId : Nat} {leaf : Bool} (hlo : minPageSize ≤ size) (hhi : size ≤ 65536)
    {s : NodeRun}
    (h : Reach (NodeRun.step size) (fun _ _ => True) (NodeRun.new pageId size leaf) s) :
    NodeRunOk size s := by
  obtain ⟨hok, hcount, hexact, -⟩ := @init_spec entryLen size pageId
    (if leaf then .bTreeLeaf else .bTreeInterior) 0 hlo hhi
  refine h.invariant (NodeRunOk size) ⟨⟨hok, ?_⟩, hexact, ?_⟩
    fun _ _ _ hs _ hstep => hs.step hlo hhi hstep
  · rw [NodeRun.new, nodeInit, hcount]
    exact nofun
  · exact eq_nil_of_length_eq_zero ((length_entries _).trans hcount)

theorem minPageSize_le_of_valid (h : validatePageSize size = .ok ()) :
    minPageSize ≤ size := by
  rw [validatePageSize] at h
  split at h
  · cases h
  · next hvalid => exact Nat.not_lt.mp fun hlt => hvalid (.inl hlt)

/-- The next accepted size above 64 KiB is twice as large. -/
theorem size_of_valid (h : validatePageSize size = .ok ()) (hsize : ¬ size ≤ 65536) :
    2 ^ 17 ≤ size := by
  rw [validatePageSize] at h
  split at h
  · cases h
  · next hvalid =>
    obtain ⟨k, rfl⟩ : size.isPowerOfTwo := by
      by_contra hpower
      exact hvalid (.inr (.inr (.inl hpower)))
    have hk : 16 < k := (Nat.pow_lt_pow_iff_right (by decide : 1 < 2)).1 (by omega)
    exact Nat.pow_le_pow_right (by decide) hk

/-- **Offsets are not truncated**, and everything is read back, exactly on pages of up to 64 KiB. -/
theorem offsets_not_truncated {size : Nat} (hvalid : validatePageSize size = .ok ()) :
    ((∀ pageId floor s,
      Reach (PageRun.step size) (fun _ _ => True) (PageRun.new pageId size floor) s →
        s.page.exact = true ∧ ∀ l value, s.held l = some value → s.page.get l = .ok value) ∧
    ∀ pageId leaf s,
      Reach (NodeRun.step size) (fun _ _ => True) (NodeRun.new pageId size leaf) s →
        s.page.exact = true ∧ s.page.entries = s.written) ↔ size ≤ 65536 := by
  have hlo := minPageSize_le_of_valid hvalid
  constructor
  · rintro ⟨hheap, -⟩
    by_contra hsize
    have hlarge := size_of_valid hvalid hsize
    have hexact := (hheap 0 0 _ .start).1
    have hinexact : (Page.init 0 .heap size 0).exact = false :=
      init_inexact 0 .heap 0 (by rw [pageTrailerBytes]; omega)
    rw [PageRun.new, initWithFloor, hinexact] at hexact
    cases hexact
  · intro hsize
    refine ⟨fun pageId floor s h => ?_, fun pageId leaf s h => ?_⟩
    · have hok := RunOk.reach hlo hsize h
      exact ⟨hok.exact, fun l value => hok.get⟩
    · have hok := NodeRunOk.reach hlo hsize h
      exact ⟨hok.exact, hok.written⟩

/-- The largest pages that are safe. -/
theorem offsets_not_truncated_64KiB :
    ∃ s t, Reach (PageRun.step 65536) (fun _ _ => True) (PageRun.new 1 65536 0) s ∧
      s.page.get ⟨1, 0, 1⟩ = .ok [7] ∧
      Reach (NodeRun.step 65536) (fun _ _ => True) (NodeRun.new 2 65536 true) t ∧
      t.page.entries = [([1], [10]), ([2], [20, 20])] := by
  obtain ⟨s, hs, hheld⟩ : ∃ s, Reach (PageRun.step 65536) (fun _ _ => True)
      (PageRun.new 1 65536 0) s ∧ s.held ⟨1, 0, 1⟩ = some [7] :=
    exists_reach [.insert [7], .compact] (by decide +kernel)
  obtain ⟨t, ht, hwritten⟩ : ∃ t, Reach (NodeRun.step 65536) (fun _ _ => True)
      (NodeRun.new 2 65536 true) t ∧ t.written = [([1], [10]), ([2], [20, 20])] :=
    exists_reach [.insert [2] [20], .insert [1] [10], .insert [2] [20, 20]] (by decide +kernel)
  obtain ⟨hheap, hnode⟩ := (@offsets_not_truncated 65536 rfl).2 (Nat.le_refl _)
  exact ⟨s, t, hs, (hheap _ _ _ hs).2 _ _ hheld, ht, ((hnode _ _ _ ht).2).trans hwritten⟩

/-- A page of 128 KiB is accepted: the tuple that compaction moves to the top is not where its slot
says. -/
theorem offset_truncated_128KiB :
    validatePageSize 131072 = .ok () ∧ (PageRun.new 1 131072 0).page.exact = false ∧
      ∃ s, Reach (PageRun.step 131072) (fun _ _ => True) (PageRun.new 1 131072 0) s ∧
        s.held ⟨1, 0, 1⟩ = some [7] ∧ s.page.get ⟨1, 0, 1⟩ = .ok [0] :=
  ⟨rfl, by decide, exists_reach [.insert [7], .compact] (by decide +kernel)⟩

end BicDb.Pages
