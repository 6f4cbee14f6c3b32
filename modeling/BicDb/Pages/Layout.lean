import BicDb.Pages.Slotted

/-!
# The layout of a slotted page

What keeps tuples and directory apart (`LayoutOk`), and what each operation does to the page seen as
cells (`Page.cellAt`). All operations but compaction write into the free space, one slot and its
tuple (`Changed`); `LayoutOk.rewrite` says once what follows.
-/

namespace BicDb.Pages

open BicDb.Foundation Page List
open Memory hiding fill write read
open Function hiding update
open BicDb.Paged (Bytes TupleLocator)

/-! ## Writing a slot -/

variable {p : Page} {k offset len generation : Nat}

theorem slotAt_writeSlot (ho : offset < 2 ^ 16) (hl : len < 2 ^ 16) (hg : generation < 2 ^ 32) :
    (p.writeSlot k offset len generation).slotAt k = ⟨offset, len, generation⟩ := by
  simp (disch := omega) [slotAt, writeSlot, readU16, readU32, writeU16,
    writeNumber, number_putNumber, number_putNumber_disjoint]

theorem bytes_writeSlot {a : Nat} (h : a < 64 + k * 8 ∨ 64 + k * 8 + 8 ≤ a) :
    (p.writeSlot k offset len generation).bytes a = p.bytes a := by
  simp (disch := omega) [writeSlot, slotOffset, pageHeaderBytes, slotBytes, writeU16, writeNumber,
    putNumber_outside]

theorem exact_writeSlot (ho : offset < 2 ^ 16) (hl : len < 2 ^ 16) :
    (p.writeSlot k offset len generation).exact = p.exact := by
  simp only [writeSlot, writeU16, writeNumber, decide_eq_true ho, decide_eq_true hl, Bool.and_true]

theorem Page.number_congr {p q : Page} {start width : Nat}
    (h : ∀ a, start ≤ a → a < start + width → q.bytes a = p.bytes a) :
    q.bytes.number start width = p.bytes.number start width := by
  rw [number, number, read_congr h]

theorem Page.slotAt_congr {p q : Page} {i j : Nat}
    (h : ∀ d < 8, q.bytes (64 + i * 8 + d) = p.bytes (64 + j * 8 + d)) :
    q.slotAt i = p.slotAt j := by
  have hnumber : ∀ d w, d + w ≤ 8 →
      q.bytes.number (slotOffset i + d) w = p.bytes.number (slotOffset j + d) w := by
    intro d w hdw
    rw [number, number]
    congr 1
    apply map_congr_left
    intro c hc
    rw [mem_range] at hc
    rw [Nat.add_assoc, Nat.add_assoc]
    exact h (d + c) (by omega)
  simp only [slotAt, readU16, readU32]
  rw [hnumber 2 2 (by decide), hnumber 4 4 (by decide), ← Nat.add_zero (slotOffset i),
    hnumber 0 2 (by decide), Nat.add_zero]

theorem Page.slotAt_bounds (p : Page) (k : Nat) :
    (p.slotAt k).offset < 2 ^ 16 ∧ (p.slotAt k).len < 2 ^ 16 ∧ (p.slotAt k).generation < 2 ^ 32 :=
  ⟨number_lt 2, number_lt 2, number_lt 4⟩

/-! ## The invariant -/

/-- The data of entry `i` starts at its offset and is `len` long, unless the entry is dead. -/
def Occupies (len : Slot → Nat) (p : Page) (i a : Nat) : Prop :=
  (p.slotAt i).offset ≠ deadOffset ∧ (p.slotAt i).offset ≤ a ∧
    a < (p.slotAt i).offset + len (p.slotAt i)

/-- The directory ends where the free space starts; the data of the entries lie above it and do not
meet. -/
structure LayoutOk (len : Slot → Nat) (size : Nat) (p : Page) : Prop where
  start : p.freeStart = pageHeaderBytes + p.slotCount * slotBytes
  room : p.freeStart ≤ p.freeEnd
  top : p.freeEnd ≤ size - pageTrailerBytes
  inside : ∀ i < p.slotCount, (p.slotAt i).offset ≠ deadOffset →
    p.freeEnd ≤ (p.slotAt i).offset ∧
      (p.slotAt i).offset + len (p.slotAt i) ≤ size - pageTrailerBytes
  apart : ∀ i < p.slotCount, ∀ j < p.slotCount, i ≠ j → ∀ a, Occupies len p i a →
    ¬ Occupies len p j a

/-- The fields that operations on tuples leave alone. -/
structure Preserved (p q : Page) : Prop where
  pageId : q.pageId = p.pageId
  generationFloor : q.generationFloor = p.generationFloor
  nextPage : q.nextPage = p.nextPage
  pageType : q.bytes 6 = p.bytes 6
  exact : q.exact = p.exact

/-- A sound layout, with those fields as they were. -/
structure Kept (len : Slot → Nat) (size : Nat) (p q : Page) : Prop where
  ok : LayoutOk len size q
  preserved : Preserved p q

variable {len : Slot → Nat} {size : Nat} {q : Page}

theorem LayoutOk.start_eq (h : LayoutOk len size p) : p.freeStart = 64 + p.slotCount * 8 := h.start

theorem Preserved.of_bytes (h : ∀ a < 64, a < 36 ∨ 42 ≤ a → q.bytes a = p.bytes a)
    (hexact : q.exact = p.exact) : Preserved p q := by
  have hnumber : ∀ a w, a + w ≤ 64 → a + w ≤ 36 ∨ 42 ≤ a →
      q.bytes.number a w = p.bytes.number a w :=
    fun a w hin hout => number_congr fun i _ _ => h i (by omega) (by omega)
  exact ⟨hnumber 8 8 (by decide) (by decide), hnumber 52 4 (by decide) (by decide),
    hnumber 44 8 (by decide) (by decide), h 6 (by decide) (by decide), hexact⟩

theorem Preserved.refl (p : Page) : Preserved p p := ⟨rfl, rfl, rfl, rfl, rfl⟩

theorem Preserved.trans {r : Page} (h : Preserved p q) (h' : Preserved q r) : Preserved p r :=
  ⟨h'.pageId.trans h.pageId, h'.generationFloor.trans h.generationFloor,
    h'.nextPage.trans h.nextPage, h'.pageType.trans h.pageType, h'.exact.trans h.exact⟩

theorem LayoutOk.freeEnd_lt (h : LayoutOk len size p) (hsize : size ≤ 65536) :
    p.freeEnd < 2 ^ 16 := by
  have := h.top
  simp only [pageTrailerBytes] at this
  omega

/-- The entries of `q` are those of `p`, perhaps shorter, and one new entry `k` whose data was free
space. -/
theorem LayoutOk.remap (h : LayoutOk len size p) (from? : Nat → Option Nat)
    (hstart : q.freeStart = pageHeaderBytes + q.slotCount * slotBytes)
    (hroom : q.freeStart ≤ q.freeEnd) (hend : q.freeEnd ≤ p.freeEnd)
    (hinj : ∀ i i' j, from? i = some j → from? i' = some j → i = i')
    (hold : ∀ i < q.slotCount, ∀ j, from? i = some j → j < p.slotCount ∧
      (q.slotAt i).offset = (p.slotAt j).offset ∧ len (q.slotAt i) ≤ len (p.slotAt j))
    (hnew : ∀ i < q.slotCount, from? i = none → (q.slotAt i).offset ≠ deadOffset → i = k ∧
      q.freeEnd ≤ (q.slotAt i).offset ∧ (q.slotAt i).offset + len (q.slotAt i) ≤ p.freeEnd) :
    LayoutOk len size q := by
  have htop := h.top
  -- what an entry of `q` occupies was occupied by the entry it comes from, or was free
  have hocc : ∀ i < q.slotCount, ∀ a, Occupies len q i a →
      (∃ j < p.slotCount, from? i = some j ∧ Occupies len p j a) ∨
        from? i = none ∧ i = k ∧ a < p.freeEnd := by
    rintro i hi a ⟨hlive, hlo, hhi⟩
    cases hfrom : from? i with
    | some j =>
      obtain ⟨hj, hoff, hle⟩ := hold i hi j hfrom
      exact .inl ⟨j, hj, rfl, hoff ▸ hlive, by omega, by omega⟩
    | none =>
      obtain ⟨rfl, -, hle⟩ := hnew i hi hfrom hlive
      exact .inr ⟨rfl, rfl, by omega⟩
  refine ⟨hstart, hroom, hend.trans htop, fun i hi hlive => ?_,
    fun i hi j hj hne a hocci hoccj => ?_⟩
  · cases hfrom : from? i with
    | some j =>
      obtain ⟨hj, hoff, hle⟩ := hold i hi j hfrom
      have := h.inside j hj (hoff ▸ hlive)
      omega
    | none =>
      obtain ⟨-, hlo, hhi⟩ := hnew i hi hfrom hlive
      omega
  · have hfree : ∀ j < p.slotCount, Occupies len p j a → p.freeEnd ≤ a :=
      fun j hj hocc => (h.inside j hj hocc.1).1.trans hocc.2.1
    rcases hocc i hi a hocci with ⟨i', hi', hfi, hpi⟩ | ⟨hfi, hik, hlt⟩ <;>
      rcases hocc j hj a hoccj with ⟨j', hj', hfj, hpj⟩ | ⟨hfj, hjk, hlt'⟩
    · refine h.apart i' hi' j' hj' ?_ a hpi hpj
      rintro rfl
      exact hne (hinj i j i' hfi hfj)
    · have := hfree i' hi' hpi
      omega
    · have := hfree j' hj' hpj
      omega
    · exact hne (hik.trans hjk.symm)

theorem LayoutOk.empty (hstart : p.freeStart = pageHeaderBytes)
    (hend : p.freeEnd = size - pageTrailerBytes) (hcount : p.slotCount = 0)
    (hlo : minPageSize ≤ size) : LayoutOk len size p := by
  refine ⟨?_, ?_, hend.le, ?_, ?_⟩
  · rw [hstart, hcount, Nat.zero_mul, Nat.add_zero]
  · simp only [hstart, hend, pageHeaderBytes, pageTrailerBytes, minPageSize] at *
    omega
  · omega
  · omega

theorem init_spec (pageId : Nat) (pageType : PageType) (payloadLen : Nat)
    (hlo : minPageSize ≤ size) (hsize : size ≤ 65536) :
    LayoutOk len size (.init pageId pageType size payloadLen) ∧
      (Page.init pageId pageType size payloadLen).slotCount = 0 ∧
      (Page.init pageId pageType size payloadLen).exact = true ∧
      (Page.init pageId pageType size payloadLen).freeSpace = usableBytes size ∧
      ((Page.init pageId pageType size payloadLen).bytes 6).toNat = pageType.toU8 := by
  have hend : size - pageTrailerBytes < 2 ^ 16 := by
    simp only [pageTrailerBytes]
    omega
  have hstart : (init pageId pageType size payloadLen).freeStart = pageHeaderBytes := rfl
  have hfree : (init pageId pageType size payloadLen).freeEnd = size - pageTrailerBytes := by
    simp [init, freeEnd, readU16, setSlotCount, setFreeEnd, writeU16,
      writeNumber, number_putNumber_disjoint]
    exact number_putNumber hend
  have hcount : (init pageId pageType size payloadLen).slotCount = 0 := rfl
  refine ⟨.empty hstart hfree hcount hlo, hcount, ?_, ?_, ?_⟩
  · simp only [init, setSlotCount, setFreeEnd, setFreeStart, writeU16, writeNumber, copyFromSlice,
      decide_eq_true hend]
    rfl
  · rw [freeSpace, hstart, hfree, usableBytes]
    omega
  · have htype : (init pageId pageType size payloadLen).bytes.number 6 1 = pageType.toU8 := by
      simp [init, setSlotCount, setFreeEnd, setFreeStart, writeU16,
        writeNumber, number_putNumber_disjoint]
      exact number_putNumber (by cases pageType <;> decide)
    simpa [number, Memory.read, leNat] using htype

/-- Above 64 KiB the end of the free space of a fresh page does not fit its 16 bits. -/
theorem init_inexact (pageId : Nat) (pageType : PageType) (payloadLen : Nat)
    (hsize : 2 ^ 16 + pageTrailerBytes ≤ size) :
    (Page.init pageId pageType size payloadLen).exact = false := by
  have hend : ¬ size - pageTrailerBytes < 2 ^ 16 := by omega
  simp only [init, setSlotCount, setFreeEnd, setFreeStart, writeU16, writeNumber, copyFromSlice,
    decide_eq_false hend, Bool.and_false, Bool.false_and]

/-! ## Cells -/

/-- What a slot stands for. -/
structure Cell where
  generation : Nat
  tuple : Option Bytes
  deriving DecidableEq

namespace Page

def cell (p : Page) (s : Slot) : Cell :=
  ⟨s.generation, if s.offset = deadOffset then none else some (p.bytes.read s.offset s.len)⟩

def cellAt (p : Page) (i : Nat) : Option Cell :=
  if i < p.slotCount then some (p.cell (p.slotAt i)) else none

end Page

abbrev SlottedOk : Nat → Page → Prop := LayoutOk Slot.len

/-- Nothing has changed but the counters of the header, the free space and the tuple of slot `k`. -/
def Changed (p q : Page) (k : Nat) : Prop :=
  ∀ a, a < 36 ∨ 42 ≤ a → ¬ (p.freeStart ≤ a ∧ a < p.freeEnd) →
    ¬ (k < p.slotCount ∧ Occupies Slot.len p k a) → q.bytes a = p.bytes a

/-- The header fields that count slots and room. -/
structure Counters (q : Page) (count freeEnd : Nat) : Prop where
  slotCount : q.slotCount = count
  freeStart : q.freeStart = pageHeaderBytes + count * slotBytes
  freeEnd : q.freeEnd = freeEnd

theorem counters_set {q : Page} {n start : Nat} (hstart : start = 64 + n * 8)
    (hlt : start < 2 ^ 16) : Counters ((q.setSlotCount n).setFreeStart start) n q.freeEnd ∧
      ((q.setSlotCount n).setFreeStart start).exact = q.exact ∧
      ∀ a, a < 36 ∨ 42 ≤ a → ((q.setSlotCount n).setFreeStart start).bytes a = q.bytes a := by
  have hn : n < 2 ^ 16 := by omega
  refine ⟨⟨?_, (number_putNumber hlt).trans hstart, ?_⟩, ?_, fun a ha => ?_⟩
  · exact (number_putNumber_disjoint (by decide)).trans (number_putNumber hn)
  · exact (number_putNumber_disjoint (by decide)).trans (number_putNumber_disjoint (by decide))
  · simp only [setFreeStart, setSlotCount, writeU16, hn, hlt, decide_true, Bool.and_true]
  · exact (putNumber_outside (by omega)).trans (putNumber_outside (by omega))

/-- Slot `k`, old or new, is set to `s` and its cell to `c`; the other slots stay. -/
structure Written (size : Nat) (p r : Page) (k : Nat) (s : Slot) (freeEnd : Nat) (c : Cell) : Prop
    extends Kept Slot.len size p r where
  slotCount : r.slotCount = max p.slotCount (k + 1)
  freeEnd : r.freeEnd = freeEnd
  slot : r.slotAt k = s
  others : ∀ i < p.slotCount, i ≠ k → r.slotAt i = p.slotAt i
  cells : r.cellAt = Function.update p.cellAt k (some c)

variable {count freeEnd : Nat} {s : Slot}

/-- Slot `k` is set to `s`: dead, or a part of the tuple that was there, or a tuple in what was free
space. -/
theorem LayoutOk.rewrite (h : SlottedOk size p) (hq : Changed p q k) (hc : Counters q count freeEnd)
    (hcount : count = max p.slotCount (k + 1)) (hk : k ≤ p.slotCount)
    (hexact : q.exact = p.exact) (hroom : q.freeStart ≤ freeEnd) (hend : freeEnd ≤ p.freeEnd)
    (ho : s.offset < 2 ^ 16) (hl : s.len < 2 ^ 16) (hg : s.generation < 2 ^ 32)
    (hs : s.offset = deadOffset ∨
      k < p.slotCount ∧ s.offset = (p.slotAt k).offset ∧ s.len ≤ (p.slotAt k).len ∨
      freeEnd ≤ s.offset ∧ s.offset + s.len ≤ p.freeEnd) :
    Written size p (q.writeSlot k s.offset s.len s.generation) k s freeEnd
      ((q.writeSlot k s.offset s.len s.generation).cell s) := by
  have hstart := h.start_eq
  have hqstart := hc.freeStart
  have hcounter : ∀ a, a + 2 ≤ 64 →
      (q.writeSlot k s.offset s.len s.generation).bytes.number a 2 = q.bytes.number a 2 :=
    fun a ha => number_congr fun i _ _ => bytes_writeSlot (.inl (by omega))
  have hself := slotAt_writeSlot (p := q) (k := k) ho hl hg
  have hbytes := fun a => @bytes_writeSlot q k s.offset s.len s.generation a
  have hrexact := (@exact_writeSlot q k s.offset s.len s.generation ho hl).trans hexact
  generalize q.writeSlot k s.offset s.len s.generation = r at *
  have hrcount : r.slotCount = count := (hcounter 40 (by decide)).trans hc.slotCount
  have hrstart : r.freeStart = q.freeStart := hcounter 36 (by decide)
  have hrend : r.freeEnd = freeEnd := (hcounter 38 (by decide)).trans hc.freeEnd
  simp only [pageHeaderBytes, slotBytes] at hqstart
  -- the directory lies below the free space, and the tuples above it
  have hother : ∀ i < p.slotCount, i ≠ k → r.slotAt i = p.slotAt i := by
    intro i hi hne
    apply slotAt_congr
    intro d hd
    rw [hbytes _ (by omega)]
    refine hq _ (by omega) (by omega) ?_
    rintro ⟨hlt, hlive, hlo, -⟩
    have := (h.inside k hlt hlive).1
    omega
  have htuple : ∀ i < p.slotCount, i ≠ k → ∀ a, Occupies Slot.len p i a →
      r.bytes a = p.bytes a := by
    intro i hi hne a hocc
    have := (h.inside i hi hocc.1).1.trans hocc.2.1
    rw [hbytes a (by omega)]
    exact hq a (by omega) (by omega) fun hk => h.apart i hi k hk.1 hne a hocc hk.2
  refine ⟨⟨?_, Preserved.of_bytes (fun a ha hout => ?_) hrexact⟩, hrcount.trans hcount,
    hrend, hself, hother, funext fun i => ?_⟩
  · let inPlace : Prop :=
      k < p.slotCount ∧ s.offset = (p.slotAt k).offset ∧ s.len ≤ (p.slotAt k).len
    refine h.remap (k := k) (fun i => if i = k ∧ ¬ inPlace then none else some i) ?_ ?_ ?_ ?_ ?_ ?_
    · rw [hrstart, hrcount, hqstart, pageHeaderBytes, slotBytes]
    · omega
    · omega
    · intro i i' j hi hi'
      simp only [Option.ite_none_left_eq_some, Option.some.injEq] at hi hi'
      omega
    · intro i hi j hj
      simp only [Option.ite_none_left_eq_some, Option.some.injEq] at hj
      obtain ⟨hnot, rfl⟩ := hj
      by_cases hik : i = k
      · subst hik
        have hin : inPlace := not_not.mp fun hno => hnot ⟨rfl, hno⟩
        rwa [hself]
      · have hip : i < p.slotCount := by omega
        rw [hother i hip hik]
        exact ⟨hip, rfl, Nat.le_refl _⟩
    · intro i hi hnone hlive
      simp only [ite_eq_left_iff, reduceCtorEq, imp_false, not_not] at hnone
      obtain ⟨rfl, hnot⟩ := hnone
      rw [hself] at hlive ⊢
      have hfresh := (hs.resolve_left hlive).resolve_left hnot
      exact ⟨rfl, hrend ▸ hfresh.1, hfresh.2⟩
  · rw [hbytes a (by omega)]
    refine hq a (by omega) (by omega) ?_
    rintro ⟨hlt, hlive, hlo, -⟩
    have := (h.inside k hlt hlive).1
    omega
  · by_cases hik : i = k
    · subst hik
      rw [update_self, cellAt, if_pos (by omega), hself]
    · rw [update_of_ne hik]
      by_cases hip : i < p.slotCount
      · rw [cellAt, cellAt, if_pos (by omega), if_pos hip, hother i hip hik]
        by_cases hdead : (p.slotAt i).offset = deadOffset
        · simp [cell, hdead]
        · simp only [cell, if_neg hdead, Cell.mk.injEq, Option.some.injEq, true_and]
          exact read_congr fun a hlo hhi => htuple i hip hik a ⟨hdead, hlo, hhi⟩
      · rw [cellAt, cellAt, if_neg (by omega), if_neg hip]

/-! ## Operations -/

/-- An insert takes a dead cell, with the next generation, or adds one above the floor. -/
def Inserted (floor : Nat) (cells : Nat → Option Cell) (value : Bytes) (k generation : Nat)
    (cells' : Nat → Option Cell) : Prop :=
  ((∃ c, cells k = some c ∧ c.tuple = none ∧ generation = (c.generation + 1) % 2 ^ 32) ∨
    cells k = none ∧ generation = (floor + 1) % 2 ^ 32) ∧
  cells' = Function.update cells k (some ⟨generation, some value⟩)

variable {g : Nat} {value : Bytes}

theorem Page.cellAt_of_lt (hk : k < p.slotCount) : p.cellAt k = some (p.cell (p.slotAt k)) :=
  if_pos hk

theorem Page.cell_live {s : Slot} (h : s.offset ≠ deadOffset) :
    p.cell s = ⟨s.generation, some (p.bytes.read s.offset s.len)⟩ := by
  simp [cell, h]

variable {r : Page}

/-- A tuple placed in the free space under slot `k`; `q` is the page with its counters set. -/
theorem LayoutOk.place (hsize : size ≤ 65536) (h : SlottedOk size p) (hk : k ≤ p.slotCount)
    (hq : ∀ a, a < 36 ∨ 42 ≤ a → ¬ (k < p.slotCount ∧ Occupies Slot.len p k a) →
      q.bytes a = p.bytes.write (p.freeEnd - value.length) value a)
    (hc : Counters q (max p.slotCount (k + 1)) (p.freeEnd - value.length))
    (hexact : q.exact = p.exact)
    (hfit : 64 + max p.slotCount (k + 1) * 8 + value.length ≤ p.freeEnd)
    (hg : g < 2 ^ 32) (hr : q.writeSlot k (p.freeEnd - value.length) value.length g = r) :
    Written size p r k ⟨p.freeEnd - value.length, value.length, g⟩ (p.freeEnd - value.length)
      ⟨g, some value⟩ := by
  have hlt := h.freeEnd_lt hsize
  have hstart := h.start_eq
  have hqstart := hc.freeStart
  simp only [pageHeaderBytes, slotBytes] at hqstart
  have hw := h.rewrite (s := ⟨p.freeEnd - value.length, value.length, g⟩)
    (fun a ha hfree hocc => (hq a ha hocc).trans (write_outside (by omega))) hc rfl hk hexact
    (by omega) (Nat.sub_le ..) (by simp only; omega) (by simp only; omega) hg
    (.inr (.inr ⟨Nat.le_refl _, by simp only; omega⟩))
  have hread : r.bytes.read (p.freeEnd - value.length) value.length = value := by
    refine (read_congr fun a ha hlt => ?_).trans (read_write (m := p.bytes) value)
    rw [← hr, bytes_writeSlot (by omega)]
    refine hq a (by omega) fun hocc => ?_
    have := (h.inside k hocc.1 hocc.2.1).1.trans hocc.2.2.1
    omega
  simp only [hr] at hw
  exact { hw with
    cells := by rw [hw.cells, cell_live (by simp only [deadOffset]; omega), hread] }

theorem placeData_spec (hd : 64 ≤ p.freeEnd - value.length) (hlt : p.freeEnd < 2 ^ 16)
    (h : p.freeStart = pageHeaderBytes + p.slotCount * slotBytes) :
    Counters (p.placeData value) p.slotCount (p.freeEnd - value.length) ∧
      (p.placeData value).exact = p.exact ∧
      ∀ a, a < 38 ∨ 40 ≤ a →
        (p.placeData value).bytes a = p.bytes.write (p.freeEnd - value.length) value a := by
  refine ⟨⟨?_, ?_, number_putNumber (by omega)⟩, ?_, fun a ha =>
    putNumber_outside (by omega)⟩
  · exact (number_putNumber_disjoint (by decide)).trans (number_write (by omega))
  · rw [← h]
    exact (number_putNumber_disjoint (by decide)).trans (number_write (by omega))
  · have hcut : p.freeEnd - value.length < 2 ^ 16 := by omega
    simp only [placeData, setFreeEnd, copyFromSlice, writeU16, decide_eq_true hcut, Bool.and_true]

theorem findDeadSlot_some (h : p.findDeadSlot = some k) :
    k < p.slotCount ∧ (p.slotAt k).offset = deadOffset :=
  ⟨mem_range.mp (mem_of_find?_eq_some h), by simpa using find?_some h⟩

/-- **Insert**: it fails and changes nothing, or it stores the tuple in a cell that was free. -/
theorem insert_spec (hsize : size ≤ 65536) (h : SlottedOk size p) (value : Bytes) :
    (∃ e, p.insert value = (.error e, p)) ∨
      ∃ k g, (p.insert value).1 = .ok ⟨p.pageId, k, g⟩ ∧ k = p.findDeadSlot.getD p.slotCount ∧
        value.length ≤ p.freeEnd ∧
        Written size p (p.insert value).2 k ⟨p.freeEnd - value.length, value.length, g⟩
          (p.freeEnd - value.length) ⟨g, some value⟩ ∧
        Inserted p.generationFloor p.cellAt value k g (p.insert value).2.cellAt := by
  by_cases hne : value = []
  · exact .inl ⟨_, by rw [Page.insert, if_pos hne]⟩
  by_cases hfit : p.freeSpace < value.length + if p.findDeadSlot.isNone then slotBytes else 0
  · exact .inl ⟨_, by simp only [Page.insert, if_neg hne, if_pos hfit]; rfl⟩
  right
  simp only [Page.insert, if_neg hne, if_neg hfit]
  rw [Nat.not_lt, freeSpace] at hfit
  have hlt := h.freeEnd_lt hsize
  have hroom := h.room
  have hstart := h.start_eq
  have hmod : ∀ n, n % 2 ^ 32 < 2 ^ 32 := fun n => Nat.mod_lt _ (by decide)
  obtain ⟨hc, hexact, hbytes⟩ := @placeData_spec p value (by omega) hlt h.start
  generalize p.placeData value = q at *
  cases hdead : p.findDeadSlot with
  | some k =>
    obtain ⟨hk, hoff⟩ := findDeadSlot_some hdead
    have hmax : max p.slotCount (k + 1) = p.slotCount := by omega
    -- the directory is read after the tuple has been copied in
    have hslot : q.slotAt k = p.slotAt k := by
      apply slotAt_congr
      intro d hd
      rw [hbytes _ (by omega)]
      exact write_outside (by omega)
    have hw := h.place hsize hk.le (fun a ha _ => hbytes a (by omega))
      (by rw [hmax]; exact hc) hexact (by omega)
      (hmod ((p.slotAt k).generation + 1)) rfl
    simp only [claimSlot, hslot]
    exact ⟨k, _, rfl, rfl, by omega, hw,
      .inl ⟨_, cellAt_of_lt hk, by simp [cell, hoff], rfl⟩, hw.cells⟩
  | none =>
    simp only [hdead, Option.isNone_none, if_true] at hfit
    have hmax : max p.slotCount (p.slotCount + 1) = p.slotCount + 1 := by omega
    have hfloor : q.generationFloor = p.generationFloor := number_congr fun a _ _ => by
      rw [hbytes a (by omega)]
      exact write_outside (by omega)
    have hqstart : (q.setSlotCount (p.slotCount + 1)).freeStart = p.freeStart := by
      rw [h.start, ← hc.freeStart]
      exact number_putNumber_disjoint (by decide)
    simp only [claimSlot, hc.slotCount, hfloor, hqstart]
    have hnext : p.freeStart + slotBytes = 64 + (p.slotCount + 1) * 8 := by
      simp only [slotBytes]
      omega
    obtain ⟨hc', hexact', hout⟩ := counters_set hnext (by omega)
    have hw := h.place hsize (Nat.le_refl _)
      (fun a ha _ => (hout a ha).trans (hbytes a (by omega)))
      (by rw [hmax, ← hc.freeEnd]; exact hc') (hexact'.trans hexact)
      (by omega) (hmod (p.generationFloor + 1)) rfl
    exact ⟨_, _, rfl, rfl, by omega, hw, .inr ⟨if_neg (Nat.lt_irrefl _), rfl⟩, hw.cells⟩

theorem LayoutOk.above (h : SlottedOk size p) (hk : k < p.slotCount)
    (hlive : (p.slotAt k).offset ≠ deadOffset) :
    64 + p.slotCount * 8 ≤ p.freeEnd ∧ p.freeEnd ≤ (p.slotAt k).offset := by
  have hstart := h.start_eq
  have hroom := h.room
  exact ⟨by omega, (h.inside k hk hlive).1⟩

theorem LayoutOk.directory {len : Slot → Nat} (h : LayoutOk len size p)
    (hq : ∀ a < p.freeStart, 36 ≤ a ∧ a < 44 ∨ 64 ≤ a → q.bytes a = p.bytes a) :
    Counters q p.slotCount p.freeEnd ∧ ∀ i < p.slotCount, q.slotAt i = p.slotAt i := by
  have hstart := h.start_eq
  have hnumber : ∀ a, 36 ≤ a → a + 2 ≤ 44 → q.bytes.number a 2 = p.bytes.number a 2 :=
    fun a _ _ => number_congr fun i _ _ => hq i (by omega) (by omega)
  refine ⟨⟨hnumber 40 (by decide) (by decide), (hnumber 36 (by decide) (by decide)).trans h.start,
    hnumber 38 (by decide) (by decide)⟩, fun i hi => slotAt_congr fun d hd => ?_⟩
  exact hq _ (by omega) (by omega)

theorem LayoutOk.within (h : SlottedOk size p) (hk : k < p.slotCount)
    (hlive : (p.slotAt k).offset ≠ deadOffset)
    (hq : ∀ a, ¬ Occupies Slot.len p k a → q.bytes a = p.bytes a) (hexact : q.exact = p.exact)
    {offset len : Nat} (ho : offset = deadOffset ∨ offset = (p.slotAt k).offset)
    (hlen : len ≤ (p.slotAt k).len) (hr : q.writeSlot k offset len (p.slotAt k).generation = r) :
    Written size p r k ⟨offset, len, (p.slotAt k).generation⟩ p.freeEnd
      (r.cell ⟨offset, len, (p.slotAt k).generation⟩) := by
  obtain ⟨hbound, hlenBound, hg⟩ := p.slotAt_bounds k
  obtain ⟨hbelow, hfree⟩ := h.above hk hlive
  have hroom := h.room
  have hc := (h.directory fun a ha _ => hq a fun hocc => by
    have := hocc.2.1
    omega).1
  have hmax : p.slotCount = max p.slotCount (k + 1) := by omega
  have hoffset : offset < 2 ^ 16 := by
    rcases ho with rfl | rfl
    · decide
    · exact hbound
  have := h.rewrite (s := ⟨offset, len, (p.slotAt k).generation⟩)
    (fun a _ _ hocc => hq a fun hocc' => hocc ⟨hk, hocc'⟩) hc hmax hk.le hexact
    (by rw [hc.freeStart, ← h.start]; exact hroom) (Nat.le_refl _) hoffset (by simp only; omega) hg
    (ho.imp id fun ho => .inl ⟨hk, ho, hlen⟩)
  simpa only [hr] using this

theorem resolve_ok {locator : TupleLocator} {s : Slot} (h : p.resolve locator = .ok s) :
    locator.slot < p.slotCount ∧ s = p.slotAt locator.slot ∧ s.offset ≠ deadOffset ∧
      s.generation = locator.generation := by
  by_cases hlt : p.slotCount ≤ locator.slot
  · simp [resolve, slotEntry, hlt] at h
  simp only [resolve, slotEntry, if_neg hlt] at h
  split at h
  · cases h
  split at h
  · cases h
  · cases h
    exact ⟨Nat.lt_of_not_le hlt, rfl, ‹_›, not_not.mp ‹_›⟩

/-- A live cell with its tuple replaced. -/
def Replaced (cells : Nat → Option Cell) (l : TupleLocator) (value : Option Bytes)
    (cells' : Nat → Option Cell) : Prop :=
  (∃ c, cells l.slot = some c ∧ c.generation = l.generation ∧ c.tuple ≠ none) ∧
    cells' = Function.update cells l.slot (some ⟨l.generation, value⟩)

theorem cell_of_resolve {l : TupleLocator} (hk : l.slot < p.slotCount)
    (hlive : (p.slotAt l.slot).offset ≠ deadOffset)
    (hgen : (p.slotAt l.slot).generation = l.generation) :
    ∃ c, p.cellAt l.slot = some c ∧ c.generation = l.generation ∧ c.tuple ≠ none :=
  ⟨_, cellAt_of_lt hk, hgen, by simp [cell_live hlive]⟩

theorem zeroed_outside (hlive : (p.slotAt k).offset ≠ deadOffset) (a : Nat)
    (hocc : ¬ Occupies Slot.len p k a) :
    (p.fill (p.slotAt k).offset ((p.slotAt k).offset + (p.slotAt k).len)).bytes a = p.bytes a := by
  simp only [Occupies] at hocc
  exact fill_outside (by omega)

/-- **Delete**: it fails and changes nothing, or it empties the cell. -/
theorem delete_spec (h : SlottedOk size p) (l : TupleLocator) :
    (∃ e, p.delete l = (.error e, p)) ∨
      (p.delete l).1 = .ok () ∧ l.slot < p.slotCount ∧
        Written size p (p.delete l).2 l.slot
          ⟨deadOffset, (p.slotAt l.slot).len, l.generation⟩ p.freeEnd
          ⟨l.generation, none⟩ ∧
        Replaced p.cellAt l none (p.delete l).2.cellAt := by
  unfold delete
  split
  · exact .inl ⟨_, rfl⟩
  next entry hres =>
    obtain ⟨hk, rfl, hlive, hgen⟩ := resolve_ok hres
    have hw := h.within hk hlive (zeroed_outside hlive) rfl (.inl rfl) (Nat.le_refl _) rfl
    rw [hgen] at hw ⊢
    exact .inr ⟨rfl, hk, hw, cell_of_resolve hk hlive hgen, hw.cells⟩

theorem LayoutOk.shrink (h : SlottedOk size p) (hk : k < p.slotCount)
    (hlive : (p.slotAt k).offset ≠ deadOffset) (hlen : value.length ≤ (p.slotAt k).len)
    (hr : ((p.copyFromSlice (p.slotAt k).offset value).fill ((p.slotAt k).offset + value.length)
      ((p.slotAt k).offset + (p.slotAt k).len)).writeSlot k (p.slotAt k).offset value.length
        (p.slotAt k).generation = r) :
    Written size p r k ⟨(p.slotAt k).offset, value.length, (p.slotAt k).generation⟩ p.freeEnd
      ⟨(p.slotAt k).generation, some value⟩ := by
  obtain ⟨hbelow, hfree⟩ := h.above hk hlive
  have hw := h.within (q := (p.copyFromSlice (p.slotAt k).offset value).fill
    ((p.slotAt k).offset + value.length) ((p.slotAt k).offset + (p.slotAt k).len)) hk hlive
    (fun a hocc => by
      simp only [Occupies] at hocc
      exact (fill_outside (by omega)).trans (write_outside (by omega)))
    rfl (.inr rfl) hlen hr
  have hread : r.bytes.read (p.slotAt k).offset value.length = value := by
    rw [← hr]
    refine (read_congr fun a ha _ => bytes_writeSlot ?_).trans
      ((read_fill (.inl (Nat.le_refl _))).trans (read_write value))
    omega
  rwa [cell_live (by exact hlive), hread] at hw

theorem LayoutOk.move (hsize : size ≤ 65536) (h : SlottedOk size p) (hk : k < p.slotCount)
    (hlive : (p.slotAt k).offset ≠ deadOffset) (hfit : value.length ≤ p.freeSpace) {q : Page}
    (hq : p.fill (p.slotAt k).offset ((p.slotAt k).offset + (p.slotAt k).len) = q)
    (hr : (q.placeData value).writeSlot k (q.freeEnd - value.length) value.length
      (p.slotAt k).generation = r) :
    Written size p r k ⟨p.freeEnd - value.length, value.length, (p.slotAt k).generation⟩
      (p.freeEnd - value.length) ⟨(p.slotAt k).generation, some value⟩ := by
  obtain ⟨hbelow, hfree⟩ := h.above hk hlive
  have hlt := h.freeEnd_lt hsize
  have hstart := h.start_eq
  rw [freeSpace] at hfit
  have hzero : ∀ a, ¬ Occupies Slot.len p k a → q.bytes a = p.bytes a := by
    subst hq
    exact zeroed_outside hlive
  have hqc := (h.directory fun a ha _ => hzero a fun hocc => by
    have := hocc.2.1
    omega).1
  have hmax : max p.slotCount (k + 1) = p.slotCount := by omega
  obtain ⟨hc, hexact, hbytes⟩ := @placeData_spec q value
    (by rw [hqc.freeEnd]; omega) (hqc.freeEnd ▸ hlt)
    (by rw [hqc.freeStart, hqc.slotCount])
  rw [hqc.freeEnd] at hc hbytes hr
  rw [hqc.slotCount] at hc
  apply h.place hsize hk.le _ (by rw [hmax]; exact hc) (hexact.trans (by subst hq; rfl))
    (by omega) (p.slotAt_bounds k).2.2 hr
  intro a ha hocc
  rw [hbytes a (by omega)]
  exact write_congr (hzero a fun hocc' => hocc ⟨hk, hocc'⟩)

/-- **Update**: it fails and changes nothing, or it replaces what the cell holds. -/
theorem update_spec (hsize : size ≤ 65536) (h : SlottedOk size p) (l : TupleLocator)
    (value : Bytes) :
    (∃ e, p.update l value = (.error e, p)) ∨
      (p.update l value).1 = .ok () ∧ (∃ s freeEnd, p.resolve l = .ok (p.slotAt l.slot) ∧
        Written size p (p.update l value).2 l.slot s freeEnd ⟨l.generation, some value⟩ ∧
        s.len = value.length ∧ (value.length ≤ (p.slotAt l.slot).len → freeEnd = p.freeEnd)) ∧
        Replaced p.cellAt l (some value) (p.update l value).2.cellAt := by
  unfold update
  split
  · exact .inl ⟨_, rfl⟩
  next entry hres =>
  obtain ⟨hk, rfl, hlive, hgen⟩ := resolve_ok hres
  have hcell := cell_of_resolve hk hlive hgen
  split
  · exact .inl ⟨_, rfl⟩
  split
  · next hlen =>
      have hw := h.shrink hk hlive hlen rfl
      rw [hgen] at hw ⊢
      exact .inr ⟨rfl, ⟨_, _, hres, hw, rfl, fun _ => rfl⟩, hcell, hw.cells⟩
  next hlen =>
    split
    · exact .inl ⟨_, rfl⟩
    next hfit =>
      have hw := h.move hsize hk hlive (Nat.not_lt.mp hfit) rfl rfl
      rw [hgen] at hw ⊢
      exact .inr ⟨rfl, ⟨_, _, hres, hw, rfl, fun hle => absurd hle hlen⟩, hcell, hw.cells⟩

/-! ## Compaction -/

def total (todo : List (Nat × Bytes × Nat)) : Nat := (todo.map fun t => t.2.1.length).sum

/-- The page after tuples were stacked below `top`. -/
structure Stacked (n : Nat) (p : Page) (top : Nat) (todo : List (Nat × Bytes × Nat)) (lo : Nat)
    (r : Page) : Prop where
  cursor : lo + total todo = top
  untouched : ∀ a, a < pageHeaderBytes ∨ top ≤ a → r.bytes a = p.bytes a
  exact : r.exact = p.exact
  others : ∀ i < n, i ∉ todo.map Prod.fst → r.slotAt i = p.slotAt i
  stacked : ∀ t ∈ todo, ∃ c, r.slotAt t.1 = ⟨c, t.2.1.length, t.2.2⟩ ∧ lo ≤ c ∧
    c + t.2.1.length ≤ top ∧ r.bytes.read c t.2.1.length = t.2.1
  apart : ∀ t ∈ todo, ∀ t' ∈ todo, t.1 ≠ t'.1 → ∀ a, Occupies Slot.len r t.1 a →
    ¬ Occupies Slot.len r t'.1 a

/-- Stacking puts every tuple below the cursor, apart from the others. -/
theorem stack_spec {n : Nat} (todo : List (Nat × Bytes × Nat)) :
    ∀ {p : Page} {cursor : Nat}, (todo.map Prod.fst).Nodup → (∀ t ∈ todo, t.1 < n) →
      (∀ t ∈ todo, t.2.2 < 2 ^ 32) → 64 + n * 8 + total todo ≤ cursor → cursor < 2 ^ 16 →
      Stacked n p cursor todo (Page.stack p cursor todo).1 (Page.stack p cursor todo).2 := by
  induction todo with
  | nil =>
    intro p cursor _ _ _ _ _
    exact ⟨by simp [stack, total], fun _ _ => rfl, rfl, fun _ _ _ => rfl, by simp, by simp⟩
  | cons t todo ih =>
    obtain ⟨slot, value, generation⟩ := t
    intro p cursor hnodup hslots hgens hroom hcursor
    rw [map_cons, nodup_cons] at hnodup
    rw [forall_mem_cons] at hslots hgens
    have htotal : total ((slot, value, generation) :: todo) = value.length + total todo := rfl
    have hself := @slotAt_writeSlot (p.copyFromSlice (cursor - value.length) value) slot
      (cursor - value.length) value.length generation (by omega) (by omega) hgens.1
    have hexact := @exact_writeSlot (p.copyFromSlice (cursor - value.length) value) slot
      (cursor - value.length) value.length generation (by omega) (by omega)
    have hbytes := fun a => @bytes_writeSlot (p.copyFromSlice (cursor - value.length) value)
      slot (cursor - value.length) value.length generation a
    rw [stack]
    generalize (p.copyFromSlice (cursor - value.length) value).writeSlot slot
      (cursor - value.length) value.length generation = q at *
    have hother : ∀ i < n, i ≠ slot → q.slotAt i = p.slotAt i := by
      intro i hi hne
      apply slotAt_congr
      intro d hd
      rw [hbytes _ (by omega)]
      exact write_outside (by omega)
    have hread : q.bytes.read (cursor - value.length) value.length = value :=
      (read_congr fun a ha _ => hbytes a (by omega)).trans (read_write value)
    have h := @ih q (cursor - value.length) hnodup.2 hslots.2 hgens.2 (by omega) (by omega)
    have hcur := h.cursor
    have hkept := (h.others slot hslots.1 hnodup.1).trans hself
    generalize stack q (cursor - value.length) todo = result at *
    -- the tuple just written lies above all that follow
    have hhead : ∀ t ∈ todo, ∀ a, Occupies Slot.len result.2 slot a →
        ¬ Occupies Slot.len result.2 t.1 a := by
      intro t ht a hocc hocc'
      obtain ⟨c, hc, -, hle, -⟩ := h.stacked t ht
      simp only [Occupies, hkept, hc] at hocc hocc'
      omega
    refine ⟨by omega, fun a ha => ?_, h.exact.trans hexact, fun i hi hnot => ?_, ?_, ?_⟩
    · simp only [pageHeaderBytes] at ha
      rw [h.untouched a (by simp only [pageHeaderBytes]; omega), hbytes a (by omega)]
      exact write_outside (by omega)
    · rw [map_cons, mem_cons, not_or] at hnot
      rw [h.others i hi hnot.2, hother i hi hnot.1]
    · rw [forall_mem_cons]
      refine ⟨⟨cursor - value.length, hkept, by omega, by simp only; omega, ?_⟩, fun t ht => ?_⟩
      · exact (read_congr fun a ha _ => h.untouched a (.inr ha)).trans hread
      · obtain ⟨c, hc, hlo, hhi, hr⟩ := h.stacked t ht
        exact ⟨c, hc, hlo, by omega, hr⟩
    · rw [forall_mem_cons]
      refine ⟨?_, fun t ht => ?_⟩ <;> rw [forall_mem_cons]
      · exact ⟨fun hne => absurd rfl hne, fun t ht _ => hhead t ht⟩
      · exact ⟨fun _ a hocc hocc' => hhead t ht a hocc' hocc, h.apart t ht⟩

theorem mem_liveTuples {t : Nat × Bytes × Nat} : t ∈ p.liveTuples ↔
    t.1 < p.slotCount ∧ (p.slotAt t.1).offset ≠ deadOffset ∧
      t.2 = (p.bytes.read (p.slotAt t.1).offset (p.slotAt t.1).len, (p.slotAt t.1).generation) := by
  simp only [liveTuples, mem_map, mem_filter, mem_range, decide_eq_true_eq]
  constructor
  · rintro ⟨slot, ⟨hslot, hlive⟩, rfl⟩
    exact ⟨hslot, hlive, rfl⟩
  · rintro ⟨hslot, hlive, ht⟩
    exact ⟨t.1, ⟨hslot, hlive⟩, by rw [← ht]⟩

theorem liveTuples_slots : p.liveTuples.map Prod.fst =
    (List.range p.slotCount).filter fun slot => (p.slotAt slot).offset ≠ deadOffset := by
  simp [liveTuples, comp_def]

theorem LayoutOk.lengths_le {len : Slot → Nat} (h : LayoutOk len size p) :
    64 + p.slotCount * 8 + (((List.range p.slotCount).filter fun i =>
      (p.slotAt i).offset ≠ deadOffset).map fun i => len (p.slotAt i)).sum ≤
        size - pageTrailerBytes := by
  have hroom := h.room
  have htop := h.top
  have hstart := h.start
  simp only [pageHeaderBytes, slotBytes] at hstart
  have hsum := @sum_lengths_le p.freeEnd (size - pageTrailerBytes) (((range p.slotCount).filter
    fun i => (p.slotAt i).offset ≠ deadOffset).map fun i => ((p.slotAt i).offset, len (p.slotAt i)))
    ?_ ?_
  · simp only [map_map, comp_def] at hsum
    omega
  · intro e he
    simp only [mem_map, mem_filter, mem_range, decide_eq_true_eq] at he
    obtain ⟨i, ⟨hi, hlive⟩, rfl⟩ := he
    exact h.inside i hi hlive
  · rw [pairwise_map]
    refine (nodup_range.filter _).pairwise_of_forall_ne fun i hi j hj hne => ?_
    simp only [mem_filter, mem_range, decide_eq_true_eq] at hi hj
    intro a hlo hhi hocc
    exact h.apart i hi.1 j hj.1 hne a ⟨hi.2, hlo, hhi⟩ ⟨hj.2, hocc⟩

theorem LayoutOk.total_le (h : SlottedOk size p) :
    64 + p.slotCount * 8 + total p.liveTuples ≤ size - pageTrailerBytes := by
  simpa [total, liveTuples, comp_def] using h.lengths_le

/-- **Compaction** changes no cell and no length, and leaves no gap between the tuples. -/
theorem compact_spec (hsize : size ≤ 65536) (h : SlottedOk size p) :
    Kept Slot.len size p (p.compact size).2 ∧ (p.compact size).2.cellAt = p.cellAt ∧
      (p.compact size).2.slotCount = p.slotCount ∧
      (p.compact size).2.freeEnd + total p.liveTuples = size - pageTrailerBytes ∧
      ∀ i < p.slotCount, ((p.compact size).2.slotAt i).len = (p.slotAt i).len := by
  have htotal := h.total_le
  have hnodup : (p.liveTuples.map Prod.fst).Nodup := by
    rw [liveTuples_slots]
    exact nodup_range.filter _
  simp only [pageTrailerBytes] at htotal
  generalize hfilled :
      p.fill (pageHeaderBytes + p.slotCount * slotBytes) (size - pageTrailerBytes) =
    filled
  have hfill : ∀ a, a < 64 + p.slotCount * 8 → filled.bytes a = p.bytes a := by
    intro a ha
    rw [← hfilled]
    exact fill_outside (.inl ha)
  have hstack := @stack_spec _ p.liveTuples filled (size - pageTrailerBytes) hnodup
    (fun t ht => (mem_liveTuples.mp ht).1)
    (fun t ht => by rw [(mem_liveTuples.mp ht).2.2]; exact (p.slotAt_bounds _).2.2) h.total_le
    (by simp only [pageTrailerBytes]; omega)
  have hcompact :
      (p.compact size).2 = (stack filled (size - pageTrailerBytes) p.liveTuples).2.setFreeEnd
      (stack filled (size - pageTrailerBytes) p.liveTuples).1 := by
    simp only [compact, hfilled]
  rw [hcompact]
  generalize stack filled (size - pageTrailerBytes) p.liveTuples = result at *
  have hcursor := hstack.cursor
  simp only [pageTrailerBytes] at hcursor
  have hpast : ∀ a, a < 38 ∨ 40 ≤ a → (result.2.setFreeEnd result.1).bytes a = result.2.bytes a :=
    fun a ha => putNumber_outside (by omega)
  have hend : (result.2.setFreeEnd result.1).freeEnd = result.1 :=
    number_putNumber (by omega)
  have hexact : (result.2.setFreeEnd result.1).exact = p.exact := by
    have hcut : result.1 < 2 ^ 16 := by omega
    simp only [setFreeEnd, writeU16, hstack.exact, ← hfilled, fill, hcut, decide_true,
      Bool.and_true]
  generalize result.2.setFreeEnd result.1 = q at *
  have hheader : ∀ a, a < 64 → a < 38 ∨ 40 ≤ a → q.bytes a = p.bytes a := by
    intro a ha hout
    rw [hpast a hout, hstack.untouched a (.inl ha), hfill a (by omega)]
  have hcount : q.slotCount = p.slotCount :=
    number_congr fun a _ _ => hheader a (by omega) (by omega)
  have hstart : q.freeStart = p.freeStart :=
    number_congr fun a _ _ => hheader a (by omega) (by omega)
  have hslotAt : ∀ i, q.slotAt i = result.2.slotAt i := fun i => slotAt_congr fun d _ =>
    hpast _ (.inr (by omega))
  have hdead : ∀ i < p.slotCount, (p.slotAt i).offset = deadOffset → q.slotAt i = p.slotAt i := by
    intro i hi hoff
    have hnot : i ∉ p.liveTuples.map Prod.fst := by
      rw [liveTuples_slots, mem_filter]
      simp [hoff]
    rw [hslotAt, hstack.others i hi hnot]
    apply slotAt_congr
    exact fun d hd => hfill _ (by omega)
  have hmem : ∀ i < p.slotCount, (p.slotAt i).offset ≠ deadOffset →
      (i, p.bytes.read (p.slotAt i).offset (p.slotAt i).len, (p.slotAt i).generation) ∈
        p.liveTuples :=
    fun i hi hoff => mem_liveTuples.mpr ⟨hi, hoff, rfl⟩
  have hlive : ∀ i < p.slotCount, (p.slotAt i).offset ≠ deadOffset → ∃ c,
      q.slotAt i = ⟨c, (p.slotAt i).len, (p.slotAt i).generation⟩ ∧ result.1 ≤ c ∧
        c + (p.slotAt i).len ≤ size - pageTrailerBytes ∧
        q.bytes.read c (p.slotAt i).len = p.bytes.read (p.slotAt i).offset (p.slotAt i).len := by
    intro i hi hoff
    obtain ⟨c, hc, hlo, hhi, hread⟩ := hstack.stacked _ (hmem i hi hoff)
    simp only [length_read] at hc hhi hread
    exact ⟨c, (hslotAt i).trans hc, hlo, hhi,
      (read_congr fun a ha _ => hpast a (.inr (by omega))).trans hread⟩
  have halive : ∀ i < p.slotCount, (q.slotAt i).offset ≠ deadOffset →
      (p.slotAt i).offset ≠ deadOffset := by
    intro i hi hq hp
    rw [hdead i hi hp] at hq
    exact hq hp
  refine ⟨⟨⟨?_, ?_, ?_, ?_, ?_⟩,
    Preserved.of_bytes (fun a ha hout => hheader a ha (by omega)) hexact⟩,
    funext fun i => ?_, hcount, by rw [hend, hstack.cursor], fun i hi => ?_⟩
  · rw [hstart, hcount, h.start]
  · rw [hstart, hend, h.start, pageHeaderBytes, slotBytes]
    omega
  · rw [hend, pageTrailerBytes]
    omega
  · intro i hi hoff
    rw [hcount] at hi
    obtain ⟨c, hc, hlo, hhi, -⟩ := hlive i hi (halive i hi hoff)
    rw [hend, hc]
    exact ⟨hlo, hhi⟩
  · intro i hi j hj hne a hocc hocc'
    rw [hcount] at hi hj
    have hapart := hstack.apart _ (hmem i hi (halive i hi hocc.1)) _
      (hmem j hj (halive j hj hocc'.1)) hne a
    simp only [Occupies, hslotAt] at hapart hocc hocc'
    exact hapart hocc hocc'
  · by_cases hi : i < p.slotCount
    · rw [cellAt, cellAt, hcount, if_pos hi, if_pos hi]
      by_cases hoff : (p.slotAt i).offset = deadOffset
      · rw [hdead i hi hoff, cell, cell, if_pos hoff, if_pos hoff]
      · obtain ⟨c, hc, hle, -, hread⟩ := hlive i hi hoff
        rw [hc, cell_live hoff, cell_live (by simp only [deadOffset]; omega), hread]
    · rw [cellAt, cellAt, hcount, if_neg hi, if_neg hi]
  · by_cases hoff : (p.slotAt i).offset = deadOffset
    · rw [hdead i hi hoff]
    · obtain ⟨c, hc, -⟩ := hlive i hi hoff
      rw [hc]

end BicDb.Pages
