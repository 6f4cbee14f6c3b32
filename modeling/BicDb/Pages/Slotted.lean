import BicDb.Foundation.ByteMemory
import BicDb.Paged.Store

/-!
# Slotted pages

Heap pages as bytes: a header of 64 bytes, the slot directory growing up from it, the tuples growing
down, and a trailer of 8 bytes. Stored offsets are cut to 16 bits; `Page.exact` is true while no cut
has lost anything; no operation reads it.
-/

namespace BicDb.Pages

open BicDb.Foundation
open BicDb.Paged (Bytes TupleLocator)

def pageHeaderBytes : Nat := 64
def pageTrailerBytes : Nat := 8
def minPageSize : Nat := 512
def maxPageSize : Nat := 1024 * 1024

/-- The errors of a page. -/
inductive PageError where
  | invalidPageSize (pageSize : Nat)
  | noSuchSlot (pageId slot slotCount : Nat)
  | deadSlot (pageId slot : Nat)
  | staleLocator (pageId slot expected found : Nat)
  | valueTooLarge (pageId len free : Nat)
  | unexpectedPageType (pageId found expected : Nat)
  | outOfBounds (pageId : Nat)
  | io
  deriving DecidableEq

/-- The types of pages. -/
inductive PageType where
  | superblock
  | heap
  | overflow
  | bTreeInterior
  | bTreeLeaf
  | free
  deriving DecidableEq

def PageType.toU8 : PageType → Nat
  | .superblock => 1
  | .heap => 2
  | .overflow => 3
  | .bTreeInterior => 4
  | .bTreeLeaf => 5
  | .free => 6

/-- The sizes a page may have. -/
def validatePageSize (pageSize : Nat) : Except PageError Unit :=
  if pageSize < minPageSize ∨ maxPageSize < pageSize ∨ ¬ pageSize.isPowerOfTwo ∨
      pageSize ≤ pageHeaderBytes + pageTrailerBytes then
    .error (.invalidPageSize pageSize)
  else .ok ()

def usableBytes (pageSize : Nat) : Nat := pageSize - pageHeaderBytes - pageTrailerBytes

/-- The bytes of a page; `exact` while no 16-bit field was cut off. -/
structure Page where
  bytes : Memory
  exact : Bool

namespace Page

variable (p : Page)

def readU16 (start : Nat) : Nat := p.bytes.number start 2
def readU32 (start : Nat) : Nat := p.bytes.number start 4
def readU64 (start : Nat) : Nat := p.bytes.number start 8

/-- A 16-bit field, cut off where it does not fit. -/
def writeU16 (start value : Nat) : Page :=
  ⟨p.bytes.putNumber start 2 value, p.exact && decide (value < 2 ^ 16)⟩

def writeNumber (start width value : Nat) : Page :=
  { p with bytes := p.bytes.putNumber start width value }

def copyFromSlice (start : Nat) (value : Bytes) : Page :=
  { p with bytes := p.bytes.write start value }

def fill (start stop : Nat) : Page := { p with bytes := p.bytes.fill start stop }

def copyWithin (start stop target : Nat) : Page :=
  { p with bytes := p.bytes.copyWithin start stop target }

def pageId : Nat := p.readU64 8
def freeStart : Nat := p.readU16 36
def freeEnd : Nat := p.readU16 38
def slotCount : Nat := p.readU16 40
def nextPage : Nat := p.readU64 44
def freeSpace : Nat := p.freeEnd - p.freeStart

def setFreeStart (value : Nat) : Page := p.writeU16 36 value
def setFreeEnd (value : Nat) : Page := p.writeU16 38 value
def setSlotCount (value : Nat) : Page := p.writeU16 40 value
def setNextPage (value : Nat) : Page := p.writeNumber 44 8 value

/-- An empty page: zeros, with the header that `PageHeader::new` makes for it. -/
def init (pageId : Nat) (pageType : PageType) (pageSize payloadLen : Nat) : Page :=
  let p : Page := ⟨fun _ => 0, true⟩
  let p := p.copyFromSlice 0 [66, 80, 71, 49]
  let p := p.writeNumber 4 2 1
  let p := p.writeNumber 6 1 pageType.toU8
  let p := p.writeNumber 8 8 pageId
  let p := p.setFreeStart pageHeaderBytes
  let p := p.setFreeEnd (pageSize - pageTrailerBytes)
  let p := p.setSlotCount 0
  p.writeNumber 52 4 payloadLen

end Page

/-! ## Heap pages -/

/-- An entry of the slot directory. -/
structure Slot where
  offset : Nat
  len : Nat
  generation : Nat
  deriving DecidableEq

def slotBytes : Nat := 8

def deadOffset : Nat := 0

namespace Page

variable (p : Page)

def slotOffset (slot : Nat) : Nat := pageHeaderBytes + slot * slotBytes

def slotAt (slot : Nat) : Slot :=
  ⟨p.readU16 (slotOffset slot), p.readU16 (slotOffset slot + 2), p.readU32 (slotOffset slot + 4)⟩

def slotEntry (slot : Nat) : Except PageError Slot :=
  if p.slotCount ≤ slot then .error (.noSuchSlot p.pageId slot p.slotCount)
  else .ok (p.slotAt slot)

variable (locator : TupleLocator)

/-- The slot of a locator, if its generation is current. -/
def resolve : Except PageError Slot :=
  match p.slotEntry locator.slot with
  | .error e => .error e
  | .ok slot =>
    if slot.offset = deadOffset then .error (.deadSlot p.pageId locator.slot)
    else if slot.generation ≠ locator.generation then
      .error (.staleLocator p.pageId locator.slot locator.generation slot.generation)
    else .ok slot

/-- Reads a tuple. -/
def get : Except PageError Bytes :=
  (p.resolve locator).map fun slot => p.bytes.read slot.offset slot.len

def initWithFloor (pageId pageSize floor : Nat) : Page := init pageId .heap pageSize floor

def generationFloor : Nat := p.readU32 52

def writeSlot (slot offset len generation : Nat) : Page :=
  ((p.writeU16 (slotOffset slot) offset).writeU16 (slotOffset slot + 2) len).writeNumber
    (slotOffset slot + 4) 4 generation

/-- The first slot that can be used again. -/
def findDeadSlot : Option Nat :=
  (List.range p.slotCount).find? fun slot => (p.slotAt slot).offset = deadOffset

/-- Puts bytes at the end of the free space. -/
def placeData (value : Bytes) : Page :=
  let dataOffset := p.freeEnd - value.length
  (p.copyFromSlice dataOffset value).setFreeEnd dataOffset

/-- A dead slot in its next generation, or a new one. -/
def claimSlot (recycled : Option Nat) : (Nat × Nat) × Page :=
  match recycled with
  | some slot => ((slot, ((p.slotAt slot).generation + 1) % 2 ^ 32), p)
  | none =>
    let slot := p.slotCount
    let q := p.setSlotCount (slot + 1)
    ((slot, (p.generationFloor + 1) % 2 ^ 32), q.setFreeStart (q.freeStart + slotBytes))

/-- Inserts a tuple. -/
def insert (value : Bytes) : Except PageError TupleLocator × Page :=
  if value = [] then (.error (.valueTooLarge p.pageId 0 p.freeSpace), p)
  else
    let recycled := p.findDeadSlot
    let needed := value.length + if recycled.isNone then slotBytes else 0
    if p.freeSpace < needed then (.error (.valueTooLarge p.pageId value.length p.freeSpace), p)
    else
      let claimed := (p.placeData value).claimSlot recycled
      (.ok ⟨p.pageId, claimed.1.1, claimed.1.2⟩,
        claimed.2.writeSlot claimed.1.1 (p.freeEnd - value.length) value.length claimed.1.2)

/-- Deletes a tuple. -/
def delete : Except PageError Unit × Page :=
  match p.resolve locator with
  | .error e => (.error e, p)
  | .ok entry =>
    (.ok (), (p.fill entry.offset (entry.offset + entry.len)).writeSlot locator.slot deadOffset
      entry.len entry.generation)

/-- Updates a tuple in place, or moves it. -/
def update (value : Bytes) : Except PageError Unit × Page :=
  match p.resolve locator with
  | .error e => (.error e, p)
  | .ok entry =>
    if value = [] then (.error (.valueTooLarge p.pageId 0 p.freeSpace), p)
    else if value.length ≤ entry.len then
      -- in place, with zeros for the rest of the longer value before it
      (.ok (), ((p.copyFromSlice entry.offset value).fill (entry.offset + value.length)
        (entry.offset + entry.len)).writeSlot locator.slot entry.offset value.length
          entry.generation)
    else if p.freeSpace < value.length then
      (.error (.valueTooLarge p.pageId value.length p.freeSpace), p)
    else
      let q := p.fill entry.offset (entry.offset + entry.len)
      (.ok (), (q.placeData value).writeSlot locator.slot (q.freeEnd - value.length) value.length
        entry.generation)

/-- Slot, tuple and generation of all that is live. -/
def liveTuples : List (Nat × Bytes × Nat) :=
  ((List.range p.slotCount).filter fun slot => (p.slotAt slot).offset ≠ deadOffset).map fun slot =>
    (slot, p.bytes.read (p.slotAt slot).offset (p.slotAt slot).len, (p.slotAt slot).generation)

/-- Writes tuples below the cursor. -/
def stack (p : Page) (cursor : Nat) : List (Nat × Bytes × Nat) → Nat × Page
  | [] => (cursor, p)
  | (slot, value, generation) :: rest =>
    let cursor := cursor - value.length
    stack ((p.copyFromSlice cursor value).writeSlot slot cursor value.length generation) cursor rest

/-- The result is the number of bytes gained. -/
def compact (pageSize : Nat) : Nat × Page :=
  let dataTop := pageSize - pageTrailerBytes
  let directoryEnd := pageHeaderBytes + p.slotCount * slotBytes
  let stacked := stack (p.fill directoryEnd dataTop) dataTop p.liveTuples
  let q := stacked.2.setFreeEnd stacked.1
  (q.freeSpace - p.freeSpace, q)

end Page

end BicDb.Pages
