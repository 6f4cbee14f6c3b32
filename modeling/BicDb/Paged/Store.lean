import BicDb.Paged.Mvcc
import Mathlib.Data.List.Sort

/-!
# The paged store

`put`, `delete`, `get_as_of` and `vacuum_step` of `PagedStore`, each with the store it leaves
behind. The heap maps locators to versions; a reused slot gets a larger generation, and the four
ways to reject an old locator are one error, as the store treats them. Where a new version is placed
is a parameter of `put`. Input and output succeed.
-/

namespace BicDb.Paged

open Function

abbrev Bytes := List UInt8

/-- Where a version lies; the generation tells reuses of a slot apart. -/
structure TupleLocator where
  pageId : Nat
  slot : Nat
  generation : Nat
  deriving DecidableEq

/-- Creator, deleter and previous version. -/
structure VersionHeader where
  xmin : Nat
  xmax : Nat
  prev : Option TupleLocator
  deriving DecidableEq

/-- A version of a row. -/
structure Version where
  header : VersionHeader
  value : Bytes
  deriving DecidableEq

def versionHeaderBytes : Nat := 8 + 8 + 14

def Version.len (v : Version) : Nat := versionHeaderBytes + v.value.length

inductive StampField where
  | xmin
  | xmax
  deriving DecidableEq

/-- The errors of the store. -/
inductive PageError where
  | gone (locator : TupleLocator)
  | valueTooLarge (pageId len free : Nat)
  | writeConflict (transaction conflicting : Nat) (field : StampField) (key : Bytes)
  | corruptFutureTransactionId (key : Bytes) (field : StampField) (xid nextXid : Nat)
  | versionChainCycle (head repeated : TupleLocator) (firstSeenStep steps : Nat)
  | versionChainLimitExceeded (head next : TupleLocator) (limit : Nat)
  | invalidMaintenanceLimits (reason : String)
  deriving DecidableEq

/-- The options that writing reads. -/
structure Options where
  pageSize : Nat
  inlineLimit : Nat
  maxValueBytes : Nat

/-- An overflow page holds as much. -/
def Options.usableBytes (o : Options) : Nat := o.pageSize - 64 - 8

def Options.forPageSize (pageSize : Nat) : Options :=
  ⟨pageSize, (pageSize - 64 - 8) / 4, 64 * 1024 * 1024⟩

def Options.abortExceptionCapacity (o : Options) : Nat := (o.usableBytes - (48 + 24)) / 8

/-! ## The heap -/

/-- Locators handed out, versions there, and the catalog's heap pages. -/
structure Heap where
  issued : List TupleLocator
  tuples : TupleLocator → Option Version
  pages : List Nat

namespace Heap

def empty : Heap := ⟨[], fun _ => none, []⟩

/-- An empty slot, under a generation not used there before. -/
def canPlace (h : Heap) (place : TupleLocator) : Bool :=
  h.issued.all fun l =>
    !(decide (l.pageId = place.pageId) && decide (l.slot = place.slot)) ||
      (decide (l.generation < place.generation) && (h.tuples l).isNone)

/-- Writes a version to a fresh place. -/
def insert (h : Heap) (place : TupleLocator) (version : Version) : Heap where
  issued := place :: h.issued
  tuples := update h.tuples place (some version)
  pages := if place.pageId ∈ h.pages then h.pages else place.pageId :: h.pages

/-- A value in overflow pages is refused above the ceiling. -/
def get (o : Options) (h : Heap) (locator : TupleLocator) : Except PageError Version :=
  match h.tuples locator with
  | none => .error (.gone locator)
  | some version =>
    if o.inlineLimit < version.len ∧ o.maxValueBytes < version.len then
      .error (.valueTooLarge locator.pageId version.len o.maxValueBytes)
    else .ok version

def readHeader (h : Heap) (locator : TupleLocator) : Except PageError VersionHeader :=
  match h.tuples locator with
  | none => .error (.gone locator)
  | some version => .ok version.header

/-- Writes a version in place. -/
def update (h : Heap) (locator : TupleLocator) (version : Version) : Heap :=
  { h with tuples := Function.update h.tuples locator (some version) }

/-- Frees the place of a version. -/
def delete (h : Heap) (locator : TupleLocator) : Heap :=
  { h with tuples := Function.update h.tuples locator none }

/-- The live tuples of a page, by slot. -/
def pageLocators (h : Heap) (pageId : Nat) : List TupleLocator :=
  (h.issued.filter fun l => decide (l.pageId = pageId) && (h.tuples l).isSome).insertionSort
    (fun l m => l.slot ≤ m.slot)

end Heap

/-! ## Writing and reading -/

/-- Key index, heap, transactions and their snapshots. -/
structure PagedStore where
  index : Bytes → Option TupleLocator
  heap : Heap
  transactions : TransactionTable
  snapshots : Nat → Option Snapshot

def maxVersionChain : Nat := 1000000

namespace PagedStore

def new (o : Options) : PagedStore where
  index := fun _ => none
  heap := .empty
  transactions := .withExceptionCapacity o.abortExceptionCapacity
  snapshots := fun _ => none

variable (s : PagedStore)

/-- Starts a transaction. -/
def beginTransaction : (Nat × Snapshot) × PagedStore :=
  let started := s.transactions.begin
  (started.1, { s with
      transactions := started.2
      snapshots := update s.snapshots started.1.1 (some started.1.2) })

def latestSnapshot : Snapshot := s.transactions.latestSnapshot

def snapshotOf (xid : Nat) : Snapshot :=
  (s.snapshots xid).getD s.latestSnapshot

def commit (transaction : Nat) : PagedStore :=
  { s with
    transactions := s.transactions.commit transaction
    snapshots := update s.snapshots transaction none }

def abort (transaction : Nat) : PagedStore :=
  { s with
    transactions := s.transactions.abort transaction
    snapshots := update s.snapshots transaction none }

/-- Created by a visible transaction and not deleted by one. -/
def isVisible (header : VersionHeader) (snapshot : Snapshot) : Bool :=
  s.transactions.xidVisible header.xmin snapshot &&
    (decide (header.xmax = 0) || !s.transactions.xidVisible header.xmax snapshot)

/-- `walk_chain_as_of_bounded`, after the locators `seen`. -/
def walkChainAsOf (o : Options) (s : PagedStore) (snapshot : Snapshot) (head : TupleLocator)
    (limit : Nat) :
    Nat → List TupleLocator → Option TupleLocator → Except PageError (Option Bytes)
  | 0, _, none => .ok none
  | 0, _, some next => .error (.versionChainLimitExceeded head next limit)
  | _ + 1, _, none => .ok none
  | left + 1, seen, some locator =>
    match seen.findIdx? (fun l => decide (l = locator)) with
    | some firstSeenStep =>
      .error (.versionChainCycle head locator firstSeenStep seen.length)
    | none =>
      match s.heap.get o locator with
      | .error (.gone _) => .ok none
      | .error e => .error e
      | .ok stored =>
        if s.isVisible stored.header snapshot = true then .ok (some stored.value)
        else walkChainAsOf o s snapshot head limit left (seen ++ [locator]) stored.header.prev

/-- Reads a key as of a snapshot. -/
def getAsOf (o : Options) (s : PagedStore) (snapshot : Snapshot) (key : Bytes) :
    Except PageError (Option Bytes) :=
  match s.index key with
  | none => .ok none
  | some head =>
    s.walkChainAsOf o snapshot head maxVersionChain maxVersionChain [] (some head)

/-- The newest version whose creator did not abort. -/
def writeBase (s : PagedStore) (transaction : Nat) :
    Nat → Option TupleLocator → Except PageError (Option TupleLocator)
  | 0, cursor => .ok cursor
  | _ + 1, none => .ok none
  | left + 1, some locator =>
    match s.heap.readHeader locator with
    | .error (.gone _) => .ok none
    | .error e => .error e
    | .ok header =>
      if header.xmin = 0 ∨ header.xmin = transaction ∨
          s.transactions.status header.xmin ≠ .aborted then .ok (some locator)
      else writeBase s transaction left header.prev

/-- Refuses a concurrent stamp. -/
def checkStamp (transaction : Nat) (key : Bytes) (field : StampField) (other : Nat) :
    Except PageError Unit :=
  if s.transactions.isConcurrent other (s.snapshotOf transaction) = true then
    if s.transactions.nextXid ≤ other then
      .error (.corruptFutureTransactionId key field other s.transactions.nextXid)
    else .error (.writeConflict transaction other field key)
  else .ok ()

/-- Checks creator and deleter of a version. -/
def checkWriteConflict (o : Options) (s : PagedStore) (transaction : Nat)
    (locator : TupleLocator) (key : Bytes) : Except PageError Unit :=
  match s.heap.get o locator with
  | .error _ => .ok ()
  | .ok stored =>
    match s.checkStamp transaction key .xmin stored.header.xmin with
    | .error e => .error e
    | .ok () => s.checkStamp transaction key .xmax stored.header.xmax

/-- Stamps a version as deleted. -/
def markDeleted (o : Options) (s : PagedStore) (locator : TupleLocator) (transaction : Nat) :
    Except PageError PagedStore :=
  match s.heap.get o locator with
  | .error (.gone _) => .ok s
  | .error e => .error e
  | .ok current =>
    let stamped := { current with header := { current.header with xmax := transaction } }
    .ok { s with heap := s.heap.update locator stamped }

/-- `insert` of the key index; a locator takes 14 bytes and 8 of bookkeeping. -/
def indexInsert (o : Options) (s : PagedStore) (key : Bytes) (locator : TupleLocator) :
    Except PageError PagedStore :=
  if key = [] then .error (.valueTooLarge 0 0 0)
  else if o.usableBytes < max (key.length + 14 + 8) (key.length + 8 + 8) * 2 then
    .error (.valueTooLarge 0 (key.length + 14) (o.usableBytes / 2))
  else .ok { s with index := update s.index key (some locator) }

/-- `put_returning_locator`, with the place for the new version. -/
def put (o : Options) (s : PagedStore) (place : TupleLocator) (transaction : Nat)
    (key value : Bytes) :
    Except PageError TupleLocator × PagedStore :=
  match s.writeBase transaction maxVersionChain (s.index key) with
  | .error e => (.error e, s)
  | .ok previous =>
    match previous.elim (.ok ()) (fun base => s.checkWriteConflict o transaction base key) with
    | .error e => (.error e, s)
    | .ok () =>
      let inserted :=
        { s with heap := s.heap.insert place ⟨⟨transaction, 0, previous⟩, value⟩ }
      -- an error from here on leaves the new version in the heap, reachable from nowhere
      match previous.elim (.ok inserted) (fun base => inserted.markDeleted o base transaction) with
      | .error e => (.error e, inserted)
      | .ok marked =>
        match marked.indexInsert o key place with
        | .error e => (.error e, marked)
        | .ok done => (.ok place, done)

/-- Deletes a key. -/
def delete (o : Options) (s : PagedStore) (transaction : Nat) (key : Bytes) :
    Except PageError Bool × PagedStore :=
  match s.index key with
  | none => (.ok false, s)
  | some head =>
    match s.writeBase transaction maxVersionChain (some head) with
    | .error e => (.error e, s)
    | .ok none => (.ok false, s)
    | .ok (some locator) =>
      match s.getAsOf o (s.snapshotOf transaction) key with
      | .error e => (.error e, s)
      | .ok none => (.ok false, s)
      | .ok (some _) =>
        match s.checkWriteConflict o transaction locator key with
        | .error e => (.error e, s)
        | .ok () =>
          match s.markDeleted o locator transaction with
          | .error e => (.error e, s)
          | .ok done => (.ok true, done)

end PagedStore

/-! ## Vacuum -/

def maxVacuumPagesPerStep : Nat := 65536
def maxVacuumBytesPerStep : Nat := 16 * 1024 * 1024 * 1024
def maxVacuumDurationMillisPerStep : Nat := 5 * 60 * 1000

/-- The limits of a vacuum step. -/
structure VacuumLimits where
  maxPages : Nat
  maxBytes : Nat
  maxDurationMillis : Nat

def VacuumLimits.default : VacuumLimits := ⟨1024, 64 * 1024 * 1024, 100⟩

/-- The checks of the limits. -/
def VacuumLimits.validate (limits : VacuumLimits) (pageSize : Nat) : Except PageError Unit :=
  if limits.maxPages = 0 ∨ maxVacuumPagesPerStep < limits.maxPages then
    .error (.invalidMaintenanceLimits s!"max_pages must be between 1 and {maxVacuumPagesPerStep}")
  else if limits.maxBytes < pageSize * 2 then
    .error (.invalidMaintenanceLimits
      (s!"max_bytes {limits.maxBytes} cannot inspect and retire one {pageSize}-byte heap page; " ++
        s!"minimum is {pageSize * 2}"))
  else if maxVacuumBytesPerStep < limits.maxBytes then
    .error (.invalidMaintenanceLimits
      s!"max_bytes must not exceed {maxVacuumBytesPerStep} per step")
  else if limits.maxDurationMillis = 0 ∨
      maxVacuumDurationMillisPerStep < limits.maxDurationMillis then
    .error (.invalidMaintenanceLimits
      s!"max_duration_millis must be between 1 and {maxVacuumDurationMillisPerStep}")
  else .ok ()

/-- Why a step stopped. -/
inductive VacuumStopReason where
  | complete
  | pageLimit
  | byteLimit
  | timeLimit
  deriving DecidableEq

/-- `VacuumReport` without bytes gained and time taken. -/
structure VacuumReport where
  pagesScanned : Nat := 0
  bytesExamined : Nat := 0
  versionsExamined : Nat := 0
  versionsReclaimed : Nat := 0
  pagesFreed : Nat := 0
  oldestActive : Nat := 0
  nextCursor : Option Nat := none
  startPage : Option Nat := none
  endPage : Option Nat := none
  stopReason : VacuumStopReason := .complete
  complete : Bool := false
  stoppedEarly : Bool := false
  deriving DecidableEq

/-- A stamp of a transaction that committed below the horizon. -/
def TransactionTable.deletedForEveryone (t : TransactionTable) (oldestActive : Nat)
    (header : VersionHeader) : Bool :=
  decide (header.xmax ≠ 0) && decide (header.xmax < oldestActive) &&
    decide (t.status header.xmax = .committed)

namespace Heap

section Vacuum

variable (o : Options) (t : TransactionTable) (oldestActive : Nat)

/-- The version below is gone or deleted for everyone. -/
def nothingNeededBelow (h : Heap) : Option TupleLocator → Bool
  | none => true
  | some prev =>
    match h.tuples prev with
    | none => true
    | some version => t.deletedForEveryone oldestActive version.header

/-- Aborted with nothing needed below, or deleted for everyone. -/
def reclaimable (h : Heap) (version : Version) : Bool :=
  decide (t.status version.header.xmin = .aborted) &&
      h.nothingNeededBelow t oldestActive version.header.prev ||
    t.deletedForEveryone oldestActive version.header

/-- Reclaims one tuple if it can be. -/
def vacuumTuple (work : Heap × VacuumReport) (locator : TupleLocator) : Heap × VacuumReport :=
  match work.1.tuples locator with
  | none => work
  | some version =>
    -- an overflowing value is examined and released by whole pages
    let overflowPages :=
      if version.len ≤ o.inlineLimit then 0
      else (version.len + o.usableBytes - 1) / o.usableBytes
    let headerIoBytes :=
      if overflowPages = 0 then min version.len versionHeaderBytes else o.pageSize
    let report :=
      { work.2 with
        bytesExamined := work.2.bytesExamined + headerIoBytes
        versionsExamined := work.2.versionsExamined + 1 }
    if work.1.reclaimable t oldestActive version = true then
      (work.1.delete locator, { report with
          bytesExamined := report.bytesExamined + overflowPages * o.pageSize
          versionsReclaimed := report.versionsReclaimed + 1 })
    else (work.1, report)

/-- Vacuums one page. -/
def vacuumPage (work : Heap × VacuumReport) (pageId : Nat) : Heap × VacuumReport :=
  let entered :=
    { work.2 with
      pagesScanned := work.2.pagesScanned + 1
      bytesExamined := work.2.bytesExamined + o.pageSize }
  let done := (work.1.pageLocators pageId).foldl (vacuumTuple o t oldestActive) (work.1, entered)
  if done.1.pageLocators pageId = [] then
    (done.1, { done.2 with bytesExamined := done.2.bytesExamined + o.pageSize })
  else done

/-- Vacuums pages until done or a limit is met. -/
def vacuumPages (limits : VacuumLimits) (expired : Nat → Bool) :
    List Nat → List Nat → Heap × VacuumReport → Heap × VacuumReport × List Nat
  | fullyDead, [], (h, report) =>
    (h, { report with complete := true, stopReason := .complete, nextCursor := none }, fullyDead)
  | fullyDead, pageId :: pages, (h, report) =>
    if limits.maxPages ≤ report.pagesScanned then
      (h, { report with stopReason := .pageLimit, nextCursor := some pageId }, fullyDead)
    else if 0 < report.pagesScanned ∧ expired report.pagesScanned = true then
      (h, { report with stopReason := .timeLimit, nextCursor := some pageId }, fullyDead)
    else if 0 < report.pagesScanned ∧ limits.maxBytes ≤ report.bytesExamined then
      (h, { report with stopReason := .byteLimit, nextCursor := some pageId }, fullyDead)
    else
      let done := vacuumPage o t oldestActive (h, report) pageId
      vacuumPages limits expired
        (if done.1.pageLocators pageId = [] then fullyDead ++ [pageId] else fullyDead)
        pages done

end Vacuum

end Heap

def showPage : Option Nat → String
  | none => "None"
  | some page => s!"Some({page})"

/-- `vacuum_step_with_expiry`; `expired n` is asked after `n` pages. -/
def PagedStore.vacuumStep (o : Options) (s : PagedStore) (cursor : Option Nat)
    (limits : VacuumLimits) (expired : Nat → Bool) :
    Except PageError VacuumReport × PagedStore :=
  match limits.validate o.pageSize with
  | .error e => (.error e, s)
  | .ok () =>
    let oldestActive := s.transactions.oldestInProgressOrNext
    let pages := (s.heap.pages.filter fun page => decide (cursor.getD 0 ≤ page)).insertionSort
      (· ≤ ·)
    let done := Heap.vacuumPages o s.transactions oldestActive limits expired [] pages
      (s.heap, { oldestActive })
    let report : VacuumReport :=
      { done.2.1 with
        pagesFreed := done.2.2.length
        stoppedEarly := !done.2.1.complete
        startPage := cursor
        endPage := done.2.1.nextCursor }
    let store : PagedStore :=
      { s with heap :=
        { done.1 with pages := done.1.pages.filter fun page => decide (page ∉ done.2.2) } }
    if 0 < report.pagesScanned ∧ report.complete = false ∧ report.endPage = report.startPage then
      (.error (.invalidMaintenanceLimits
        (s!"vacuum entered page {showPage report.startPage} and did not advance past it " ++
          s!"({report.pagesScanned} pages scanned, {report.versionsReclaimed} versions " ++
          "reclaimed); a page-granular cursor cannot resume mid-page")),
        store)
    else (.ok report, store)

end BicDb.Paged
