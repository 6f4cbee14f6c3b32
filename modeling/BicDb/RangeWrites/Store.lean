import BicDb.Events.Stream
import BicDb.Foundation.IndexedLog
import BicDb.Foundation.Table

/-!
# The range-write store

`RangeWriteStore` of `distribution_range_consensus.rs`: for each range a log of commands with their
states, two watermarks over it, and the write fences of backups. A call is a `Decision` about the
catalog: refuse, answer without writing, or write a new one, which `Store.decide` carries out.
The JSON text reads back what was written; the digests are arbitrary. `write_atomic` may fail before
the rename or, syncing the directory, after it.
-/

namespace BicDb.RangeWrites

open BicDb.Foundation

universe u v

/-! ## Constants -/

def logFormatVersion : Nat := 3

def protocolVersion : Nat := 2

def retainAppliedCommandsPerRange : Nat := 1024

def maxRangeBackupFences : Nat := 1000000

def maxRangeBackupFenceTtlMs : Nat := 24 * 60 * 60 * 1000

/-- What the store refuses. Ranges are numbers, and so are the UUIDs of backup plans. -/
inductive RangeWriteError where
  | unsupportedProtocol (version : Nat)
  | unsetFields
  | noMutations
  | emptyMutationName
  | recordIdMismatch (collection recordId : String)
  | commandChecksum
  | foreignCluster
  | fenced (rangeId resolvedThrough planId : Nat)
  | staleEpoch (rangeEpoch rangeId currentEpoch : Nat)
  | alreadyCompacted (index compactedThrough : Nat)
  | conflictingCommand (rangeId index : Nat)
  | gap (rangeId expected index : Nat)
  | commitAborted (commandId : String)
  | certifyUncommitted (commandId : String)
  | certifyAborted (commandId : String)
  | notCertified (commandId : String)
  | abortCertified (commandId : String)
  | unknownCommand (commandId : String) (rangeId index : Nat)
  | identityMismatch
  | invalidFence
  | fenceExpired
  | alreadyFenced (rangeId planId : Nat)
  | fenceBound
  | staleFenceEpoch (rangeEpoch rangeId currentEpoch : Nat)
  | unresolvedTail (rangeId resolvedThrough lastIndex : Nat)
  | invalidRelease
  | foreignRelease (planId rangeId owner ownerEpoch : Nat)
  | catalogChecksum
  | unsupportedFormat (version : Nat)
  | watermarks
  | indexDisagrees
  | fenceCatalogBound
  | fenceUnknownRange (rangeId : Nat)
  | fenceDisagrees (rangeId : Nat)
  | catalogIdentity
  | json
  | io
  deriving DecidableEq

/-! ## Commands -/

/-- `CommitAdmissionMutation`; a record is its identifier and the rest. -/
structure Mutation (ρ : Type u) where
  collection : String
  recordId : String
  record : Option (String × ρ)
  deriving DecidableEq

/-- The fields of a command that its checksum covers. -/
structure CommandPayload (ρ : Type u) where
  protocolVersion : Nat
  clusterId : String
  rangeId : Nat
  rangeEpoch : Nat
  index : Nat
  commandId : String
  leaderNodeId : String
  transactionId : Nat
  mutations : List (Mutation ρ)
  index_le : index ≤ u64Max
  deriving DecidableEq

/-- A command with its digest. -/
structure Command (ρ : Type u) extends CommandPayload ρ where
  checksum : String
  deriving DecidableEq

/-- The states of a command. -/
inductive WriteState where
  | prepared
  | committed
  | quorumCommitted
  | applied
  | aborted
  deriving DecidableEq

/-- Done one way or the other. -/
def WriteState.resolved : WriteState → Bool
  | .applied => true
  | .aborted => true
  | _ => false

/-- An epoch change aborts it. -/
def WriteState.provisional : WriteState → Bool
  | .prepared => true
  | .committed => true
  | _ => false

/-! ## The catalog -/

/-- A command in the log. -/
structure LogEntry (ρ : Type u) where
  command : Command ρ
  state : WriteState
  deriving DecidableEq

/-- The log of a range, with its watermarks. -/
structure WriteLog (ρ : Type u) where
  currentEpoch : Nat
  lastIndex : Nat
  resolvedThrough : Nat
  compactedThrough : Nat
  entries : Table Nat (LogEntry ρ)
  deriving DecidableEq

/-- A fence that holds a range for a backup. -/
structure BackupFence where
  planId : Nat
  rangeId : Nat
  rangeEpoch : Nat
  resolvedThrough : Nat
  installedAtMs : Nat
  expiresAtMs : Nat
  deriving DecidableEq

/-- Logs and fences by range. -/
structure Catalog (ρ : Type u) where
  formatVersion : Nat
  clusterId : String
  nodeId : String
  ranges : Table Nat (WriteLog ρ)
  backupFences : Table Nat BackupFence
  deriving DecidableEq

/-- The file: the catalog with its digest. -/
structure Envelope (ρ : Type u) where
  catalog : Catalog ρ
  checksum : String
  deriving DecidableEq

/-- The SHA-256 digests of the JSON texts; `none` where a value has no JSON text. -/
structure Digests (ρ : Type u) where
  command : CommandPayload ρ → Option String
  catalog : Catalog ρ → Option String

variable {ρ : Type u}

/-! ## Validation -/

/-- The checks of a mutation. -/
def validateMutation (mutation : Mutation ρ) : Except RangeWriteError Unit :=
  if isBlank mutation.collection || mutation.recordId.toList.isEmpty then .error .emptyMutationName
  else
    match mutation.record with
    | none => .ok ()
    | some (id, _) =>
      if id ≠ mutation.recordId then
        .error (.recordIdMismatch mutation.collection mutation.recordId)
      else .ok ()

/-- The first error of the mutations. -/
def validateMutations : List (Mutation ρ) → Except RangeWriteError Unit
  | [] => .ok ()
  | mutation :: rest =>
    match validateMutation mutation with
    | .error e => .error e
    | .ok () => validateMutations rest

variable (digests : Digests ρ)

/-- The checks of a command. -/
def Command.validate (command : Command ρ) : Except RangeWriteError Unit :=
  if command.protocolVersion = 0 ∨ protocolVersion < command.protocolVersion then
    .error (.unsupportedProtocol command.protocolVersion)
  else if command.rangeEpoch = 0 ∨ command.index = 0 ∨ isBlank command.commandId then
    .error .unsetFields
  else if command.mutations.isEmpty then .error .noMutations
  else
    match validateMutations command.mutations with
    | .error e => .error e
    | .ok () =>
      match digests.command command.toCommandPayload with
      | none => .error .json
      | some checksum =>
        if checksum ≠ command.checksum then .error .commandChecksum else .ok ()

/-- The checks of a fence. -/
def BackupFence.validate (fence : BackupFence) : Except RangeWriteError Unit :=
  if fence.planId = 0 ∨ fence.rangeEpoch = 0 ∨ fence.expiresAtMs ≤ fence.installedAtMs ∨
      maxRangeBackupFenceTtlMs < fence.expiresAtMs - fence.installedAtMs then
    .error .invalidFence
  else .ok ()

/-- One entry in `validate_log`. -/
def validateEntry (log : WriteLog ρ) (index : Nat) (entry : LogEntry ρ) :
    Except RangeWriteError Unit :=
  if index ≠ entry.command.index ∨ index ≤ log.compactedThrough then .error .indexDisagrees
  else entry.command.validate digests

/-- The first error of the entries. -/
def checkAll {υ : Type v} (check : Nat → υ → Except RangeWriteError Unit) :
    List (Sigma fun _ : Nat => υ) → Except RangeWriteError Unit
  | [] => .ok ()
  | entry :: rest =>
    match check entry.1 entry.2 with
    | .error e => .error e
    | .ok () => checkAll check rest

/-- The checks of a log. -/
def validateLog (log : WriteLog ρ) : Except RangeWriteError Unit :=
  if log.lastIndex < log.resolvedThrough ∨ log.resolvedThrough < log.compactedThrough then
    .error .watermarks
  else checkAll (validateEntry digests log) log.entries.entries

variable (catalog : Catalog ρ)

/-- A fence under its range. -/
def validateFence (rangeId : Nat) (fence : BackupFence) : Except RangeWriteError Unit :=
  match fence.validate with
  | .error e => .error e
  | .ok () =>
    match catalog.ranges.lookup rangeId with
    | none => .error (.fenceUnknownRange rangeId)
    | some log =>
      if fence.rangeId ≠ rangeId ∨ fence.rangeEpoch ≠ log.currentEpoch ∨
          fence.resolvedThrough ≠ log.resolvedThrough ∨
          log.lastIndex ≠ log.resolvedThrough then
        .error (.fenceDisagrees rangeId)
      else .ok ()

/-- Checks digest and catalog of a file. -/
def Envelope.verify (envelope : Envelope ρ) : Except RangeWriteError (Catalog ρ) :=
  match digests.catalog envelope.catalog with
  | none => .error .json
  | some checksum =>
    if checksum ≠ envelope.checksum then .error .catalogChecksum
    else if envelope.catalog.formatVersion ∉ [1, 2, logFormatVersion] then
      .error (.unsupportedFormat envelope.catalog.formatVersion)
    else
      match checkAll (fun _ => validateLog digests) envelope.catalog.ranges.entries with
      | .error e => .error e
      | .ok () =>
        if maxRangeBackupFences < envelope.catalog.backupFences.entries.length then
          .error .fenceCatalogBound
        else
          match checkAll (validateFence envelope.catalog) envelope.catalog.backupFences.entries with
          | .error e => .error e
          | .ok () => .ok envelope.catalog

/-! ## Decisions -/

/-- What an operation decides on a catalog. -/
inductive Decision (ρ : Type u) (α : Type) where
  /-- An error; the catalog is the one before. -/
  | refuse (error : RangeWriteError)
  /-- An answer without writing. -/
  | answer (value : α)
  /-- A new catalog, to be written before the answer is given. -/
  | write (catalog : Catalog ρ) (value : α)
  /-- The call does not return. -/
  | stuck

/-- `RangeWriteProgress` without the identities. -/
structure Progress where
  currentEpoch : Nat
  lastIndex : Nat
  resolvedThrough : Nat
  compactedThrough : Nat
  deriving DecidableEq

/-- The watermarks of a range. -/
def Catalog.progress (rangeId : Nat) : Progress :=
  match catalog.ranges.lookup rangeId with
  | none => ⟨0, 0, 0, 0⟩
  | some log => ⟨log.currentEpoch, log.lastIndex, log.resolvedThrough, log.compactedThrough⟩

/-! ## Watermarks -/

/-- Whether the entry at an index is resolved. -/
def WriteLog.resolvedAt (log : WriteLog ρ) (index : Nat) : Bool :=
  match log.entries.lookup index with
  | none => false
  | some entry => entry.state.resolved

/-- The loop of `advance_resolved`. It does not end where the largest index is final; the fuel is
enough for every other case. -/
def WriteLog.advanceFrom (log : WriteLog ρ) : Nat → Nat → Option Nat
  | 0, _ => none
  | fuel + 1, resolvedThrough =>
    if log.resolvedAt (satSucc resolvedThrough) then
      log.advanceFrom fuel (satSucc resolvedThrough)
    else some resolvedThrough

/-- Moves the resolved watermark over what is resolved. -/
def WriteLog.advanceResolved (log : WriteLog ρ) : Option (WriteLog ρ) :=
  (log.advanceFrom (u64Max - log.resolvedThrough + 1) log.resolvedThrough).map fun resolved =>
    { log with resolvedThrough := resolved }

/-- Drops resolved entries but for the last ones. -/
def WriteLog.compactResolved (log : WriteLog ρ) : WriteLog ρ :=
  let keepFrom := log.resolvedThrough - retainAppliedCommandsPerRange
  if keepFrom ≤ log.compactedThrough then log
  else
    { log with
      entries :=
        Table.retain (fun index entry => decide (keepFrom < index) || !entry.state.resolved)
        log.entries
      compactedThrough := keepFrom }

/-! ## Prepare -/

/-- Aborts what no quorum holds. -/
def WriteLog.abortProvisional (log : WriteLog ρ) : WriteLog ρ :=
  { log with
    entries := Table.mapValues
      (fun _ entry => if entry.state.provisional then { entry with state := .aborted } else entry)
      log.entries }

/-- A later epoch aborts first. -/
def WriteLog.enterEpoch (log : WriteLog ρ) (rangeEpoch : Nat) : Option (WriteLog ρ) :=
  if log.currentEpoch < rangeEpoch then
    log.abortProvisional.advanceResolved.map fun log => { log with currentEpoch := rangeEpoch }
  else some log

/-- The log that a first command starts. -/
def Command.newLog (command : Command ρ) : WriteLog ρ where
  currentEpoch := command.rangeEpoch
  lastIndex := command.index - 1
  resolvedThrough := command.index - 1
  compactedThrough := command.index - 1
  entries := ∅

/-- Adds a prepared command. -/
def WriteLog.add (log : WriteLog ρ) (command : Command ρ) : WriteLog ρ :=
  { log with
    lastIndex := command.index
    entries := log.entries.insert command.index ⟨command, .prepared⟩ }

/-- Same id and digest. -/
def Command.sameAs (command other : Command ρ) : Bool :=
  command.commandId == other.commandId && command.checksum == other.checksum

/-- The catalog with one log replaced. -/
def Catalog.setLog (rangeId : Nat) (log : WriteLog ρ) : Catalog ρ :=
  { catalog with ranges := catalog.ranges.insert rangeId log }

/-- The tail of `prepare`: into the log that is there, or a new one. -/
def prepareInto (command : Command ρ) (log : WriteLog ρ) : Decision ρ WriteState :=
  match log.enterEpoch command.rangeEpoch with
  | none => .stuck
  | some log => .write (catalog.setLog command.rangeId (log.add command)) .prepared

/-- Prepares a command. -/
def prepare (command : Command ρ) (catalog : Catalog ρ) : Decision ρ WriteState :=
  match command.validate digests with
  | .error e => .refuse e
  | .ok () =>
    if command.clusterId ≠ catalog.clusterId then .refuse .foreignCluster
    else
      let unfenced : Decision ρ WriteState :=
        match catalog.ranges.lookup command.rangeId with
        | none => prepareInto catalog command command.newLog
        | some log =>
          if command.rangeEpoch < log.currentEpoch then
            .refuse (.staleEpoch command.rangeEpoch command.rangeId log.currentEpoch)
          else if command.index ≤ log.compactedThrough then
            .refuse (.alreadyCompacted command.index log.compactedThrough)
          else
            match log.entries.lookup command.index with
            | some existing =>
              if existing.command.sameAs command then .answer existing.state
              else .refuse (.conflictingCommand command.rangeId command.index)
            | none =>
              if command.index ≠ satSucc log.lastIndex then
                .refuse (.gap command.rangeId (satSucc log.lastIndex) command.index)
              else prepareInto catalog command log
      match catalog.backupFences.lookup command.rangeId with
      | some fence =>
        if fence.resolvedThrough < command.index then
          .refuse (.fenced command.rangeId fence.resolvedThrough fence.planId)
        else unfenced
      | none => unfenced

/-! ## Decisions about a command -/

/-- `match_entry_mut`: the entry of a command, with its log. -/
def matchEntry (command : Command ρ) (catalog : Catalog ρ) :
    Except RangeWriteError (WriteLog ρ × LogEntry ρ) :=
  match command.validate digests with
  | .error e => .error e
  | .ok () =>
    match catalog.ranges.lookup command.rangeId with
    | none => .error (.unknownCommand command.commandId command.rangeId command.index)
    | some log =>
      match log.entries.lookup command.index with
      | none => .error (.unknownCommand command.commandId command.rangeId command.index)
      | some entry =>
        if entry.command.sameAs command then .ok (log, entry)
        else .error .identityMismatch

/-- The log with one entry's state replaced. -/
def WriteLog.setState (log : WriteLog ρ) (index : Nat) (state : WriteState) : WriteLog ρ :=
  { log with entries :=
    Table.modify index (fun entry => { entry with state := state }) log.entries }

/-- Commits a prepared command. -/
def commit (command : Command ρ) (catalog : Catalog ρ) : Decision ρ WriteState :=
  match matchEntry digests command catalog with
  | .error e => .refuse e
  | .ok (log, entry) =>
    match entry.state with
    | .prepared =>
      .write (catalog.setLog command.rangeId (log.setState command.index .committed)) .committed
    | .aborted => .refuse (.commitAborted command.commandId)
    | state => .answer state

/-- Certifies that a quorum committed. -/
def certify (command : Command ρ) (catalog : Catalog ρ) : Decision ρ WriteState :=
  match matchEntry digests command catalog with
  | .error e => .refuse e
  | .ok (log, entry) =>
    match entry.state with
    | .committed =>
      .write (catalog.setLog command.rangeId (log.setState command.index .quorumCommitted))
        .quorumCommitted
    | .prepared => .refuse (.certifyUncommitted command.commandId)
    | .aborted => .refuse (.certifyAborted command.commandId)
    | state => .answer state

/-- The end of `mark_applied` and `abort`: a final state, and both watermarks. -/
def resolveEntry {α : Type} (command : Command ρ) (log : WriteLog ρ) (state : WriteState)
    (value : α) : Decision ρ α :=
  match (log.setState command.index state).advanceResolved with
  | none => .stuck
  | some log => .write (catalog.setLog command.rangeId log.compactResolved) value

/-- Marks a certified command applied. -/
def markApplied (command : Command ρ) (catalog : Catalog ρ) : Decision ρ Unit :=
  match matchEntry digests command catalog with
  | .error e => .refuse e
  | .ok (log, entry) =>
    match entry.state with
    | .quorumCommitted => resolveEntry catalog command log .applied ()
    | .applied => resolveEntry catalog command log .applied ()
    | _ => .refuse (.notCertified command.commandId)

/-- Aborts what is provisional. -/
def abort (command : Command ρ) (catalog : Catalog ρ) : Decision ρ WriteState :=
  match matchEntry digests command catalog with
  | .error e => .refuse e
  | .ok (log, entry) =>
    match entry.state with
    | .prepared => resolveEntry catalog command log .aborted .aborted
    | .committed => resolveEntry catalog command log .aborted .aborted
    | .aborted => .answer .aborted
    | _ => .refuse (.abortCertified command.commandId)

/-! ## Fences -/

def emptyLog (rangeEpoch : Nat) : WriteLog ρ := ⟨rangeEpoch, 0, 0, 0, ∅⟩

/-- The log that a fence is put on. -/
def Catalog.logForFence (rangeId rangeEpoch : Nat) : WriteLog ρ :=
  { (catalog.ranges.lookup rangeId).getD (emptyLog rangeEpoch) with currentEpoch := rangeEpoch }

/-- The tail of `install_backup_fence`. -/
def installFence (candidate : BackupFence) (catalog : Catalog ρ) : Decision ρ Progress :=
  let log := catalog.logForFence candidate.rangeId candidate.rangeEpoch
  let catalog' : Catalog ρ :=
    { catalog.setLog candidate.rangeId log with
      backupFences := catalog.backupFences.insert candidate.rangeId
        { candidate with resolvedThrough := log.resolvedThrough } }
  .write catalog' (catalog'.progress candidate.rangeId)

/-- Installs a fence where all is resolved. -/
def installBackupFence (planId rangeId rangeEpoch installedAtMs expiresAtMs : Nat)
    (catalog : Catalog ρ) : Decision ρ Progress :=
  let candidate : BackupFence := ⟨planId, rangeId, rangeEpoch, 0, installedAtMs, expiresAtMs⟩
  match candidate.validate with
  | .error e => .refuse e
  | .ok () =>
    if expiresAtMs ≤ installedAtMs then .refuse .fenceExpired
    else
      match catalog.backupFences.lookup rangeId with
      | some existing =>
        if existing.planId = planId ∧ existing.rangeEpoch = rangeEpoch ∧
            existing.expiresAtMs = expiresAtMs then
          .answer (catalog.progress rangeId)
        else .refuse (.alreadyFenced rangeId existing.planId)
      | none =>
        if maxRangeBackupFences ≤ catalog.backupFences.entries.length then
          .refuse .fenceBound
        else
          match catalog.ranges.lookup rangeId with
          | none => installFence candidate catalog
          | some log =>
            if rangeEpoch < log.currentEpoch then
              .refuse (.staleFenceEpoch rangeEpoch rangeId log.currentEpoch)
            else if log.lastIndex ≠ log.resolvedThrough then
              .refuse (.unresolvedTail rangeId log.resolvedThrough log.lastIndex)
            else installFence candidate catalog

/-- Releases a fence. -/
def releaseBackupFence (planId rangeId rangeEpoch : Nat) (catalog : Catalog ρ) :
    Decision ρ Bool :=
  if planId = 0 ∨ rangeEpoch = 0 then .refuse .invalidRelease
  else
    match catalog.backupFences.lookup rangeId with
    | none => .answer false
    | some existing =>
      if existing.planId ≠ planId ∨ existing.rangeEpoch ≠ rangeEpoch then
        .refuse (.foreignRelease planId rangeId existing.planId existing.rangeEpoch)
      else
        .write { catalog with backupFences := catalog.backupFences.erase rangeId } true

/-- The catalog without expired fences. -/
def removeExpiredBackupFences (nowMs : Nat) : Catalog ρ :=
  { catalog with
    backupFences := Table.retain (fun _ fence => decide (nowMs < fence.expiresAtMs))
      catalog.backupFences }

/-- Releases them. -/
def releaseExpiredBackupFences (nowMs : Nat) (catalog : Catalog ρ) : Decision ρ Nat :=
  let catalog' := removeExpiredBackupFences catalog nowMs
  let removed := catalog.backupFences.entries.length - catalog'.backupFences.entries.length
  if removed = 0 then .answer 0 else .write catalog' removed

/-! ## The file -/

/-- How a write of the file ends: done, failed with the old file in place, or failed after the
rename. -/
inductive Persist where
  | done
  | failedBefore
  | failedAfter
  deriving DecidableEq

/-- `RangeWriteStore`: the catalog in memory, and the file. -/
structure Store (ρ : Type u) where
  catalog : Catalog ρ
  file : Option (Envelope ρ)
  deriving DecidableEq

/-- The file afterwards, and whether the call succeeded. -/
def persist (digests : Digests ρ) (persist : Persist) (file : Option (Envelope ρ))
    (catalog : Catalog ρ) : Except RangeWriteError Unit × Option (Envelope ρ) :=
  match digests.catalog catalog with
  | none => (.error .json, file)
  | some checksum =>
    match persist with
    | .done => (.ok (), some ⟨catalog, checksum⟩)
    | .failedBefore => (.error .io, file)
    | .failedAfter => (.error .io, some ⟨catalog, checksum⟩)

/-- `persist_or_restore` where there is something to write; `none` where the call does not return.
-/
def Store.decide {α : Type} (p : Persist) (store : Store ρ) :
    Decision ρ α → Option (Except RangeWriteError α × Store ρ)
  | .refuse error => some (.error error, store)
  | .answer value => some (.ok value, store)
  | .stuck => none
  | .write catalog value =>
    match persist digests p store.file catalog with
    | (.error error, file) => some (.error error, { store with file := file })
    | (.ok (), file) => some (.ok value, ⟨catalog, file⟩)

/-! ## Opening -/

/-- The decisions of format 1 under the names of the later formats. -/
def migrateDecisions : Catalog ρ :=
  if catalog.formatVersion = 1 then
    { catalog with
      ranges := Table.mapValues
        (fun _ log => { log with
          entries := Table.mapValues
            (fun _ entry => if entry.state = .committed then
                { entry with state := .quorumCommitted } else entry) log.entries })
        catalog.ranges }
  else catalog

/-- The catalog of a new store. -/
def emptyCatalog (clusterId nodeId : String) : Catalog ρ :=
  ⟨logFormatVersion, clusterId, nodeId, ∅, ∅⟩

/-- `open` once the file is read. -/
def openCatalog (p : Persist) (clusterId nodeId : String) (file : Option (Envelope ρ))
    (catalog : Catalog ρ) : Except RangeWriteError (Store ρ) :=
  if catalog.clusterId ≠ clusterId ∨ catalog.nodeId ≠ nodeId then .error .catalogIdentity
  else
    let migrated : Catalog ρ :=
      { migrateDecisions catalog with formatVersion := logFormatVersion }
    if catalog.formatVersion = logFormatVersion then .ok ⟨migrated, file⟩
    else
      match persist digests p file migrated with
      | (.error error, _) => .error error
      | (.ok (), file) => .ok ⟨migrated, file⟩

/-- Opens a store. -/
def openStore (p : Persist) (clusterId nodeId : String) (file : Option (Envelope ρ)) :
    Except RangeWriteError (Store ρ) :=
  match file with
  | none => openCatalog digests p clusterId nodeId file (emptyCatalog clusterId nodeId)
  | some envelope =>
    match envelope.verify digests with
    | .error e => .error e
    | .ok catalog => openCatalog digests p clusterId nodeId file catalog

end BicDb.RangeWrites
