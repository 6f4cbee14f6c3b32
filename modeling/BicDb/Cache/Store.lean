import BicDb.Events.Frames
import BicDb.Foundation.Json
import BicDb.Foundation.Saturating
import Mathlib.Data.Prod.Lex

/-!
# The cache in its two modes

The commands of `store.rs` and `store/atomic.rs` over the maps of the ephemeral mode and over the
collections of the engine. Of the engine there is what the cache uses: collections that may not
exist yet, records with payload, timestamp and metadata, the check of record ids, and the limit on
the frame that a write puts into the transaction log (`writeFrame`, its JSON text). Clock readings
and the numbers of the engine's transactions (`TxStamp`) are arguments. There is no key budget.
Base 64 is third-party code.

`MemStore.step` and `DurableStore.step` are one command in the two modes.
-/

namespace BicDb.Cache

open BicDb.Foundation Function
open BicDb.Events (maxPayloadLen)

abbrev Bytes := List UInt8

/-- One of the sixteen logical databases. -/
abbrev DbIndex := Fin 16

/-- The base 64 codec, as far as the key encoding relies on it. -/
structure Base64 where
  encode : Bytes → String
  decode : String → Option Bytes
  decode_encode : ∀ bytes, decode (encode bytes) = some bytes

/-! ## Entries and errors -/

/-- A value with its deadline, as callers see it. -/
structure Entry where
  value : Bytes
  expiresAtMs : Option Int
  deriving DecidableEq

/-- An entry with its type; `MemEntry` has the same fields. -/
structure TypedEntry where
  value : Bytes
  kind : Option String
  expiresAtMs : Option Int
  deriving DecidableEq

/-- The answer to a question for the time to live. -/
inductive TtlState where
  | missing
  | noExpiry
  | expiresInMs (ms : Int)
  deriving DecidableEq

/-- When a conditional write takes place. -/
inductive SetCondition where
  | always
  | ifAbsent
  | ifPresent
  deriving DecidableEq

/-- The errors of the cache and of the engine below it. -/
inductive CacheError where
  | command (message : String)
  | conditionFailed (previous : Option Entry)
  | collectionNotFound (collection : String)
  | emptyRecordId
  | invalidRecordId (message : String)
  | corruption (message : String)
  deriving DecidableEq

/-- The deadline that stands for keeping the present one. -/
def keepTtlSentinel : Int := -2 ^ 63

/-- The entry without its type. -/
def TypedEntry.entry (entry : TypedEntry) : Entry := ⟨entry.value, entry.expiresAtMs⟩

/-- Entries expire at their deadline. -/
def memIsLive (now : Int) (entry : TypedEntry) : Bool :=
  !(entry.expiresAtMs.any fun deadline => decide (deadline ≤ now))

/-- Whether the condition allows a write over the entry found. -/
def SetCondition.holds (condition : SetCondition) (previous : Option Entry) : Bool :=
  match condition with
  | .always => true
  | .ifAbsent => previous.isNone
  | .ifPresent => previous.isSome

/-! ## Keys -/

/-- The record id of a key: its text, or base 64 where it is not UTF-8. -/
def encodeKey (base64 : Base64) (key : Bytes) : String :=
  match String.fromUTF8? ⟨key.toArray⟩ with
  | some text => "s" ++ text
  | none => "b" ++ base64.encode key

/-- The key of a record id. -/
def decodeKey (base64 : Base64) (id : String) : Bytes :=
  match id.toList with
  | 's' :: rest => utf8 (String.ofList rest)
  | 'b' :: rest => (base64.decode (String.ofList rest)).getD []
  | _ => utf8 id

/-! ## Deadlines -/

/-- A deadline with the key it is for; the sweeper takes the smallest first. -/
abbrev Deadline := Int ×ₗ DbIndex ×ₗ String

/-- The queue entry of a key. -/
def deadlineOf (deadline : Int) (db : DbIndex) (id : String) : Deadline :=
  toLex (deadline, toLex (db, id))

/-- The deadlines in the order in which a heap hands them out. -/
abbrev ExpiryQueue := List Deadline

/-- Queues a deadline, where there is one. -/
def trackExpiry (queue : ExpiryQueue) (deadline : Option Int) (db : DbIndex) (id : String) :
    ExpiryQueue :=
  match deadline with
  | some deadline => queue.orderedInsert (· ≤ ·) (deadlineOf deadline db id)
  | none => queue

/-- The most deadlines one sweep takes. -/
def sweepLimit : Nat := 4096

/-- The deadlines a sweep takes at a time. -/
def dueDeadlines (queue : ExpiryQueue) (now : Int) : List Deadline :=
  (queue.takeWhile fun due => decide ((ofLex due).1 ≤ now)).take sweepLimit

/-! ## Numbers -/

/-- Whether a number fits an `i64`. -/
def inI64 (n : Int) : Bool := decide (i64Min ≤ n) && decide (n ≤ i64Max)

/-- A number in decimal digits. -/
def parseDigits (digits : Bytes) : Option Nat :=
  if digits ≠ [] && digits.all fun d => 48 ≤ d && d ≤ 57 then
    some (digits.foldl (fun n d => 10 * n + (d.toNat - 48)) 0)
  else none

/-- A number with an optional sign, in the range of `i64`. -/
def parseI64 (bytes : Bytes) : Option Int :=
  (match bytes with
    | 43 :: digits => (parseDigits digits).map Int.ofNat
    | 45 :: digits => (parseDigits digits).map fun n => -(n : Int)
    | digits => (parseDigits digits).map Int.ofNat).filter inI64

/-- The number a value stands for, or the error of the source. -/
def parseInt (bytes : Bytes) : Except CacheError Int :=
  match parseI64 bytes with
  | some n => .ok n
  | none => .error (.command "value is not an integer or out of range")

/-- The closure of `incr_by`: the bytes to store, and the text of the number. -/
def incrUpdate (delta : Int) (current : Option Bytes) : Except CacheError (Bytes × String) := do
  let current ← match current with
    | some bytes => parseInt bytes
    | none => .ok 0
  if inI64 (current + delta) then
    return (utf8 (toString (current + delta)), toString (current + delta))
  else .error (.command "increment or decrement would overflow")

/-! ## Atomic updates -/

/-- The body of an atomic update: reads and writes through the buffer, a look at the clock, a result
or an error. -/
inductive AtomicProgram (ρ : Type) where
  | done (result : Except CacheError ρ)
  | clock (next : Int → AtomicProgram ρ)
  | get (key : Bytes) (next : Option TypedEntry → AtomicProgram ρ)
  | put (key : Bytes) (value : Option TypedEntry) (next : Except CacheError Unit → AtomicProgram ρ)

/-- The writes of an atomic update so far, with their size. -/
structure AtomicCache where
  writes : OrderedMap Bytes (Option TypedEntry)
  bytes : Nat

def atomicBytesLimit : Nat := 64 * 1024 * 1024

def atomicWritesLimit : Nat := 16384

namespace AtomicCache

/-- A read sees the update's own writes first. -/
def get (cache : AtomicCache) (source : Bytes → Option TypedEntry) (now : Int) (key : Bytes) :
    Option TypedEntry :=
  ((cache.writes.get? key).getD (source key)).filter fun entry =>
    entry.expiresAtMs.all fun deadline => decide (now < deadline)

/-- A write, within the limits of an update. -/
def put (cache : AtomicCache) (key : Bytes) (value : Option TypedEntry) :
    Except CacheError AtomicCache :=
  let sizeOf := fun (value : Option TypedEntry) =>
    key.length + (value.elim 0 fun entry => entry.value.length)
  let old := (cache.writes.get? key).elim 0 sizeOf
  let bytes := cache.bytes - old + sizeOf value
  if atomicBytesLimit < bytes ∨
      (atomicWritesLimit ≤ cache.writes.size ∧ cache.writes.contains key = false) then
    .error (.command "OOM atomic write set limit exceeded")
  else .ok ⟨cache.writes.insert key value, bytes⟩

end AtomicCache

/-- Runs the body of an update over its own writes. -/
def AtomicProgram.run {ρ : Type} (source : Bytes → Option TypedEntry) (now : Int) :
    AtomicProgram ρ → AtomicCache → Except CacheError ρ × AtomicCache
  | .done result, cache => (result, cache)
  | .clock next, cache => (next now).run source now cache
  | .get key next, cache => (next (cache.get source now key)).run source now cache
  | .put key value next, cache =>
    match cache.put key value with
    | .ok cache => (next (.ok ())).run source now cache
    | .error error => (next (.error error)).run source now cache

/-! ## Commands -/

/-- The commands of the cache. -/
inductive Command (ρ : Type) where
  | get (db : DbIndex) (key : Bytes)
  | ttl (db : DbIndex) (key : Bytes)
  | keys (db : DbIndex)
  | set (db : DbIndex) (key value : Bytes) (expiresAtMs : Option Int)
  | setConditional (db : DbIndex) (key value : Bytes) (expiresAtMs : Option Int)
      (condition : SetCondition)
  | delete (db : DbIndex) (keys : List Bytes)
  | getDel (db : DbIndex) (key : Bytes)
  | setExpiry (db : DbIndex) (key : Bytes) (deadlineMs : Option Int)
  | incrBy (db : DbIndex) (key : Bytes) (delta : Int)
  | append (db : DbIndex) (key suffix : Bytes)
  | msetNx (db : DbIndex) (pairs : List (Bytes × Bytes))
  | rename (db : DbIndex) (src dst : Bytes)
  | flushDb (db : DbIndex)
  | flushAll
  | sweepExpired
  | atomic (db : DbIndex) (execute : AtomicProgram ρ)

/-- What they answer. -/
inductive Reply (ρ : Type) where
  | entry (entry : Option Entry)
  | ttl (state : TtlState)
  | keys (keys : List Bytes)
  | written (written : Bool) (previous : Option Entry)
  | removed (count : Nat)
  | changed (changed : Bool)
  | number (n : Int)
  | length (n : Nat)
  | done
  | swept (count : Nat)
  | atomic (result : ρ)
  deriving DecidableEq

/-- What `ttl` makes of an entry, with its own reading of the clock. -/
def ttlState (entry : Option Entry) (now : Int) : TtlState :=
  match entry with
  | none => .missing
  | some entry =>
    match entry.expiresAtMs with
    | none => .noExpiry
    | some deadline => .expiresInMs (deadline - now)

/-- `set_conditional` turns a failed condition into an answer. -/
def conditionalReply {ρ : Type} (result : Except CacheError (Option Entry)) :
    Except CacheError (Reply ρ) :=
  match result with
  | .ok previous => .ok (.written true previous)
  | .error (.conditionFailed previous) => .ok (.written false previous)
  | .error error => .error error

/-! ## The ephemeral mode -/

/-- The ephemeral mode: a map for each database, and the deadlines. -/
structure MemStore where
  maps : DbIndex → OrderedMap String TypedEntry
  expiry : ExpiryQueue

namespace MemStore

variable (base64 : Base64)

def empty : MemStore := ⟨fun _ => ∅, []⟩

variable (store : MemStore)

/-- The store with another map for a database. -/
def withMap (db : DbIndex) (map : OrderedMap String TypedEntry) : MemStore :=
  { store with maps := update store.maps db map }

@[simp]
theorem withMap_self (db : DbIndex) (map : OrderedMap String TypedEntry) :
    (store.withMap db map).maps db = map :=
  update_self _ _ _

theorem withMap_of_ne {db db' : DbIndex} (map : OrderedMap String TypedEntry) (h : db' ≠ db) :
    (store.withMap db map).maps db' = store.maps db' :=
  update_of_ne h _ _

def track (deadline : Option Int) (db : DbIndex) (id : String) : MemStore :=
  { store with expiry := trackExpiry store.expiry deadline db id }

/-- The entry of an id, unless it has expired. -/
def live (db : DbIndex) (id : String) (now : Int) : Option TypedEntry :=
  ((store.maps db).get? id).filter (memIsLive now)

def get (store : MemStore) (db : DbIndex) (key : Bytes) (now : Int) : Option Entry :=
  (store.live db (encodeKey base64 key) now).map TypedEntry.entry

def keys (store : MemStore) (db : DbIndex) (now : Int) : List Bytes :=
  ((store.maps db).entries.filter fun e => memIsLive now e.2).map fun e => decodeKey base64 e.1

/-- Writes a value where the condition holds of what is there. -/
def writeEntry (store : MemStore) (db : DbIndex) (key value : Bytes) (expiresAtMs : Option Int)
    (condition : SetCondition) (now : Int) : Except CacheError (Option Entry) × MemStore :=
  let id := encodeKey base64 key
  let live := store.live db id now
  let previous := live.map TypedEntry.entry
  if condition.holds previous then
    let deadline :=
      if expiresAtMs = some keepTtlSentinel then live.bind (·.expiresAtMs) else expiresAtMs
    (.ok previous,
      (store.withMap db ((store.maps db).insert id ⟨value, none, deadline⟩)).track deadline db id)
  else (.error (.conditionFailed previous), store)

/-- The loop of `delete`: how many live entries were removed, and the map. -/
def deleteKeys (now : Int) : List Bytes → OrderedMap String TypedEntry →
    Nat × OrderedMap String TypedEntry
  | [], map => (0, map)
  | key :: rest, map =>
    match map.get? (encodeKey base64 key) with
    | none => deleteKeys now rest map
    | some entry =>
      let (removed, map) := deleteKeys now rest (map.erase (encodeKey base64 key))
      ((if memIsLive now entry then 1 else 0) + removed, map)

/-- Removes keys and counts those that were live. -/
def delete (db : DbIndex) (keys : List Bytes) (now : Int) : Nat × MemStore :=
  let (removed, map) := deleteKeys base64 now keys (store.maps db)
  (removed, store.withMap db map)

/-- Reads and removes. -/
def getDel (store : MemStore) (db : DbIndex) (key : Bytes) (now : Int) : Option Entry × MemStore :=
  let id := encodeKey base64 key
  (((store.maps db).get? id).bind fun entry =>
      if memIsLive now entry then some entry.entry else none,
    store.withMap db ((store.maps db).erase id))

/-- Sets or clears a deadline. -/
def setExpiry (store : MemStore) (db : DbIndex) (key : Bytes) (deadlineMs : Option Int)
    (now : Int) :
    Bool × MemStore :=
  let id := encodeKey base64 key
  match store.live db id now with
  | none => (false, store)
  | some entry => (true, (store.withMap db
      ((store.maps db).insert id { entry with expiresAtMs := deadlineMs })).track deadlineMs db id)

/-- Replaces a value by what an update makes of it, and keeps the deadline. -/
def numericUpdate (store : MemStore) (db : DbIndex) (key : Bytes)
    (update : Option Bytes → Except CacheError (Bytes × String)) (now : Int) :
    Except CacheError Int × MemStore :=
  let id := encodeKey base64 key
  let live := store.live db id now
  match update (live.map (·.value)) with
  | .error error => (.error error, store)
  | .ok (newBytes, text) =>
    (.ok ((parseI64 (utf8 text)).getD 0), store.withMap db
      ((store.maps db).insert id ⟨newBytes, none, live.bind (·.expiresAtMs)⟩))

/-- Writes all pairs, if no key is there. -/
def msetNx (store : MemStore) (db : DbIndex) (pairs : List (Bytes × Bytes)) (now : Int) :
    Bool × MemStore :=
  if pairs.any fun pair => (store.live db (encodeKey base64 pair.1) now).isSome then (false, store)
  else (true, store.withMap db (pairs.foldl
    (fun map pair => map.insert (encodeKey base64 pair.1) ⟨pair.2, none, none⟩) (store.maps db)))

/-- `append`. An expired entry loses its value and its deadline, and keeps its type. -/
def append (store : MemStore) (db : DbIndex) (key suffix : Bytes) (now : Int) : Nat × MemStore :=
  let id := encodeKey base64 key
  match (store.maps db).get? id with
  | some entry =>
    let entry := if memIsLive now entry then entry
      else { entry with value := [], expiresAtMs := none }
    let value := entry.value ++ suffix
    (value.length, store.withMap db ((store.maps db).insert id { entry with value := value }))
  | none => (suffix.length, store.withMap db ((store.maps db).insert id ⟨suffix, none, none⟩))

/-- Moves an entry to another key. -/
def rename (store : MemStore) (db : DbIndex) (src dst : Bytes) (now : Int) :
    Except CacheError Unit × MemStore :=
  let srcId := encodeKey base64 src
  let dstId := encodeKey base64 dst
  match store.live db srcId now with
  | none => (.error (.command "no such key"), store)
  | some entry => (.ok (), (store.withMap db
      (((store.maps db).erase srcId).insert dstId entry)).track entry.expiresAtMs db dstId)

/-- Empties a database. -/
def flushDb (store : MemStore) (db : DbIndex) : MemStore := store.withMap db ∅

/-- The loop of `sweep_expired`: entries that are due are removed if they still have expired. -/
def sweepDue (now : Int) : List Deadline → MemStore → Nat × MemStore
  | [], store => (0, store)
  | due :: rest, store =>
    let db := (ofLex (ofLex due).2).1
    let id := (ofLex (ofLex due).2).2
    if ((store.maps db).get? id).any fun entry => !memIsLive now entry then
      let (removed, store) := sweepDue now rest (store.withMap db ((store.maps db).erase id))
      (1 + removed, store)
    else sweepDue now rest store

/-- Removes the entries that are due. -/
def sweepExpired (store : MemStore) (now : Int) : Nat × MemStore :=
  let due := dueDeadlines store.expiry now
  sweepDue now due { store with expiry := store.expiry.drop due.length }

/-- Applies one write of an atomic update. -/
def publish (db : DbIndex) (store : MemStore) (write : Bytes × Option TypedEntry) : MemStore :=
  let id := encodeKey base64 write.1
  match write.2 with
  | some entry => (store.track entry.expiresAtMs db id).withMap db ((store.maps db).insert id entry)
  | none => store.withMap db ((store.maps db).erase id)

/-- Runs an update and applies its writes if it succeeds. -/
def atomic {ρ : Type} (store : MemStore) (db : DbIndex) (execute : AtomicProgram ρ) (now : Int) :
    Except CacheError ρ × MemStore :=
  match execute.run (fun key => (store.maps db).get? (encodeKey base64 key)) now ⟨∅, 0⟩ with
  | (.error error, _) => (.error error, store)
  | (.ok result, cache) => (.ok result, cache.writes.entries.foldl (publish base64 db) store)

/-- A command at two readings of the clock, of which only `ttl` takes the second. -/
def step {ρ : Type} (store : MemStore) (command : Command ρ) (now later : Int) :
    Except CacheError (Reply ρ) × MemStore :=
  match command with
  | .get db key => (.ok (.entry (store.get base64 db key now)), store)
  | .ttl db key => (.ok (.ttl (ttlState (store.get base64 db key now) later)), store)
  | .keys db => (.ok (.keys (store.keys base64 db now)), store)
  | .set db key value expiresAtMs =>
    (store.writeEntry base64 db key value expiresAtMs .always now).map (·.map .entry) id
  | .setConditional db key value expiresAtMs condition =>
    (store.writeEntry base64 db key value expiresAtMs condition now).map conditionalReply id
  | .delete db keys => (store.delete base64 db keys now).map (fun n => .ok (.removed n)) id
  | .getDel db key => (store.getDel base64 db key now).map (fun e => .ok (.entry e)) id
  | .setExpiry db key deadlineMs =>
    (store.setExpiry base64 db key deadlineMs now).map (fun b => .ok (.changed b)) id
  | .incrBy db key delta =>
    (store.numericUpdate base64 db key (incrUpdate delta) now).map (·.map .number) id
  | .append db key suffix =>
    (store.append base64 db key suffix now).map (fun n => .ok (.length n)) id
  | .msetNx db pairs => (store.msetNx base64 db pairs now).map (fun b => .ok (.changed b)) id
  | .rename db src dst => (store.rename base64 db src dst now).map (·.map fun _ => .done) id
  | .flushDb db => (.ok .done, store.flushDb db)
  | .flushAll => (.ok .done, empty)
  | .sweepExpired => (store.sweepExpired now).map (fun n => .ok (.swept n)) id
  | .atomic db execute => (store.atomic base64 db execute now).map (·.map .atomic) id

end MemStore

/-! ## The engine -/

/-- A record of the engine, as far as the cache uses it. -/
structure Record where
  payload : Option Bytes
  metadata : Json
  timestamp : Option Int

/-- A record without metadata. -/
def Record.withPayload (payload : Bytes) (timestamp : Option Int) : Record :=
  ⟨some payload, .object [], timestamp⟩

/-- Records expire at their timestamp. -/
def isExpired (now : Int) (record : Record) : Bool :=
  record.timestamp.any fun deadline => decide (deadline ≤ now)

def Record.value (record : Record) : Bytes := record.payload.getD []

def Record.entry (record : Record) : Entry := ⟨record.value, record.timestamp⟩

/-- A record read as an entry with its type. -/
def Record.typed (record : Record) : TypedEntry :=
  ⟨record.value, (record.metadata.get? "redis_type").bind Json.asStr?, record.timestamp⟩

/-- The record written for an entry. -/
def TypedEntry.record (entry : TypedEntry) : Record :=
  { Record.withPayload entry.value entry.expiresAtMs with
    metadata := match entry.kind with
      | some kind => .object [("redis_type", .string kind)]
      | none => .object [] }

/-- A collection, if it has been created. -/
abbrev Collection := Option (OrderedMap String Record)

/-- The collection of a database. -/
def collectionName (db : DbIndex) : String := s!"cache_db{db.val}"

def maxRecordIdBytes : Nat := 1024 * 1024

/-- `validate_record` for a record without a vector. -/
def validateRecord (collection id : String) : Except CacheError Unit := do
  require (id ≠ "") .emptyRecordId
  require ((utf8 id).length ≤ maxRecordIdBytes) <| .invalidRecordId
    (s!"record id for collection `{collection}` is {(utf8 id).length} UTF-8 bytes; ids must be " ++
      s!"at most {maxRecordIdBytes} bytes")

/-- The numbers that a transaction writes into its frames: its id, its second, its snapshot. -/
structure TxStamp where
  txId : Nat
  timestamp : Int
  snapshot : Nat

/-- A record as JSON. -/
def Record.json (id : String) (record : Record) : Json :=
  .object [("id", .string id), ("vector", .null), ("metadata", record.metadata),
    ("timestamp", record.timestamp.elim .null fun timestamp => .number (toString timestamp)),
    ("payload", record.payload.elim .null fun payload =>
      .array (payload.map fun byte => .number (toString byte.toNat)))]

/-- The frame of a write, `TxFrameRef::Write`. -/
def writeFrame (stamp : TxStamp) (db : DbIndex) (id : String) (record : Record) : Json :=
  .object [("type", .string "tx_write"), ("tx_id", .number (toString stamp.txId)),
    ("write", .object [("collection", .string (collectionName db)), ("op", .string "upsert"),
      ("record_id", .string id), ("record", record.json id),
      ("timestamp", .number (toString stamp.timestamp)),
      ("statement_snapshot", .number (toString stamp.snapshot))])]

/-- The length check of `encode_frames_to_bytes`. -/
def checkFrame (stamp : TxStamp) (db : DbIndex) (id : String) (record : Record) :
    Except CacheError Unit :=
  let len := (writeFrame stamp db id record).textLen
  require (len ≤ maxPayloadLen) <| .corruption s!"frame payload is too large: {len} bytes"

/-- A collection that does not exist reads as empty. -/
def absentOk {α : Type} (default : α) (result : Except CacheError α) : Except CacheError α :=
  match result with
  | .error (.collectionNotFound _) => .ok default
  | other => other

/-- The engine: its collections. -/
structure Engine where
  collections : DbIndex → Collection

namespace Engine

variable (engine : Engine)

def createCollection (db : DbIndex) : Engine :=
  ⟨update engine.collections db (some ((engine.collections db).getD ∅))⟩

def dropCollection (db : DbIndex) : Engine :=
  ⟨update engine.collections db none⟩

/-- A read, which fails where there is no collection. -/
def get (engine : Engine) (db : DbIndex) (id : String) : Except CacheError (Option Record) :=
  match engine.collections db with
  | none => .error (.collectionNotFound (collectionName db))
  | some records => .ok (records.get? id)

/-- The records in the order of their ids. -/
def scanCollection (db : DbIndex) : Except CacheError (List (String × Record)) :=
  match engine.collections db with
  | none => .error (.collectionNotFound (collectionName db))
  | some records => .ok records.entries

/-- A transaction of one insert. -/
def insert (stamp : TxStamp) (db : DbIndex) (id : String) (record : Record) :
    Except CacheError Engine :=
  match engine.collections db with
  | none => .error (.collectionNotFound (collectionName db))
  | some records => do
    validateRecord (collectionName db) id
    checkFrame stamp db id record
    return ⟨update engine.collections db (some (records.insert id record))⟩

/-- Removes a record and says whether it was there. -/
def delete (engine : Engine) (db : DbIndex) (id : String) : Except CacheError (Bool × Engine) :=
  match engine.collections db with
  | none => .error (.collectionNotFound (collectionName db))
  | some records =>
    if records.contains id then
      .ok (true, ⟨update engine.collections db (some (records.erase id))⟩)
    else .ok (false, engine)

/-- One write of a transaction. -/
def applyWrite (records : OrderedMap String Record) (write : String × Option Record) :
    OrderedMap String Record :=
  match write.2 with
  | some record => records.insert write.1 record
  | none => records.erase write.1

/-- A transaction of inserts and deletes: all of them, or none. Ids are checked as the writes are
buffered, frames at the commit. -/
def commitAll (stamp : TxStamp) (db : DbIndex) (writes : List (String × Option Record)) :
    Except CacheError Engine :=
  match engine.collections db with
  | none => .error (.collectionNotFound (collectionName db))
  | some records => do
    forAll (fun write => write.2.elim (.ok ()) fun _ => validateRecord (collectionName db) write.1)
      writes
    forAll (fun write => write.2.elim (.ok ()) fun record => checkFrame stamp db write.1 record)
      writes
    return ⟨update engine.collections db (some (writes.foldl applyWrite records))⟩

end Engine

/-! ## The durable mode -/

/-- The durable mode: the engine and the deadlines. -/
structure DurableStore where
  engine : Engine
  expiry : ExpiryQueue

namespace DurableStore

variable (base64 : Base64)

def empty : DurableStore := ⟨⟨fun _ => none⟩, []⟩

variable (store : DurableStore)

/-- The record of an id; none where there is no collection. -/
def record (db : DbIndex) (id : String) : Except CacheError (Option Record) :=
  absentOk none (store.engine.get db id)

/-- Goes on with a result, or returns its error. -/
def onOk {α β : Type} (result : Except CacheError α)
    (next : α → Except CacheError β × DurableStore) : Except CacheError β × DurableStore :=
  match result with
  | .ok value => next value
  | .error error => (.error error, store)

def get (db : DbIndex) (key : Bytes) (now : Int) : Except CacheError (Option Entry) :=
  (store.record db (encodeKey base64 key)).map fun record =>
    record.bind fun record => if isExpired now record then none else some record.entry

def keys (db : DbIndex) (now : Int) : Except CacheError (List Bytes) :=
  (absentOk [] (store.engine.scanCollection db)).map fun records =>
    (records.filter fun e => !isExpired now e.2).map fun e => decodeKey base64 e.1

/-- Writes a value where the condition holds of what is there. -/
def writeEntry (stamp : TxStamp) (db : DbIndex) (key value : Bytes) (expiresAtMs : Option Int)
    (condition : SetCondition) (now : Int) : Except CacheError (Option Entry) × DurableStore :=
  let id := encodeKey base64 key
  let store := { store with engine := store.engine.createCollection db }
  store.onOk (store.engine.get db id) fun existing =>
    let live := existing.filter fun record => !isExpired now record
    let previous := live.map Record.entry
    if condition.holds previous then
      let deadline :=
        if expiresAtMs = some keepTtlSentinel then live.bind (·.timestamp) else expiresAtMs
      store.onOk (store.engine.insert stamp db id (.withPayload value deadline)) fun engine =>
        (.ok previous, ⟨engine, trackExpiry store.expiry deadline db id⟩)
    else (.error (.conditionFailed previous), store)

/-- The loop of `delete`. -/
def deleteKeys (db : DbIndex) (now : Int) : List Bytes → DurableStore →
    Except CacheError Nat × DurableStore
  | [], store => (.ok 0, store)
  | key :: rest, store =>
    let id := encodeKey base64 key
    store.onOk (store.record db id) fun record =>
      let live := record.any fun record => !isExpired now record
      store.onOk (absentOk (false, store.engine) (store.engine.delete db id)) fun deleted =>
        let (removed, store) := deleteKeys db now rest { store with engine := deleted.2 }
        (removed.map ((if deleted.1 && live then 1 else 0) + ·), store)

/-- Reads and removes. -/
def getDel (db : DbIndex) (key : Bytes) (now : Int) :
    Except CacheError (Option Entry) × DurableStore :=
  let id := encodeKey base64 key
  store.onOk (store.record db id) fun record =>
    let previous := (record.filter fun record => !isExpired now record).map Record.entry
    if record.isSome then
      store.onOk (absentOk (false, store.engine) (store.engine.delete db id)) fun deleted =>
        (.ok previous, { store with engine := deleted.2 })
    else (.ok previous, store)

/-- Sets or clears a deadline. -/
def setExpiry (stamp : TxStamp) (db : DbIndex) (key : Bytes) (deadlineMs : Option Int) (now : Int) :
    Except CacheError Bool × DurableStore :=
  let id := encodeKey base64 key
  store.onOk (store.record db id) fun record =>
    match record.filter fun record => !isExpired now record with
    | none => (.ok false, store)
    | some record =>
      store.onOk (store.engine.insert stamp db id { record with timestamp := deadlineMs })
          fun engine => (.ok true, ⟨engine, trackExpiry store.expiry deadlineMs db id⟩)

/-- Replaces a value by what an update makes of it, and keeps the deadline. -/
def numericUpdate (stamp : TxStamp) (db : DbIndex) (key : Bytes)
    (update : Option Bytes → Except CacheError (Bytes × String)) (now : Int) :
    Except CacheError Int × DurableStore :=
  let id := encodeKey base64 key
  let store := { store with engine := store.engine.createCollection db }
  store.onOk (store.engine.get db id) fun existing =>
    let live := existing.filter fun record => !isExpired now record
    store.onOk (update (live.bind (·.payload))) fun updated =>
      let deadline := live.bind (·.timestamp)
      store.onOk (store.engine.insert stamp db id (.withPayload updated.1 deadline)) fun engine =>
        (.ok ((parseI64 (utf8 updated.2)).getD 0),
          ⟨engine, trackExpiry store.expiry deadline db id⟩)

/-- The first loop of `mset_nx`: whether one of the keys is live. -/
def anyLive (engine : Engine) (db : DbIndex) (now : Int) :
    List (Bytes × Bytes) → Except CacheError Bool
  | [] => .ok false
  | pair :: rest => do
    let record ← engine.get db (encodeKey base64 pair.1)
    if record.any fun record => !isExpired now record then return true
    anyLive engine db now rest

/-- The second loop of `mset_nx`, a transaction for each pair. -/
def writePairs (db : DbIndex) : (Nat → TxStamp) → List (Bytes × Bytes) → DurableStore →
    Except CacheError Bool × DurableStore
  | _, [], store => (.ok true, store)
  | stamps, pair :: rest, store =>
    store.onOk (store.engine.insert (stamps 0) db (encodeKey base64 pair.1)
        (.withPayload pair.2 none))
      fun engine => writePairs db (stamps ∘ Nat.succ) rest { store with engine := engine }

/-- Writes all pairs, if no key is there. -/
def msetNx (stamps : Nat → TxStamp) (db : DbIndex) (pairs : List (Bytes × Bytes)) (now : Int) :
    Except CacheError Bool × DurableStore :=
  let store := { store with engine := store.engine.createCollection db }
  store.onOk (anyLive base64 store.engine db now pairs) fun live =>
    if live then (.ok false, store) else writePairs base64 db stamps pairs store

/-- Appends to a value; the record written has no type. -/
def append (stamp : TxStamp) (db : DbIndex) (key suffix : Bytes) (now : Int) :
    Except CacheError Nat × DurableStore :=
  let id := encodeKey base64 key
  let store := { store with engine := store.engine.createCollection db }
  store.onOk (store.engine.get db id) fun existing =>
    let live := existing.filter fun record => !isExpired now record
    let value := (live.bind (·.payload)).getD [] ++ suffix
    let deadline := live.bind (·.timestamp)
    store.onOk (store.engine.insert stamp db id (.withPayload value deadline)) fun engine =>
      (.ok value.length, ⟨engine, trackExpiry store.expiry deadline db id⟩)

/-- `rename`. The record is inserted under the new id before it is deleted under the old one. -/
def rename (stamp : TxStamp) (db : DbIndex) (src dst : Bytes) (now : Int) :
    Except CacheError Unit × DurableStore :=
  let srcId := encodeKey base64 src
  let dstId := encodeKey base64 dst
  store.onOk (store.record db srcId) fun record =>
    match record.filter fun record => !isExpired now record with
    | none => (.error (.command "no such key"), store)
    | some record =>
      store.onOk (store.engine.insert stamp db dstId record) fun engine =>
        DurableStore.onOk { store with engine := engine } (engine.delete db srcId) fun deleted =>
          (.ok (), ⟨deleted.2, trackExpiry store.expiry record.timestamp db dstId⟩)

/-- Drops the collection of a database. -/
def flushDb (db : DbIndex) : DurableStore :=
  { store with engine := store.engine.dropCollection db }

/-- `flush_all` drops the collections of all databases. -/
def flushAll : DurableStore :=
  ⟨(List.finRange 16).foldl Engine.dropCollection store.engine, []⟩

/-- The loop of `sweep_expired`. -/
def sweepDue (now : Int) : List Deadline → DurableStore → Except CacheError Nat × DurableStore
  | [], store => (.ok 0, store)
  | due :: rest, store =>
    let db := (ofLex (ofLex due).2).1
    let id := (ofLex (ofLex due).2).2
    store.onOk (store.record db id) fun record =>
      if record.any (isExpired now) then
        store.onOk (absentOk (false, store.engine) (store.engine.delete db id)) fun deleted =>
          let (removed, store) := sweepDue now rest { store with engine := deleted.2 }
          (removed.map ((if deleted.1 then 1 else 0) + ·), store)
      else sweepDue now rest store

/-- Removes the records that are due. -/
def sweepExpired (now : Int) : Except CacheError Nat × DurableStore :=
  let due := dueDeadlines store.expiry now
  sweepDue now due { store with expiry := store.expiry.drop due.length }

/-- Queues the deadline of a write. -/
def trackWrite (db : DbIndex) (queue : ExpiryQueue) (write : Bytes × Option TypedEntry) :
    ExpiryQueue :=
  match write.2 with
  | some entry => trackExpiry queue entry.expiresAtMs db (encodeKey base64 write.1)
  | none => queue

/-- What an atomic update reads under a key; reading itself does not fail. -/
def source (db : DbIndex) (key : Bytes) : Option TypedEntry :=
  (store.record db (encodeKey base64 key)).toOption.join.map Record.typed

/-- Runs an update and commits its writes in one transaction. -/
def atomic {ρ : Type} (stamp : TxStamp) (db : DbIndex) (execute : AtomicProgram ρ) (now : Int) :
    Except CacheError ρ × DurableStore :=
  match execute.run (store.source base64 db) now ⟨∅, 0⟩ with
  | (.error error, _) => (.error error, store)
  | (.ok result, cache) =>
    if cache.writes.entries = [] then (.ok result, store)
    else
      let store := { store with engine := store.engine.createCollection db }
      store.onOk (store.engine.commitAll stamp db (cache.writes.entries.map fun write =>
          (encodeKey base64 write.1, write.2.map TypedEntry.record))) fun engine =>
        (.ok result, ⟨engine, cache.writes.entries.foldl (trackWrite base64 db) store.expiry⟩)

/-- A command at two readings of the clock; `stamps` are the numbers of its transactions. -/
def step {ρ : Type} (stamps : Nat → TxStamp) (command : Command ρ) (now later : Int) :
    Except CacheError (Reply ρ) × DurableStore :=
  match command with
  | .get db key => ((store.get base64 db key now).map .entry, store)
  | .ttl db key => ((store.get base64 db key now).map fun e => .ttl (ttlState e later), store)
  | .keys db => ((store.keys base64 db now).map .keys, store)
  | .set db key value expiresAtMs =>
    (store.writeEntry base64 (stamps 0) db key value expiresAtMs .always now).map (·.map .entry) id
  | .setConditional db key value expiresAtMs condition =>
    (store.writeEntry base64 (stamps 0) db key value expiresAtMs condition now).map
      conditionalReply id
  | .delete db keys => (deleteKeys base64 db now keys store).map (·.map .removed) id
  | .getDel db key => (store.getDel base64 db key now).map (·.map .entry) id
  | .setExpiry db key deadlineMs =>
    (store.setExpiry base64 (stamps 0) db key deadlineMs now).map (·.map .changed) id
  | .incrBy db key delta =>
    (store.numericUpdate base64 (stamps 0) db key (incrUpdate delta) now).map (·.map .number) id
  | .append db key suffix =>
    (store.append base64 (stamps 0) db key suffix now).map (·.map .length) id
  | .msetNx db pairs => (store.msetNx base64 stamps db pairs now).map (·.map .changed) id
  | .rename db src dst =>
    (store.rename base64 (stamps 0) db src dst now).map (·.map fun _ => .done) id
  | .flushDb db => (.ok .done, store.flushDb db)
  | .flushAll => (.ok .done, store.flushAll)
  | .sweepExpired => (store.sweepExpired now).map (·.map .swept) id
  | .atomic db execute => (store.atomic base64 (stamps 0) db execute now).map (·.map .atomic) id

end DurableStore

end BicDb.Cache
