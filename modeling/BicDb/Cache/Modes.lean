import BicDb.Cache.Plain
import Mathlib.Data.Fintype.BigOperators

/-!
# The two modes in step

The collections of the engine mirror the maps of the ephemeral mode: the same ids, and the records
that the entries are stored as. The queues of deadlines differ, but both cover every stored
deadline. `InStep` is the relation, and for each command one lemma says that it gives the same
answer in both modes and keeps it (`writeEntry_same`, `append_same`, `rename_same` and the others),
where the id is valid and the frame that the engine writes is within its limit (`Fits`).
-/

namespace BicDb.Cache

open BicDb.Foundation Engine DurableStore OrderedMap Function Option
open BicDb.Events (maxPayloadLen)

/-! ## Records that mirror entries -/

/-- The records of a database, none where there is no collection. -/
def Engine.records (engine : Engine) (db : DbIndex) : OrderedMap String Record :=
  (engine.collections db).getD ∅

/-- What the engine accepts as a record id. -/
def ValidId (id : String) : Prop := id ≠ "" ∧ (utf8 id).length ≤ maxRecordIdBytes

/-- The frame of the write is within the limit. -/
def Fits (stamp : TxStamp) (db : DbIndex) (id : String) (record : Record) : Prop :=
  (writeFrame stamp db id record).textLen ≤ maxPayloadLen

/-- The record is the one its entry is stored as. -/
def Record.Plain (record : Record) : Prop := record.typed.record = record

/-- The records of the engine are those of the entries, under valid ids. -/
structure Mirrors (engine : Engine) (maps : DbIndex → OrderedMap String TypedEntry) : Prop where
  maps : ∀ db, (engine.records db).mapValues (fun _ record => record.typed) = maps db
  valid : ∀ db id record, (engine.records db).get? id = some record →
    record.Plain ∧ ValidId id

section Engine

variable {engine : Engine} {maps : DbIndex → OrderedMap String TypedEntry} {db : DbIndex}
  {id : String} {now : Int}

theorem validateRecord_of_valid (h : ValidId id) (collection : String) :
    validateRecord collection id = .ok () := by
  simp only [validateRecord, andThen_eq_ok, require_eq_ok]
  exact h

theorem checkFrame_of_fits {stamp : TxStamp} {record : Record} (h : Fits stamp db id record) :
    checkFrame stamp db id record = .ok () :=
  require_eq_ok.2 h

theorem encodeKey_ne (base64 : Base64) (key : Bytes) : encodeKey base64 key ≠ "" := by
  unfold encodeKey
  split <;> simp

theorem Mirrors.get? (h : Mirrors engine maps) (db : DbIndex) (id : String) :
    ((engine.records db).get? id).map Record.typed = (maps db).get? id := by
  rw [← h.maps db, get?_mapValues]

theorem memIsLive_typed (now : Int) (record : Record) :
    memIsLive now record.typed = !isExpired now record := rfl

theorem Mirrors.live (h : Mirrors engine maps) (db : DbIndex) (id : String) (now : Int) :
    (((engine.records db).get? id).filter fun record => !isExpired now record).map Record.typed =
      ((maps db).get? id).filter (memIsLive now) := by
  rw [← h.get?]
  cases (engine.records db).get? id with
  | none => rfl
  | some record =>
    cases hexpired : isExpired now record <;>
      simp [Option.filter, memIsLive_typed, hexpired]

theorem get_createCollection :
    (engine.createCollection db).get db id = .ok ((engine.records db).get? id) := by
  simp [Engine.createCollection, Engine.get, Engine.records]

theorem records_createCollection (db' : DbIndex) :
    (engine.createCollection db).records db' = engine.records db' := by
  by_cases h : db' = db
  · subst h
    simp [createCollection, records]
  · simp [createCollection, records, update_of_ne h]

theorem records_dropCollection (db' : DbIndex) :
    (engine.dropCollection db).records db' = if db' = db then ∅ else engine.records db' := by
  by_cases h : db' = db
  · subst h
    simp [dropCollection, records]
  · simp [dropCollection, records, h]

theorem Mirrors.createCollection (h : Mirrors engine maps) (db : DbIndex) :
    Mirrors (engine.createCollection db) maps := by
  constructor
  · intro db'
    rw [records_createCollection]
    exact h.maps db'
  · intro db'
    rw [records_createCollection]
    exact h.valid db'

/-- The engine with other records for a database. -/
def Engine.withRecords (engine : Engine) (db : DbIndex) (records : OrderedMap String Record) :
    Engine :=
  ⟨update engine.collections db (some records)⟩

/-- The engine with one more record. -/
def Engine.withRecord (engine : Engine) (db : DbIndex) (id : String) (record : Record) : Engine :=
  engine.withRecords db ((engine.records db).insert id record)

/-- The engine without a record. -/
def Engine.withoutRecord (engine : Engine) (db : DbIndex) (id : String) : Engine :=
  engine.withRecords db ((engine.records db).erase id)

theorem records_withRecords (records : OrderedMap String Record) (db' : DbIndex) :
    (engine.withRecords db records).records db' =
      if db' = db then records else engine.records db' := by
  by_cases h : db' = db
  · subst h
    simp [Engine.withRecords, Engine.records]
  · simp [Engine.withRecords, Engine.records, h]

theorem withRecords_withRecords (records records' : OrderedMap String Record) :
    (engine.withRecords db records).withRecords db records' = engine.withRecords db records' := by
  rw [Engine.withRecords, Engine.withRecords, update_idem]
  rfl

theorem insert_created {stamp : TxStamp} {record : Record} (h : ValidId id)
    (hfits : Fits stamp db id record) :
    (engine.createCollection db).insert stamp db id record =
      .ok (engine.withRecord db id record) := by
  simp only [Engine.createCollection, Engine.insert, update_self, Engine.withRecord,
    Engine.withRecords, update_idem, validateRecord_of_valid h, checkFrame_of_fits hfits]
  rfl

theorem isSome_createCollection (engine : Engine) (db : DbIndex) :
    ((engine.createCollection db).collections db).isSome = true := by
  simp [createCollection]

theorem isSome_of_get? {record : Record} (h : (engine.records db).get? id = some record) :
    (engine.collections db).isSome = true := by
  by_contra hnone
  rw [records, Option.not_isSome_iff_eq_none.1 hnone] at h
  cases h

section

variable (hthere : (engine.collections db).isSome = true)

include hthere

theorem insert_eq {stamp : TxStamp} {record : Record} (h : ValidId id)
    (hfits : Fits stamp db id record) :
    engine.insert stamp db id record = .ok (engine.withRecord db id record) := by
  obtain ⟨records, hrecords⟩ := isSome_iff_exists.1 hthere
  simp only [Engine.insert, Engine.withRecord, Engine.withRecords, Engine.records, hrecords,
    validateRecord_of_valid h, checkFrame_of_fits hfits]
  rfl

theorem delete_of_isSome : engine.delete db id = .ok (if (engine.records db).contains id then
    (true, engine.withoutRecord db id) else (false, engine)) := by
  obtain ⟨records, hrecords⟩ := isSome_iff_exists.1 hthere
  simp only [delete, withoutRecord, withRecords, Engine.records, hrecords, Option.getD_some]
  split_ifs <;> rfl

end

theorem delete_eq : absentOk (false, engine) (engine.delete db id) =
    .ok (if (engine.records db).contains id then (true, engine.withoutRecord db id)
      else (false, engine)) := by
  unfold delete withoutRecord withRecords records
  cases engine.collections db with
  | none => rfl
  | some records =>
    simp only [Option.getD_some]
    split_ifs <;> rfl

section

variable (h : Mirrors engine maps)

include h

theorem Mirrors.withRecords {records : OrderedMap String Record}
    {map : OrderedMap String TypedEntry}
    (hmap : ∀ id, (records.get? id).map Record.typed = map.get? id)
    (hvalid : ∀ id record, records.get? id = some record →
      record.Plain ∧ ValidId id) :
    Mirrors (engine.withRecords db records) (update maps db map) := by
  constructor
  · intro db'
    rw [records_withRecords]
    split_ifs with hdb
    · subst hdb
      rw [update_self]
      apply ext_get?
      intro id
      rw [get?_mapValues, ← hmap]
    · rw [update_of_ne hdb]
      exact h.maps db'
  · intro db' id record hget
    rw [records_withRecords] at hget
    split_ifs at hget
    · exact hvalid id record hget
    · exact h.valid db' id record hget

theorem Mirrors.withRecord (hid : ValidId id) {record : Record}
    (hplain : record.Plain) : Mirrors (engine.withRecord db id record)
      (update maps db ((maps db).insert id record.typed)) := by
  apply h.withRecords
  · intro id'
    rw [get?_insert, get?_insert, ← h.get?]
    split_ifs <;> rfl
  · intro id' other hother
    rw [get?_insert] at hother
    split_ifs at hother with hsame
    · cases hother
      exact ⟨hplain, hsame ▸ hid⟩
    · exact h.valid db id' other hother

theorem Mirrors.withoutRecord :
    Mirrors (engine.withoutRecord db id) (update maps db ((maps db).erase id)) := by
  apply h.withRecords
  · intro id'
    rw [get?_erase, get?_erase, ← h.get?]
    split_ifs <;> rfl
  · intro id' other hother
    rw [get?_erase] at hother
    split_ifs at hother
    exact h.valid db id' other hother

theorem Mirrors.delete :
    Mirrors (if (engine.records db).contains id then (true, engine.withoutRecord db id)
      else (false, engine)).2 (update maps db ((maps db).erase id)) := by
  split_ifs with hthere
  · exact h.withoutRecord
  -- nothing is stored under the id, in either mode
  have habsent : (maps db).get? id = none := by
    rw [← h.get?]
    simpa [contains] using hthere
  rwa [erase_of_get?_eq_none habsent, update_eq_self]

end

theorem typed_record (entry : TypedEntry) : entry.record.typed = entry := by
  obtain ⟨value, kind, expiresAtMs⟩ := entry
  cases kind with
  | none => rfl
  | some kind => simp [TypedEntry.record, Record.typed, Record.withPayload, Record.value, Json.get?,
      Json.field?, Json.asStr?]

theorem plain_withPayload (payload : Bytes) (timestamp : Option Int) :
    (Record.withPayload payload timestamp).Plain := rfl

theorem plain_record (entry : TypedEntry) : entry.record.Plain := by
  rw [Record.Plain, typed_record]

theorem Record.Plain.payload {record : Record} (h : record.Plain) :
    record.payload = some record.value := by
  rw [← h]
  rfl

theorem Record.Plain.withTimestamp {record : Record} (h : record.Plain) (deadlineMs : Option Int) :
    { record with timestamp := deadlineMs } =
      TypedEntry.record { record.typed with expiresAtMs := deadlineMs } := by
  conv_lhs => rw [← h]
  rfl

end Engine

/-! ## Deadlines that are queued -/

/-- Every deadline that is stored is queued, and the queue is in order. -/
structure Tracked (maps : DbIndex → OrderedMap String TypedEntry) (queue : ExpiryQueue) : Prop where
  sorted : queue.Pairwise (· ≤ ·)
  covers : ∀ db id entry deadline, (maps db).get? id = some entry →
    entry.expiresAtMs = some deadline → deadlineOf deadline db id ∈ queue

section Tracking

variable {maps : DbIndex → OrderedMap String TypedEntry} {queue : ExpiryQueue} {db : DbIndex}
  {id : String} {entry : TypedEntry}

theorem mem_trackExpiry {deadline : Option Int} {due : Deadline} :
    due ∈ trackExpiry queue deadline db id ↔
      due ∈ queue ∨ ∃ d, deadline = some d ∧ due = deadlineOf d db id := by
  cases deadline with
  | none => simp [trackExpiry]
  | some d => simp [trackExpiry, or_comm]

variable (h : Tracked maps queue)

include h

theorem Tracked.track (deadline : Option Int) (db : DbIndex) (id : String) :
    Tracked maps (trackExpiry queue deadline db id) := by
  constructor
  · cases deadline with
    | none => exact h.sorted
    | some d => exact h.sorted.orderedInsert _ _
  · intro db' id' entry d hget hd
    exact mem_trackExpiry.2 (.inl (h.covers db' id' entry d hget hd))

theorem Tracked.insert (hqueued : ∀ d, entry.expiresAtMs = some d → deadlineOf d db id ∈ queue) :
    Tracked (update maps db ((maps db).insert id entry)) queue := by
  refine ⟨h.sorted, ?_⟩
  intro db' id' other d hget hd
  by_cases hdb : db' = db
  · subst hdb
    rw [update_self, get?_insert] at hget
    split_ifs at hget with hid
    · cases hget
      exact hid ▸ hqueued d hd
    · exact h.covers db' id' other d hget hd
  · rw [update_of_ne hdb] at hget
    exact h.covers db' id' other d hget hd

theorem Tracked.insert_track (entry : TypedEntry) (db : DbIndex) (id : String) :
    Tracked (update maps db ((maps db).insert id entry))
      (trackExpiry queue entry.expiresAtMs db id) :=
  (h.track _ db id).insert fun d hd => mem_trackExpiry.2 (.inr ⟨d, hd, rfl⟩)

theorem Tracked.sub {maps' : DbIndex → OrderedMap String TypedEntry}
    (hsub : ∀ db id entry, (maps' db).get? id = some entry → (maps db).get? id = some entry) :
    Tracked maps' queue :=
  ⟨h.sorted, fun db id entry d hget hd => h.covers db id entry d (hsub db id entry hget) hd⟩

theorem Tracked.erase (db : DbIndex) (id : String) :
    Tracked (update maps db ((maps db).erase id)) queue := by
  apply h.sub
  intro db' id' entry hget
  by_cases hdb : db' = db
  · subst hdb
    rw [update_self, get?_erase] at hget
    split_ifs at hget
    exact hget
  · rwa [update_of_ne hdb] at hget

end Tracking

/-! ## The commands -/

/-- Engine and memory hold the same, and both have all deadlines queued. -/
structure InStep (durable : DurableStore) (mem : MemStore) : Prop where
  mirrors : Mirrors durable.engine mem.maps
  durableTracked : Tracked mem.maps durable.expiry
  memTracked : Tracked mem.maps mem.expiry

/-- Same reply, and the stores stay in step. -/
def Same {α : Type} (durable : Except CacheError α × DurableStore)
    (mem : Except CacheError α × MemStore) : Prop :=
  durable.1 = mem.1 ∧ InStep durable.2 mem.2

section Commands

variable {base64 : Base64} {durable : DurableStore} {mem : MemStore} {db : DbIndex} {now : Int}

/-- The key encodes to an id that the engine accepts. -/
def ValidKey (base64 : Base64) (key : Bytes) : Prop :=
  (utf8 (encodeKey base64 key)).length ≤ maxRecordIdBytes

variable {key : Bytes}

theorem ValidKey.id (h : ValidKey base64 key) : ValidId (encodeKey base64 key) :=
  ⟨encodeKey_ne base64 key, h⟩

theorem record_eq (durable : DurableStore) (db : DbIndex) (id : String) :
    durable.record db id = .ok ((durable.engine.records db).get? id) := by
  unfold record Engine.get Engine.records
  cases durable.engine.collections db <;> rfl

section

variable (h : InStep durable mem)

include h

theorem InStep.live (db : DbIndex) (id : String) (now : Int) :
    (((durable.engine.records db).get? id).filter fun record => !isExpired now record).map
      Record.typed = mem.live db id now :=
  h.mirrors.live db id now

theorem InStep.live_fields (db : DbIndex) (id : String) (now : Int) :
    let live := ((durable.engine.records db).get? id).filter fun record => !isExpired now record
    live.map Record.entry = (mem.live db id now).map TypedEntry.entry ∧
      live.bind (·.timestamp) = (mem.live db id now).bind (·.expiresAtMs) ∧
      live.bind (·.payload) = (mem.live db id now).map (·.value) := by
  intro live
  have hlive : live.map Record.typed = mem.live db id now := h.live db id now
  rw [← hlive]
  cases hvalue : live with
  | none => exact ⟨rfl, rfl, rfl⟩
  | some record =>
    obtain ⟨hget, -⟩ := filter_eq_some_iff.1 hvalue
    refine ⟨rfl, rfl, ?_⟩
    simp only [Option.bind_some, Option.map_some, (h.mirrors.valid db id record hget).1.payload]
    rfl

theorem InStep.covers_live {id : String} {d : Int}
    (hd : (mem.live db id now).bind (·.expiresAtMs) = some d) :
    deadlineOf d db id ∈ mem.expiry := by
  obtain ⟨entry, hlive, hd⟩ := Option.bind_eq_some_iff.1 hd
  exact h.memTracked.covers db id entry d (filter_eq_some_iff.1 hlive).1 hd

theorem InStep.insert {id : String} (hid : ValidId id) {record : Record}
    (hplain : record.Plain) {queue queue' : ExpiryQueue}
    (hqueue : Tracked (update mem.maps db ((mem.maps db).insert id record.typed)) queue)
    (hqueue' : Tracked (update mem.maps db ((mem.maps db).insert id record.typed)) queue') :
    InStep ⟨durable.engine.withRecord db id record, queue⟩
      ⟨update mem.maps db ((mem.maps db).insert id record.typed), queue'⟩ :=
  ⟨h.mirrors.withRecord hid hplain, hqueue, hqueue'⟩

theorem InStep.created (db : DbIndex) :
    InStep ⟨durable.engine.createCollection db, durable.expiry⟩ mem :=
  ⟨h.mirrors.createCollection db, h.durableTracked, h.memTracked⟩

theorem InStep.delete (db : DbIndex) (id : String) :
    InStep ⟨(if (durable.engine.records db).contains id then
        (true, durable.engine.withoutRecord db id) else (false, durable.engine)).2, durable.expiry⟩
      (mem.withMap db ((mem.maps db).erase id)) :=
  ⟨h.mirrors.delete, h.durableTracked.erase db id, h.memTracked.erase db id⟩

theorem InStep.erase (db : DbIndex) (id : String) :
    InStep ⟨durable.engine.withoutRecord db id, durable.expiry⟩
      (mem.withMap db ((mem.maps db).erase id)) :=
  ⟨h.mirrors.withoutRecord, h.durableTracked.erase db id, h.memTracked.erase db id⟩

end

variable {map : OrderedMap String TypedEntry}

theorem InStep.withMap_withMap {map' : OrderedMap String TypedEntry}
    (h : InStep durable ((mem.withMap db map).withMap db map')) :
    InStep durable (mem.withMap db map') := by
  simpa only [MemStore.withMap, update_idem] using h

variable {stamp : TxStamp}

/-- The deadline that a write leaves: the one given, or the one that is kept. -/
def MemStore.writtenDeadline (mem : MemStore) (db : DbIndex) (id : String)
    (expiresAtMs : Option Int) (now : Int) : Option Int :=
  if expiresAtMs = some keepTtlSentinel then (mem.live db id now).bind (·.expiresAtMs)
  else expiresAtMs

theorem writeEntry_same (h : InStep durable mem) (hkey : ValidKey base64 key) {value : Bytes}
    {expiresAtMs : Option Int} {condition : SetCondition}
    (hfits :
      condition.holds ((mem.live db (encodeKey base64 key) now).map TypedEntry.entry) = true →
      Fits stamp db (encodeKey base64 key) (.withPayload value
        (mem.writtenDeadline db (encodeKey base64 key) expiresAtMs now))) :
    Same (durable.writeEntry base64 stamp db key value expiresAtMs condition now)
      (mem.writeEntry base64 db key value expiresAtMs condition now) := by
  obtain ⟨hentry, hdeadline, -⟩ := h.live_fields db (encodeKey base64 key) now
  have hwritten : (if expiresAtMs = some keepTtlSentinel then
      (mem.live db (encodeKey base64 key) now).bind (·.expiresAtMs) else expiresAtMs) =
        mem.writtenDeadline db (encodeKey base64 key) expiresAtMs now := rfl
  simp only [writeEntry, MemStore.writeEntry, onOk, get_createCollection, hentry, hdeadline,
    hwritten]
  by_cases hholds : condition.holds
      ((mem.live db (encodeKey base64 key) now).map TypedEntry.entry) = true
  · simp only [hholds, if_true, insert_created hkey.id (hfits hholds)]
    exact ⟨rfl, h.insert hkey.id (plain_withPayload _ _) (h.durableTracked.insert_track _ _ _)
      (h.memTracked.insert_track _ _ _)⟩
  · simp only [hholds, Bool.false_eq_true, if_false]
    exact ⟨rfl, h.created db⟩

theorem deleteKeys_same (keys : List Bytes) (h : InStep durable (mem.withMap db map)) :
    (DurableStore.deleteKeys base64 db now keys durable).1 =
        .ok (MemStore.deleteKeys base64 now keys map).1 ∧
      InStep (DurableStore.deleteKeys base64 db now keys durable).2
        (mem.withMap db (MemStore.deleteKeys base64 now keys map).2) := by
  induction keys generalizing durable map with
  | nil => exact ⟨rfl, h⟩
  | cons key rest ih =>
    have hget := h.mirrors.get? db (encodeKey base64 key)
    have herase := h.delete db (encodeKey base64 key)
    rw [MemStore.withMap_self] at hget herase
    simp only [deleteKeys, MemStore.deleteKeys, onOk, record_eq, delete_eq]
    cases hrecord : (durable.engine.records db).get? (encodeKey base64 key) with
    | none =>
      simp only [contains, hrecord, ← hget, Option.isSome_none, Option.map_none,
        Bool.false_eq_true, if_false, Bool.false_and, Nat.zero_add]
      obtain ⟨hcount, hstep⟩ := ih h
      exact ⟨by rw [hcount]; rfl, hstep⟩
    | some record =>
      simp only [contains, hrecord, ← hget, isSome_some, Option.map_some,
        if_true, Bool.true_and, Option.any_some, memIsLive_typed] at herase ⊢
      obtain ⟨hcount, hstep⟩ := ih (herase.withMap_withMap)
      exact ⟨by rw [hcount]; rfl, hstep⟩

section

variable (h : InStep durable mem)

include h

theorem delete_same (keys : List Bytes) : Same (DurableStore.deleteKeys base64 db now keys durable)
      ((mem.delete base64 db keys now).map .ok id) := by
  refine deleteKeys_same keys ?_
  rwa [MemStore.withMap, update_eq_self]

theorem getDel_same (key : Bytes) :
    Same (durable.getDel base64 db key now) ((mem.getDel base64 db key now).map .ok id) := by
  have hget := h.mirrors.get? db (encodeKey base64 key)
  have herase := h.delete db (encodeKey base64 key)
  simp only [getDel, MemStore.getDel, onOk, record_eq, delete_eq, Same, Prod.map_fst, Prod.map_snd]
  cases hrecord : (durable.engine.records db).get? (encodeKey base64 key) with
  | none =>
    rw [hrecord] at hget
    simp only [contains, hrecord, Option.isSome_none, Bool.false_eq_true, if_false] at herase ⊢
    refine ⟨?_, herase⟩
    rw [← hget]
    rfl
  | some record =>
    rw [hrecord] at hget
    refine ⟨?_, herase⟩
    rw [← hget]
    cases hexpired : isExpired now record with
    | true => simp [Option.filter, memIsLive_typed, hexpired]
    | false =>
      simp only [Option.filter, memIsLive_typed, hexpired, Option.map_some, Option.bind_some,
        Bool.not_false, if_true]
      rfl

theorem setExpiry_same (key : Bytes) (deadlineMs : Option Int)
    (hfits : ∀ entry, mem.live db (encodeKey base64 key) now = some entry →
      Fits stamp db (encodeKey base64 key)
        (TypedEntry.record { entry with expiresAtMs := deadlineMs })) :
    Same (durable.setExpiry base64 stamp db key deadlineMs now)
      ((mem.setExpiry base64 db key deadlineMs now).map .ok id) := by
  have hlive := h.live db (encodeKey base64 key) now
  simp only [setExpiry, MemStore.setExpiry, onOk, record_eq, ← hlive] at hfits ⊢
  cases hrecord : ((durable.engine.records db).get? (encodeKey base64 key)).filter
      fun record => !isExpired now record with
  | none => exact ⟨rfl, h⟩
  | some record =>
    obtain ⟨hget, -⟩ := filter_eq_some_iff.1 hrecord
    obtain ⟨hplain, hid⟩ := h.mirrors.valid db _ record hget
    have hstored := hplain.withTimestamp deadlineMs
    have hfit := hfits record.typed (by rw [hrecord]; rfl)
    rw [← hstored] at hfit
    simp only [insert_eq (isSome_of_get? hget) hid hfit]
    exact ⟨rfl, @InStep.insert _ _ db h _ hid { record with timestamp := deadlineMs }
      (hstored ▸ plain_record _) _ _ (h.durableTracked.insert_track _ _ _)
      (h.memTracked.insert_track _ _ _)⟩

theorem numericUpdate_same (hkey : ValidKey base64 key)
    {update : Option Bytes → Except CacheError (Bytes × String)}
    (hfits : ∀ updated, update ((mem.live db (encodeKey base64 key) now).map (·.value)) =
      .ok updated → Fits stamp db (encodeKey base64 key) (.withPayload updated.1
        ((mem.live db (encodeKey base64 key) now).bind (·.expiresAtMs)))) :
    Same (durable.numericUpdate base64 stamp db key update now)
      (mem.numericUpdate base64 db key update now) := by
  obtain ⟨-, hdeadline, hvalue⟩ := h.live_fields db (encodeKey base64 key) now
  simp only [numericUpdate, MemStore.numericUpdate, onOk, get_createCollection, hdeadline, hvalue]
  cases hupdate : update ((mem.live db (encodeKey base64 key) now).map (·.value)) with
  | error error => exact ⟨rfl, h.created db⟩
  | ok updated =>
    simp only [insert_created hkey.id (hfits updated hupdate)]
    exact ⟨rfl, h.insert hkey.id (plain_withPayload _ _) (h.durableTracked.insert_track _ _ _)
      (h.memTracked.insert fun _ => h.covers_live)⟩

theorem anyLive_eq (pairs : List (Bytes × Bytes)) :
    DurableStore.anyLive base64 (durable.engine.createCollection db) db now pairs =
      .ok (pairs.any fun pair => (mem.live db (encodeKey base64 pair.1) now).isSome) := by
  induction pairs with
  | nil => rfl
  | cons pair rest ih =>
    have hlive := h.live db (encodeKey base64 pair.1) now
    rw [anyLive, get_createCollection, ih, List.any_cons, ← hlive]
    cases (durable.engine.records db).get? (encodeKey base64 pair.1) with
    | none => rfl
    | some record => cases hexpired : isExpired now record <;> simp [Option.filter, hexpired, bind,
        Except.bind, pure, Except.pure]

end

/-- The frames of a list of pairs, a transaction for each. -/
def PairsFit (base64 : Base64) (stamps : Nat → TxStamp) (db : DbIndex)
    (pairs : List (Bytes × Bytes)) : Prop :=
  ∀ i pair, pairs[i]? = some pair →
    Fits (stamps i) db (encodeKey base64 pair.1) (.withPayload pair.2 none)

theorem writePairs_same {stamps : Nat → TxStamp} {pairs : List (Bytes × Bytes)}
    (hkeys : ∀ pair ∈ pairs, ValidKey base64 pair.1) (hfits : PairsFit base64 stamps db pairs)
    (h : InStep durable (mem.withMap db map))
    (hthere : (durable.engine.collections db).isSome = true) :
    Same (DurableStore.writePairs base64 db stamps pairs durable)
      (.ok true, mem.withMap db (pairs.foldl
      (fun map pair => map.insert (encodeKey base64 pair.1) ⟨pair.2, none, none⟩) map)) := by
  induction pairs generalizing stamps durable map with
  | nil => exact ⟨rfl, h⟩
  | cons pair rest ih =>
    have hkey := hkeys pair List.mem_cons_self
    simp only [writePairs, onOk, insert_eq hthere hkey.id (hfits 0 pair rfl), List.foldl_cons]
    apply ih (fun other hother => hkeys other (List.mem_cons_of_mem _ hother))
      fun i other hother => hfits (i + 1) other hother
    · have hnext :=
        @InStep.insert _ _ db h _ hkey.id (.withPayload pair.2 none) (plain_withPayload _ _) _ _
        (h.durableTracked.insert nofun) (h.memTracked.insert nofun)
      rw [MemStore.withMap_self] at hnext
      exact hnext.withMap_withMap
    · simp [withRecord, withRecords]

theorem msetNx_same (h : InStep durable mem) {stamps : Nat → TxStamp}
    {pairs : List (Bytes × Bytes)} (hkeys : ∀ pair ∈ pairs, ValidKey base64 pair.1)
    (hfits : PairsFit base64 stamps db pairs) :
    Same (durable.msetNx base64 stamps db pairs now)
      ((mem.msetNx base64 db pairs now).map .ok id) := by
  simp only [msetNx, MemStore.msetNx, onOk, anyLive_eq h]
  by_cases hlive : (pairs.any fun pair =>
      (mem.live db (encodeKey base64 pair.1) now).isSome) = true
  · simp only [hlive, if_true]
    exact ⟨rfl, h.created db⟩
  · simp only [hlive, Bool.false_eq_true, if_false]
    refine writePairs_same hkeys hfits ?_ (isSome_createCollection _ db)
    rw [MemStore.withMap, update_eq_self]
    exact h.created db

/-- Where no type is found, `append` leaves the live value with the suffix, without a type. -/
theorem memAppend_eq {suffix : Bytes}
    (huntyped : ∀ entry, (mem.maps db).get? (encodeKey base64 key) = some entry →
      entry.kind = none) :
    let live := mem.live db (encodeKey base64 key) now
    let value := (live.map (·.value)).getD [] ++ suffix
    mem.append base64 db key suffix now = (value.length, mem.withMap db
      ((mem.maps db).insert (encodeKey base64 key) ⟨value, none, live.bind (·.expiresAtMs)⟩)) := by
  simp only [MemStore.append, MemStore.live]
  cases hget : (mem.maps db).get? (encodeKey base64 key) with
  | none => rfl
  | some entry =>
    have hkind := huntyped entry hget
    cases hlive : memIsLive now entry <;> simp [Option.filter, hlive, hkind]

theorem append_same (h : InStep durable mem) (hkey : ValidKey base64 key) {suffix : Bytes}
    (huntyped : ∀ entry, (mem.maps db).get? (encodeKey base64 key) = some entry →
      entry.kind = none)
    (hfits : let live := mem.live db (encodeKey base64 key) now
      Fits stamp db (encodeKey base64 key)
        (.withPayload ((live.map (·.value)).getD [] ++ suffix) (live.bind (·.expiresAtMs)))) :
    Same (durable.append base64 stamp db key suffix now)
      ((mem.append base64 db key suffix now).map .ok id) := by
  obtain ⟨-, hdeadline, hvalue⟩ := h.live_fields db (encodeKey base64 key) now
  simp only [append, onOk, get_createCollection, hdeadline, hvalue,
    insert_created hkey.id hfits, memAppend_eq huntyped]
  exact ⟨rfl, h.insert hkey.id (plain_withPayload _ _) (h.durableTracked.insert_track _ _ _)
    (h.memTracked.insert fun _ => h.covers_live)⟩

theorem rename_same (h : InStep durable mem) {src dst : Bytes} (hkey : ValidKey base64 dst)
    (hne : encodeKey base64 src ≠ encodeKey base64 dst)
    (hfits : ∀ entry, mem.live db (encodeKey base64 src) now = some entry →
      Fits stamp db (encodeKey base64 dst) entry.record) :
    Same (durable.rename base64 stamp db src dst now) (mem.rename base64 db src dst now) := by
  have hlive := h.live db (encodeKey base64 src) now
  simp only [rename, MemStore.rename, onOk, record_eq, ← hlive] at hfits ⊢
  cases hrecord : ((durable.engine.records db).get? (encodeKey base64 src)).filter
      fun record => !isExpired now record with
  | none => exact ⟨rfl, h⟩
  | some record =>
    obtain ⟨hget, -⟩ := filter_eq_some_iff.1 hrecord
    obtain ⟨hplain, -⟩ := h.mirrors.valid db _ record hget
    have hfit := hfits record.typed (by rw [hrecord]; rfl)
    rw [hplain] at hfit
    have hthere : ((durable.engine.withRecord db (encodeKey base64 dst) record).records db).get?
        (encodeKey base64 src) = some record := by
      rw [withRecord, records_withRecords, if_pos rfl, get?_insert, if_neg hne, hget]
    simp only [insert_eq (isSome_of_get? hget) hkey.id hfit,
      delete_of_isSome (isSome_of_get? hthere), contains, hthere, isSome_some, if_true]
    have hinsert := @InStep.insert _ _ db h _ hkey.id record hplain _ _
      (h.durableTracked.insert_track _ _ _) (h.memTracked.insert_track _ _ _)
    -- erasing under the old id and inserting under the new one commute
    have hswap : ((mem.maps db).insert (encodeKey base64 dst) record.typed).erase
        (encodeKey base64 src) =
        ((mem.maps db).erase (encodeKey base64 src)).insert
          (encodeKey base64 dst) record.typed := by
      apply ext_get?
      intro id
      simp only [get?_erase, get?_insert]
      split_ifs with hsrc hdst
      · exact absurd (hsrc.symm.trans hdst) hne
      · rfl
      · rfl
      · rfl
    have hstep := hinsert.erase db (encodeKey base64 src)
    simp only [MemStore.withMap, update_self, update_idem, hswap] at hstep
    exact ⟨rfl, hstep⟩

theorem flushDb_same (h : InStep durable mem) (db : DbIndex) :
    InStep (durable.flushDb db) (mem.flushDb db) := by
  have hsub : ∀ db' id entry, ((mem.flushDb db).maps db').get? id = some entry →
      (mem.maps db').get? id = some entry := by
    intro db' id entry hget
    by_cases hdb : db' = db
    · subst hdb
      rw [MemStore.flushDb, MemStore.withMap_self] at hget
      cases hget
    · rwa [MemStore.flushDb, MemStore.withMap_of_ne _ _ hdb] at hget
  refine ⟨⟨?_, ?_⟩, h.durableTracked.sub hsub, h.memTracked.sub hsub⟩
  · intro db'
    rw [flushDb, records_dropCollection]
    split_ifs with hdb
    · subst hdb
      rw [MemStore.flushDb, MemStore.withMap_self]
      rfl
    · rw [MemStore.flushDb, MemStore.withMap_of_ne _ _ hdb]
      exact h.mirrors.maps db'
  · intro db' id record hget
    rw [flushDb, records_dropCollection] at hget
    split_ifs at hget
    · cases hget
    · exact h.mirrors.valid db' id record hget

theorem flushAll_same (durable : DurableStore) : InStep durable.flushAll .empty := by
  -- along the databases: those that have been passed have no collection
  have hdropped : ∀ (dbs : List DbIndex) (engine : Engine) (db : DbIndex),
      (db ∈ dbs ∨ engine.records db = ∅) → (dbs.foldl dropCollection engine).records db = ∅ := by
    intro dbs
    induction dbs with
    | nil => simp
    | cons first rest ih =>
      intro engine db hdb
      apply ih
      rw [records_dropCollection]
      rcases hdb with hmem | hempty
      · rcases List.mem_cons.1 hmem with rfl | hrest
        · exact .inr (if_pos rfl)
        · exact .inl hrest
      · exact .inr (by rw [hempty, ite_self])
  have hempty : ∀ db, durable.flushAll.engine.records db = ∅ := fun db =>
    hdropped _ _ db (.inl (List.mem_finRange db))
  refine ⟨⟨fun db => ?_, fun db id record hget => ?_⟩, ⟨List.Pairwise.nil, nofun⟩,
    ⟨List.Pairwise.nil, nofun⟩⟩
  · rw [hempty]
    rfl
  · rw [hempty] at hget
    cases hget

end Commands

end BicDb.Cache
