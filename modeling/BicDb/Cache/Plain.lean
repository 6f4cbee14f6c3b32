import BicDb.Cache.Store

/-!
# The cache as a plain map

One map per database; a key past its deadline is absent. `Settles` relates the maps of the ephemeral
mode, which keep expired entries, to the plain maps: from some moment on, both have the same live
entries.
-/

namespace BicDb.Cache

open BicDb.Foundation MemStore AtomicProgram

/-! ## The plain map -/

/-- The map without its expired entries. -/
def purge (now : Int) (map : OrderedMap String TypedEntry) : OrderedMap String TypedEntry :=
  map.filter (memIsLive now)

/-- The plain map: entries that are all live. -/
abbrev Plain := DbIndex → OrderedMap String TypedEntry

namespace Plain

variable (base64 : Base64)

variable (map : OrderedMap String TypedEntry)

/-- Writes a value where the condition holds of what is there. -/
def writeEntry (id : String) (value : Bytes) (expiresAtMs : Option Int) (condition : SetCondition) :
    Except CacheError (Option Entry) × OrderedMap String TypedEntry :=
  let previous := (map.get? id).map TypedEntry.entry
  if condition.holds previous then
    let deadline := if expiresAtMs = some keepTtlSentinel then (map.get? id).bind (·.expiresAtMs)
      else expiresAtMs
    (.ok previous, map.insert id ⟨value, none, deadline⟩)
  else (.error (.conditionFailed previous), map)

/-- Removes keys and counts them. -/
def deleteKeys : List Bytes → OrderedMap String TypedEntry → Nat × OrderedMap String TypedEntry
  | [], map => (0, map)
  | key :: rest, map =>
    let (removed, map') := deleteKeys rest (map.erase (encodeKey base64 key))
    ((if map.contains (encodeKey base64 key) then 1 else 0) + removed, map')

/-- Applies one write of an atomic update. -/
def publish (write : Bytes × Option TypedEntry) : OrderedMap String TypedEntry :=
  match write.2 with
  | some entry => map.insert (encodeKey base64 write.1) entry
  | none => map.erase (encodeKey base64 write.1)

/-- A command on the live entries of its database. -/
def onMap {ρ : Type} (command : Command ρ) (now later : Int) :
    Except CacheError (Reply ρ) × OrderedMap String TypedEntry :=
  match command with
  | .get _ key => (.ok (.entry ((map.get? (encodeKey base64 key)).map TypedEntry.entry)), map)
  | .ttl _ key => (.ok (.ttl (ttlState
      ((map.get? (encodeKey base64 key)).map TypedEntry.entry) later)), map)
  | .keys _ => (.ok (.keys (map.keys.map (decodeKey base64))), map)
  | .set _ key value expiresAtMs =>
    (writeEntry map (encodeKey base64 key) value expiresAtMs .always).map (·.map .entry) id
  | .setConditional _ key value expiresAtMs condition =>
    (writeEntry map (encodeKey base64 key) value expiresAtMs condition).map conditionalReply id
  | .delete _ keys => (deleteKeys base64 keys map).map (fun n => .ok (.removed n)) id
  | .getDel _ key => (.ok (.entry ((map.get? (encodeKey base64 key)).map TypedEntry.entry)),
      map.erase (encodeKey base64 key))
  | .setExpiry _ key deadlineMs =>
    match map.get? (encodeKey base64 key) with
    | none => (.ok (.changed false), map)
    | some entry => (.ok (.changed true),
        map.insert (encodeKey base64 key) { entry with expiresAtMs := deadlineMs })
  | .incrBy _ key delta =>
    let old := map.get? (encodeKey base64 key)
    match incrUpdate delta (old.map (·.value)) with
    | .error error => (.error error, map)
    | .ok (value, text) => (.ok (.number ((parseI64 (utf8 text)).getD 0)),
        map.insert (encodeKey base64 key) ⟨value, none, old.bind (·.expiresAtMs)⟩)
  | .append _ key suffix =>
    match map.get? (encodeKey base64 key) with
    | some entry => (.ok (.length (entry.value ++ suffix).length),
        map.insert (encodeKey base64 key) { entry with value := entry.value ++ suffix })
    | none => (.ok (.length suffix.length), map.insert (encodeKey base64 key) ⟨suffix, none, none⟩)
  | .msetNx _ pairs =>
    if pairs.any fun pair => map.contains (encodeKey base64 pair.1) then (.ok (.changed false), map)
    else (.ok (.changed true), pairs.foldl
      (fun map pair => map.insert (encodeKey base64 pair.1) ⟨pair.2, none, none⟩) map)
  | .rename _ src dst =>
    match map.get? (encodeKey base64 src) with
    | none => (.error (.command "no such key"), map)
    | some entry => (.ok .done,
        (map.erase (encodeKey base64 src)).insert (encodeKey base64 dst) entry)
  | .flushDb _ => (.ok .done, ∅)
  | .flushAll => (.ok .done, ∅)
  | .sweepExpired => (.ok (.swept 0), map)
  | .atomic _ execute =>
    match execute.run (fun key => map.get? (encodeKey base64 key)) now ⟨∅, 0⟩ with
    | (.error error, _) => (.error error, map)
    | (.ok result, cache) => (.ok (.atomic result), cache.writes.entries.foldl (publish base64) map)

end Plain

/-- The database a command is about; the sweeper and `flush_all` are about all of them. -/
def Command.db? {ρ : Type} : Command ρ → Option DbIndex
  | .get db _ | .ttl db _ | .keys db | .set db _ _ _ | .setConditional db _ _ _ _ | .delete db _
  | .getDel db _ | .setExpiry db _ _ | .incrBy db _ _ | .append db _ _ | .msetNx db _
  | .rename db _ _ | .flushDb db | .atomic db _ => some db
  | .flushAll | .sweepExpired => none

/-- A command on the plain maps: what has expired is dropped first. -/
def Plain.step {ρ : Type} (base64 : Base64) (plain : Plain) (command : Command ρ)
    (now later : Int) : Except CacheError (Reply ρ) × Plain :=
  match command.db? with
  | some db =>
    (Plain.onMap base64 (purge now (plain db)) command now later).map id (Function.update plain db)
  | none => ((Plain.onMap base64 ∅ command now later).1,
      if command matches .flushAll then fun _ => ∅ else plain)

/-! ## The same live entries -/

section Settles

variable {now : Int} {map map' : OrderedMap String TypedEntry}

/-- From `now` on, two maps have the same live entries. -/
def Settles (now : Int) (map map' : OrderedMap String TypedEntry) : Prop :=
  ∀ t, now ≤ t → purge t map = purge t map'

theorem get?_purge (now : Int) (map : OrderedMap String TypedEntry) (id : String) :
    (purge now map).get? id = (map.get? id).filter (memIsLive now) :=
  OrderedMap.get?_filter _ _ _

theorem memIsLive_of_le {t : Int} {entry : TypedEntry} (h : now ≤ t)
    (hlive : memIsLive t entry = true) : memIsLive now entry = true := by
  obtain ⟨value, kind, expiresAtMs⟩ := entry
  cases expiresAtMs with
  | none => rfl
  | some =>
    simp only [memIsLive, Option.any_some, Bool.not_eq_true', decide_eq_false_iff_not] at hlive ⊢
    exact fun hdue => hlive (hdue.trans h)

theorem settles_iff : Settles now map map' ↔ ∀ t, now ≤ t → ∀ id,
    (map.get? id).filter (memIsLive t) = (map'.get? id).filter (memIsLive t) := by
  constructor
  · intro h t ht id
    rw [← get?_purge, ← get?_purge, h t ht]
  · intro h t ht
    apply OrderedMap.ext_get?
    intro id
    rw [get?_purge, get?_purge, h t ht]

theorem Settles.refl : Settles now map map := fun _ _ => rfl

theorem Settles.mono {later : Int} (h : Settles now map map') (hle : now ≤ later) :
    Settles later map map' := fun t ht => h t (hle.trans ht)

theorem settles_purge : Settles now map (purge now map) := by
  apply settles_iff.2
  intro t ht id
  rw [get?_purge]
  cases map.get? id with
  | none => rfl
  | some entry =>
    by_cases hlive : memIsLive t entry = true
    · simp [Option.filter, hlive, memIsLive_of_le ht hlive]
    · by_cases hnow : memIsLive now entry = true <;> simp [Option.filter, hlive, hnow]

variable (h : Settles now map map')

include h

theorem Settles.insert (id : String) (entry : TypedEntry) :
    Settles now (map.insert id entry) (map'.insert id entry) := by
  apply settles_iff.2
  intro t ht id'
  rw [OrderedMap.get?_insert, OrderedMap.get?_insert]
  split_ifs
  · rfl
  · exact settles_iff.1 h t ht id'

theorem Settles.erase (id : String) :
    Settles now (map.erase id) (map'.erase id) := by
  apply settles_iff.2
  intro t ht id'
  rw [OrderedMap.get?_erase, OrderedMap.get?_erase]
  split_ifs
  · rfl
  · exact settles_iff.1 h t ht id'

theorem Settles.erase_expired {id : String}
    (hexpired : ∀ entry, map.get? id = some entry → memIsLive now entry = false) :
    Settles now (map.erase id) map' := by
  apply settles_iff.2
  intro t ht id'
  rw [← settles_iff.1 h t ht id', OrderedMap.get?_erase]
  split_ifs with hid
  · subst hid
    cases hget : map.get? id' with
    | none => rfl
    | some entry =>
      have hdead : memIsLive t entry = false := by
        by_contra hlive
        have := memIsLive_of_le ht (by simpa using hlive)
        rw [hexpired entry hget] at this
        cases this
      simp [Option.filter, hdead]
  · rfl

end Settles

/-! ## The commands of the ephemeral mode -/

variable {ρ : Type} {base64 : Base64} {store : MemStore} {db : DbIndex} {now later : Int}

theorem live_eq (store : MemStore) (db : DbIndex) (id : String) (now : Int) :
    store.live db id now = (purge now (store.maps db)).get? id :=
  (get?_purge now _ id).symm

theorem purge_erase (map : OrderedMap String TypedEntry) (id : String) :
    purge now (map.erase id) = (purge now map).erase id := by
  apply OrderedMap.ext_get?
  intro id'
  rw [get?_purge, OrderedMap.get?_erase, OrderedMap.get?_erase, get?_purge]
  split_ifs <;> rfl

/-- `store'` has `store`'s maps, except that the one of `db` has settled to `map`. -/
structure SettlesAt (now : Int) (db : DbIndex) (map : OrderedMap String TypedEntry)
    (store store' : MemStore) : Prop where
  settles : Settles now (store'.maps db) map
  others : ∀ db', db' ≠ db → store'.maps db' = store.maps db'

variable {map : OrderedMap String TypedEntry}

theorem settlesAt_self : SettlesAt now db (purge now (store.maps db)) store store :=
  ⟨settles_purge, fun _ _ => rfl⟩

theorem SettlesAt.withMap {store' : MemStore} {map₁ map₂ : OrderedMap String TypedEntry}
    (h : SettlesAt now db map store store') (hmap : Settles now map₁ map₂) :
    SettlesAt now db map₂ store (store'.withMap db map₁) :=
  ⟨by rwa [withMap_self], fun db' hne => (withMap_of_ne _ _ hne).trans (h.others db' hne)⟩

theorem SettlesAt.track {store' : MemStore} (h : SettlesAt now db map store store')
    (deadline : Option Int) (db' : DbIndex) (id : String) :
    SettlesAt now db map store (store'.track deadline db' id) :=
  ⟨h.settles, h.others⟩

theorem writeEntry_settles (key value : Bytes) (expiresAtMs : Option Int)
    (condition : SetCondition) :
    (store.writeEntry base64 db key value expiresAtMs condition now).1 =
        (Plain.writeEntry (purge now (store.maps db)) (encodeKey base64 key) value expiresAtMs
          condition).1 ∧
      SettlesAt now db (Plain.writeEntry (purge now (store.maps db)) (encodeKey base64 key) value
          expiresAtMs condition).2 store
        (store.writeEntry base64 db key value expiresAtMs condition now).2 := by
  simp only [writeEntry, Plain.writeEntry, live_eq]
  split_ifs
  iterate 2 exact ⟨rfl, (settlesAt_self.withMap (settles_purge.insert _ _)).track _ _ _⟩
  exact ⟨rfl, settlesAt_self⟩

/-- Deleting along the keys: what is removed was there, and it counts if it was live. -/
theorem deleteKeys_purge (keys : List Bytes) (map : OrderedMap String TypedEntry) :
    (MemStore.deleteKeys base64 now keys map).1 = (Plain.deleteKeys base64 keys (purge now map)).1 ∧
      purge now (MemStore.deleteKeys base64 now keys map).2 =
        (Plain.deleteKeys base64 keys (purge now map)).2 := by
  induction keys generalizing map with
  | nil => exact ⟨rfl, rfl⟩
  | cons key rest ih =>
    obtain ⟨hcount, hmap⟩ := ih (map.erase (encodeKey base64 key))
    simp only [deleteKeys, Plain.deleteKeys]
    rw [purge_erase] at hcount hmap
    have hthere : (purge now map).contains (encodeKey base64 key) =
        ((map.get? (encodeKey base64 key)).filter (memIsLive now)).isSome := by
      rw [OrderedMap.contains, get?_purge]
    cases hget : map.get? (encodeKey base64 key) with
    | none =>
      -- nothing to delete, in either map
      have hsame : (purge now map).erase (encodeKey base64 key) = purge now map :=
        OrderedMap.erase_of_get?_eq_none (by rw [get?_purge, hget]; rfl)
      obtain ⟨hcount', hmap'⟩ := ih map
      rw [hthere, hget, hsame]
      exact ⟨by simpa using hcount', hmap'⟩
    | some entry =>
      rw [hthere, hget, hcount]
      refine ⟨?_, hmap⟩
      cases memIsLive now entry <;> simp [Option.filter, *]

theorem publish_settles (writes : List (Bytes × Option TypedEntry)) {store' : MemStore}
    (h : SettlesAt now db map store store') :
    SettlesAt now db (writes.foldl (Plain.publish base64) map) store
      (writes.foldl (MemStore.publish base64 db) store') := by
  induction writes generalizing store' map with
  | nil => exact h
  | cons write rest ih =>
    apply ih
    obtain ⟨key, value⟩ := write
    cases value with
    | some entry => exact (h.withMap (h.settles.insert _ _)).track _ _ _
    | none => exact h.withMap (h.settles.erase _)

/-- A program sees only live entries. -/
theorem run_congr {source source' : Bytes → Option TypedEntry}
    (h : ∀ key, (source key).filter (memIsLive now) = (source' key).filter (memIsLive now))
    (execute : AtomicProgram ρ) (cache : AtomicCache) :
    execute.run source now cache = execute.run source' now cache := by
  -- the buffer reads only live entries, from the writes or from the source
  have hget :
      ∀ (cache : AtomicCache) key, cache.get source now key = cache.get source' now key := by
    intro cache key
    have hfilter : (fun entry : TypedEntry =>
        entry.expiresAtMs.all fun deadline => decide (now < deadline)) = memIsLive now := by
      funext entry
      unfold memIsLive
      cases entry.expiresAtMs with
      | none => rfl
      | some =>
        rw [Option.all_some, Option.any_some, ← decide_not]
        exact decide_eq_decide.2 not_le.symm
    unfold AtomicCache.get
    rw [hfilter]
    cases cache.writes.get? key with
    | none => exact h key
    | some write => rfl
  induction execute generalizing cache with
  | done result => rfl
  | clock next ih => exact ih now cache
  | get key next ih =>
    rw [run, run, hget]
    exact ih _ cache
  | put key value next ih =>
    rw [run, run]
    cases cache.put key value with
    | ok cache' => exact ih _ cache'
    | error error => exact ih _ cache

/-- An append finds no entry with a type. -/
def AppendUntyped (base64 : Base64) (store : MemStore) : Command ρ → Prop
  | .append db key _ => ∀ entry, (store.maps db).get? (encodeKey base64 key) = some entry →
      entry.kind = none
  | _ => True

/-- A command about one database answers as on the plain map, and leaves its live entries. -/
theorem step_settlesAt {command : Command ρ} (hdb : command.db? = some db)
    (huntyped : AppendUntyped base64 store command) :
    (store.step base64 command now later).1 =
        (Plain.onMap base64 (purge now (store.maps db)) command now later).1 ∧
      SettlesAt now db (Plain.onMap base64 (purge now (store.maps db)) command now later).2 store
        (store.step base64 command now later).2 := by
  cases command <;> cases hdb
  case get | ttl =>
    refine ⟨?_, settlesAt_self⟩
    simp only [MemStore.step, MemStore.get, Plain.onMap, live_eq]
  case keys =>
    refine ⟨?_, settlesAt_self⟩
    simp only [step, keys, Plain.onMap, OrderedMap.keys, List.map_map]
    rfl
  case set | setConditional =>
    simp only [step, Plain.onMap, Prod.map_fst, Prod.map_snd, (writeEntry_settles _ _ _ _).1]
    exact ⟨trivial, (writeEntry_settles _ _ _ _).2⟩
  case delete keys =>
    obtain ⟨hcount, hmap⟩ := @deleteKeys_purge base64 now keys (store.maps db)
    refine ⟨by simp only [step, delete, Plain.onMap, Prod.map_fst, hcount],
      settlesAt_self.withMap ?_⟩
    exact hmap ▸ settles_purge
  case getDel key =>
    refine ⟨?_, settlesAt_self.withMap (settles_purge.erase _)⟩
    simp only [step, getDel, Plain.onMap, Prod.map_fst, get?_purge]
    cases (store.maps db).get? (encodeKey base64 key) with
    | none => rfl
    | some entry => cases hlive : memIsLive now entry <;> simp [Option.filter, hlive]
  case setExpiry key _ =>
    simp only [step, setExpiry, Plain.onMap, live_eq]
    cases (purge now (store.maps db)).get? (encodeKey base64 key) with
    | none => exact ⟨rfl, settlesAt_self⟩
    | some entry => exact ⟨rfl, (settlesAt_self.withMap (settles_purge.insert _ _)).track _ _ _⟩
  case incrBy key delta =>
    simp only [step, numericUpdate, Plain.onMap, live_eq]
    cases incrUpdate delta (((purge now (store.maps db)).get? (encodeKey base64 key)).map
      (·.value)) with
    | error error => exact ⟨rfl, settlesAt_self⟩
    | ok updated => exact ⟨rfl, settlesAt_self.withMap (settles_purge.insert _ _)⟩
  case append key suffix =>
    simp only [step, append, Plain.onMap, get?_purge]
    cases hget : (store.maps db).get? (encodeKey base64 key) with
    | none => exact ⟨rfl, settlesAt_self.withMap (settles_purge.insert _ _)⟩
    | some entry =>
      -- an expired entry has no type to keep, so it is a fresh one
      have hkind : entry.kind = none := huntyped entry hget
      cases hlive : memIsLive now entry with
      | true =>
        simp only [Option.filter, hlive, if_true]
        exact ⟨rfl, settlesAt_self.withMap (settles_purge.insert _ _)⟩
      | false =>
        simp only [Option.filter, hlive, Bool.false_eq_true, if_false, hkind, List.nil_append]
        exact ⟨rfl, settlesAt_self.withMap (settles_purge.insert _ _)⟩
  case msetNx pairs =>
    simp only [step, msetNx, Plain.onMap, live_eq, ← OrderedMap.contains.eq_1]
    by_cases hlive : (pairs.any fun pair =>
        (purge now (store.maps db)).contains (encodeKey base64 pair.1)) = true
    · simp only [if_pos hlive]
      exact ⟨rfl, settlesAt_self⟩
    · simp only [if_neg hlive]
      exact ⟨rfl,
        settlesAt_self.withMap (List.foldl_rel settles_purge fun _ _ _ _ h => h.insert _ _)⟩
  case rename src dst =>
    simp only [step, rename, Plain.onMap, live_eq]
    cases (purge now (store.maps db)).get? (encodeKey base64 src) with
    | none => exact ⟨rfl, settlesAt_self⟩
    | some entry =>
      exact ⟨rfl, (settlesAt_self.withMap ((settles_purge.erase _).insert _ _)).track _ _ _⟩
  case flushDb =>
    exact ⟨rfl, settlesAt_self.withMap .refl⟩
  case atomic execute =>
    have hrun := @run_congr _ now (fun key => (store.maps db).get? (encodeKey base64 key))
      (fun key => (purge now (store.maps db)).get? (encodeKey base64 key))
      (fun key => settles_iff.1 settles_purge now le_rfl _) execute ⟨∅, 0⟩
    simp only [step, atomic, Plain.onMap, hrun]
    rcases execute.run (fun key => (purge now (store.maps db)).get? (encodeKey base64 key)) now
      ⟨∅, 0⟩ with ⟨_ | _, cache⟩
    · exact ⟨rfl, settlesAt_self⟩
    · exact ⟨rfl, publish_settles _ settlesAt_self⟩

variable {plain : Plain}

/-- Along the deadlines that are due: an entry that is removed has expired. -/
theorem sweepDue_settles (due : List Deadline) (h : ∀ db, Settles now (store.maps db) (plain db))
    (db : DbIndex) :
    Settles now ((MemStore.sweepDue now due store).2.maps db) (plain db) := by
  induction due generalizing store with
  | nil => exact h db
  | cons first rest ih =>
    rw [sweepDue]
    split_ifs with hexpired
    · apply ih
      intro db'
      by_cases hdb : db' = (ofLex (ofLex first).2).1
      · subst hdb
        rw [withMap_self]
        refine (h _).erase_expired fun entry hentry => ?_
        simpa [hentry] using hexpired
      · rw [withMap_of_ne _ _ hdb]
        exact h db'
    · exact ih h

/-! ## A step of the ephemeral mode -/

/-- The reply without the number of entries swept. -/
def withoutCount (result : Except CacheError (Reply ρ)) : Except CacheError (Reply ρ) :=
  match result with
  | .ok (.swept _) => .ok (.swept 0)
  | other => other

/-- **The ephemeral mode refines the plain map**: the same answer, and the same live entries
afterwards. -/
theorem memStep_refines {command : Command ρ} (h : ∀ db, Settles now (store.maps db) (plain db))
    (huntyped : AppendUntyped base64 store command) :
    withoutCount (store.step base64 command now later).1 =
        withoutCount (Plain.step base64 plain command now later).1 ∧
      ∀ db, Settles now ((store.step base64 command now later).2.maps db)
        ((Plain.step base64 plain command now later).2 db) := by
  cases hdb : command.db? with
  | some db =>
    obtain ⟨hreply, hsettles⟩ := @step_settlesAt _ base64 store db now later command hdb huntyped
    simp only [Plain.step, hdb, ← h db now le_rfl]
    refine ⟨by simp only [Prod.map_fst, id, hreply], fun db' => ?_⟩
    simp only [Prod.map_snd]
    by_cases hsame : db' = db
    · subst hsame
      rw [Function.update_self]
      exact hsettles.settles
    · rw [Function.update_of_ne hsame, hsettles.others db' hsame]
      exact h db'
  | none =>
    cases command with
    | flushAll => exact ⟨rfl, fun _ => .refl⟩
    | sweepExpired => exact ⟨rfl, sweepDue_settles _ h⟩
    | _ => cases hdb

end BicDb.Cache
