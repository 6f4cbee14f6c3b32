import BicDb.Cache.Modes
import BicDb.Foundation.Run
import Mathlib.Data.List.TakeWhile

/-!
# One cache in two modes

A durable store, an ephemeral store and the plain maps get the same commands at the same clock
readings. Where every command meets `Clean`, the two modes answer like the plain maps and hold the
same visible entries.

## What this module delivers

* `Clean`: the commands on which the modes agree.
* `modes_agree`: in a run of clean commands both modes answer like the plain maps and show the same
  entries.
* `modes_differ`: a key renamed to itself, and an append to a typed entry.
-/

namespace BicDb.Cache

open BicDb.Foundation MemStore List Function

/-! ## Sweeping -/

section Sweeping

variable {durable : DurableStore} {mem : MemStore} {now : Int}

/-- The expired entries of a map. -/
def expiredIn (now : Int) (map : OrderedMap String TypedEntry) : Nat :=
  (map.entries.filter fun e => !memIsLive now e.2).length

/-- Those of all databases. -/
def expiredTotal (now : Int) (maps : DbIndex → OrderedMap String TypedEntry) : Nat :=
  ∑ db, expiredIn now (maps db)

variable {entry : TypedEntry}

variable {maps : DbIndex → OrderedMap String TypedEntry} {db : DbIndex}

theorem expiredTotal_erase {id : String} (hget : (maps db).get? id = some entry)
    (hexpired : memIsLive now entry = false) :
    expiredTotal now (update maps db ((maps db).erase id)) + 1 = expiredTotal now maps := by
  unfold expiredTotal
  have hone : expiredIn now ((maps db).erase id) + 1 = expiredIn now (maps db) := by
    obtain ⟨before, after, heq⟩ := OrderedMap.exists_split_of_get? hget
    unfold expiredIn
    rw [OrderedMap.entries_erase_of_mem heq, heq]
    simp only [filter_append, filter_cons, hexpired, Bool.not_false, if_true,
      length_append, length_cons]
    omega
  rw [← Finset.add_sum_erase _ _ (Finset.mem_univ db),
    ← Finset.add_sum_erase Finset.univ (fun db => expiredIn now (maps db)) (Finset.mem_univ db)]
  have hothers : ∑ db' ∈ Finset.univ.erase db,
      expiredIn now (update maps db ((maps db).erase id) db') =
      ∑ db' ∈ Finset.univ.erase db, expiredIn now (maps db') := by
    apply Finset.sum_congr rfl
    intro db' hdb'
    rw [update_of_ne (Finset.ne_of_mem_erase hdb')]
  rw [hothers, update_self]
  omega

variable (due : List Deadline)

theorem sweepDue_count (mem : MemStore) :
    (MemStore.sweepDue now due mem).1 + expiredTotal now (MemStore.sweepDue now due mem).2.maps =
      expiredTotal now mem.maps := by
  induction due generalizing mem with
  | nil => exact Nat.zero_add _
  | cons first rest ih =>
    rw [sweepDue]
    split_ifs with hexpired
    · obtain ⟨entry, hget, hdead⟩ := (Option.any_eq_true _ _).1 hexpired
      have hone := expiredTotal_erase hget (by simpa using hdead)
      have hrest := ih (mem.withMap (ofLex (ofLex first).2).1
        ((mem.maps (ofLex (ofLex first).2).1).erase (ofLex (ofLex first).2).2))
      simp only [withMap] at hrest ⊢
      omega
    · exact ih mem

theorem sweepDue_sub (mem : MemStore) {id : String}
    (h : ((MemStore.sweepDue now due mem).2.maps db).get? id = some entry) :
    (mem.maps db).get? id = some entry := by
  induction due generalizing mem with
  | nil => exact h
  | cons first rest ih =>
    rw [sweepDue] at h
    split_ifs at h
    · have hrest := ih _ h
      by_cases hdb : db = (ofLex (ofLex first).2).1
      · subst hdb
        rw [withMap_self, OrderedMap.get?_erase] at hrest
        split_ifs at hrest
        exact hrest
      · rwa [withMap_of_ne _ _ hdb] at hrest
    · exact ih mem h

theorem sweepDue_live (mem : MemStore) {id : String} {deadline : Int}
    (hdue : deadlineOf deadline db id ∈ due)
    (h : ((MemStore.sweepDue now due mem).2.maps db).get? id = some entry) :
    memIsLive now entry = true := by
  induction due generalizing mem with
  | nil => cases hdue
  | cons first rest ih =>
    rw [sweepDue] at h
    rcases mem_cons.1 hdue with rfl | hrest
    · -- its own turn: it is removed, or it was live
      split_ifs at h with hexpired
      · have hgone := sweepDue_sub rest _ h
        simp [deadlineOf, OrderedMap.get?_erase] at hgone
      · have hget := sweepDue_sub rest _ h
        simpa [deadlineOf, hget] using hexpired
    · split_ifs at h
      · exact ih _ hrest h
      · exact ih mem hrest h

theorem sweepDue_expiry (mem : MemStore) :
    (MemStore.sweepDue now due mem).2.expiry = mem.expiry := by
  induction due generalizing mem with
  | nil => rfl
  | cons first rest ih =>
    rw [sweepDue]
    split_ifs
    · exact ih _
    · exact ih mem

/-- A sweep that takes all that has expired leaves the live entries and counts the others. -/
theorem sweepDue_all {due : List Deadline}
    (hall : ∀ db id entry, (mem.maps db).get? id = some entry → memIsLive now entry = false →
      ∃ deadline, deadlineOf deadline db id ∈ due) :
    (MemStore.sweepDue now due mem).1 = expiredTotal now mem.maps ∧
      ∀ db, (MemStore.sweepDue now due mem).2.maps db = purge now (mem.maps db) := by
  have hmaps : ∀ db, (sweepDue now due mem).2.maps db = purge now (mem.maps db) := by
    intro db
    -- what is left is live, so dropping what has expired changes nothing any more
    have hlive : purge now ((sweepDue now due mem).2.maps db) =
        (sweepDue now due mem).2.maps db := by
      apply OrderedMap.ext_get?
      intro id
      rw [get?_purge]
      cases hget : ((sweepDue now due mem).2.maps db).get? id with
      | none => rfl
      | some entry =>
        have hentry : memIsLive now entry = true := by
          by_contra hexpired
          obtain ⟨deadline, hdue⟩ := hall db id entry (sweepDue_sub due mem hget)
            (by simpa using hexpired)
          exact hexpired (sweepDue_live due mem hdue hget)
        simp [Option.filter, hentry]
    rw [← hlive]
    exact sweepDue_settles due (fun _ => .refl) db now le_rfl
  refine ⟨?_, hmaps⟩
  have hnone : expiredTotal now (sweepDue now due mem).2.maps = 0 := by
    apply Finset.sum_eq_zero
    intro db _
    rw [hmaps, expiredIn, purge, OrderedMap.filter, filter_filter, length_eq_zero_iff,
      filter_eq_nil_iff]
    simp
  have hcount := @sweepDue_count now due mem
  omega

variable {queue : ExpiryQueue}

/-- One sweep takes all that is due. -/
def FewDue (queue : ExpiryQueue) (now : Int) : Prop :=
  (queue.takeWhile fun due => decide ((ofLex due).1 ≤ now)).length ≤ sweepLimit

theorem dueDeadlines_eq (h : FewDue queue now) :
    dueDeadlines queue now = queue.takeWhile fun due => decide ((ofLex due).1 ≤ now) :=
  take_of_length_le h

theorem exists_due (h : Tracked maps queue) (hfew : FewDue queue now) {id : String}
    (hget : (maps db).get? id = some entry) (hexpired : memIsLive now entry = false) :
    ∃ deadline, deadlineOf deadline db id ∈ dueDeadlines queue now := by
  obtain ⟨deadline, hdeadline, hle⟩ : ∃ deadline, entry.expiresAtMs = some deadline ∧
      deadline ≤ now := by
    simpa [memIsLive, Option.any_eq_true] using hexpired
  refine ⟨deadline, ?_⟩
  rw [dueDeadlines_eq hfew]
  refine (mem_takeWhile_iff (h.sorted.imp fun hab hb => ?_)).2
    ⟨h.covers db id entry deadline hget hdeadline, decide_eq_true hle⟩
  rw [decide_eq_true_eq] at hb ⊢
  rcases Prod.Lex.le_iff.1 hab with hlt | ⟨heq, -⟩
  · exact (le_of_lt hlt).trans hb
  · exact heq ▸ hb

theorem Tracked.swept {maps' : DbIndex → OrderedMap String TypedEntry} (h : Tracked maps queue)
    (hfew : FewDue queue now) (hmaps : ∀ db, maps' db = purge now (maps db)) :
    Tracked maps' (queue.drop (dueDeadlines queue now).length) := by
  refine ⟨h.sorted.sublist (drop_sublist _ _), ?_⟩
  intro db id entry deadline hget hdeadline
  rw [hmaps, get?_purge] at hget
  obtain ⟨hget, hlive⟩ := Option.filter_eq_some_iff.1 hget
  have hmem := h.covers db id entry deadline hget hdeadline
  rw [dueDeadlines_eq hfew]
  rw [← take_append_drop (queue.takeWhile fun due => decide ((ofLex due).1 ≤ now)).length queue,
    mem_append, ← prefix_iff_eq_take.1 (List.takeWhile_prefix _)] at hmem
  rcases hmem with htaken | hleft
  · -- a live entry is not due
    have htrue := mem_takeWhile_imp htaken
    have hdue : deadline ≤ now := of_decide_eq_true htrue
    simp [memIsLive, hdeadline, hdue] at hlive
  · exact hleft

theorem sweepDue_mirrors {durable : DurableStore} {mem : MemStore}
    (h : Mirrors durable.engine mem.maps) :
    (DurableStore.sweepDue now due durable).1 = .ok (MemStore.sweepDue now due mem).1 ∧
      (DurableStore.sweepDue now due durable).2.expiry = durable.expiry ∧
      Mirrors (DurableStore.sweepDue now due durable).2.engine
        (MemStore.sweepDue now due mem).2.maps := by
  induction due generalizing durable mem with
  | nil => exact ⟨rfl, rfl, h⟩
  | cons first rest ih =>
    have hget := h.get? (ofLex (ofLex first).2).1 (ofLex (ofLex first).2).2
    simp only [DurableStore.sweepDue, sweepDue, DurableStore.onOk, record_eq, delete_eq, ← hget]
    cases hrecord : (durable.engine.records (ofLex (ofLex first).2).1).get?
        (ofLex (ofLex first).2).2 with
    | none => exact ih h
    | some record =>
      simp only [OrderedMap.contains, hrecord, Option.isSome_some, if_true, Option.any_some,
        Option.map_some, memIsLive_typed, Bool.not_not]
      split_ifs
      · have hnext : Mirrors (⟨durable.engine.withoutRecord (ofLex (ofLex first).2).1
            (ofLex (ofLex first).2).2, durable.expiry⟩ : DurableStore).engine
            (mem.withMap (ofLex (ofLex first).2).1
              ((mem.maps (ofLex (ofLex first).2).1).erase (ofLex (ofLex first).2).2)).maps :=
          h.withoutRecord
        obtain ⟨hcount, hexpiry, hmirrors⟩ := ih hnext
        exact ⟨by rw [hcount]; rfl, hexpiry, hmirrors⟩
      · exact ih h

/-- **A sweep does the same in both modes**, although their queues differ. -/
theorem sweepExpired_same (h : InStep durable mem) (hdurable : FewDue durable.expiry now)
    (hmem : FewDue mem.expiry now) :
    Same (durable.sweepExpired now) ((mem.sweepExpired now).map .ok id) := by
  -- each loop, seen on the maps, takes all that has expired
  obtain ⟨hcount, hmaps⟩ :=
    @sweepDue_all ⟨mem.maps, mem.expiry.drop (dueDeadlines mem.expiry now).length⟩
    now (dueDeadlines mem.expiry now) fun db id entry => exists_due h.memTracked hmem
  obtain ⟨hcount', hmaps'⟩ := @sweepDue_all ⟨mem.maps, []⟩ now (dueDeadlines durable.expiry now)
    fun db id entry => exists_due h.durableTracked hdurable
  obtain ⟨hreply, hexpiry, hmirrors⟩ := @sweepDue_mirrors now (dueDeadlines durable.expiry now)
    ⟨durable.engine, durable.expiry.drop (dueDeadlines durable.expiry now).length⟩ ⟨mem.maps, []⟩
    h.mirrors
  have hsame : (sweepDue now (dueDeadlines durable.expiry now) ⟨mem.maps, []⟩).2.maps =
      (mem.sweepExpired now).2.maps := by
    funext db
    rw [hmaps' db]
    exact (hmaps db).symm
  refine ⟨?_, ?_, ?_, ?_⟩
  · rwa [Prod.map_fst, sweepExpired, hcount, ← hcount']
  · exact hsame ▸ hmirrors
  · have hqueue := h.durableTracked.swept hdurable hmaps
    rwa [DurableStore.sweepExpired, hexpiry]
  · have hqueue := h.memTracked.swept hmem hmaps
    rwa [Prod.map_snd, sweepExpired, id, sweepDue_expiry]

end Sweeping

/-! ## Atomic updates -/

variable {ρ : Type} {base64 : Base64} {durable : DurableStore} {mem : MemStore} {db : DbIndex}
  {now : Int} {stamp : TxStamp}

/-- Every put that the body can make has a valid key and a frame within the limit. -/
def AtomicProgram.PutsValid (base64 : Base64) (stamp : TxStamp) (db : DbIndex) :
    AtomicProgram ρ → Prop
  | .done _ => True
  | .clock next => ∀ now, (next now).PutsValid base64 stamp db
  | .get _ next => ∀ entry, (next entry).PutsValid base64 stamp db
  | .put key value next =>
    (∀ entry, value = some entry →
      ValidKey base64 key ∧ Fits stamp db (encodeKey base64 key) entry.record) ∧
      ∀ result, (next result).PutsValid base64 stamp db

/-- Every buffered write has a valid key and a frame within the limit. -/
def WritesValid (base64 : Base64) (stamp : TxStamp) (db : DbIndex)
    (writes : List (Bytes × Option TypedEntry)) : Prop :=
  ∀ write ∈ writes, ∀ entry, write.2 = some entry →
    ValidKey base64 write.1 ∧ Fits stamp db (encodeKey base64 write.1) entry.record

theorem run_valid (source : Bytes → Option TypedEntry) {execute : AtomicProgram ρ}
    (hputs : execute.PutsValid base64 stamp db) {cache : AtomicCache}
    (h : WritesValid base64 stamp db cache.writes.entries) :
    WritesValid base64 stamp db (execute.run source now cache).2.writes.entries := by
  induction execute generalizing cache with
  | done result => exact h
  | clock next ih => exact ih now (hputs now) h
  | get key next ih => exact ih _ (hputs _) h
  | put key value next ih =>
    obtain ⟨hkey, hnext⟩ := hputs
    rw [AtomicProgram.run]
    split
    case h_1 cache' hput =>
      unfold AtomicCache.put at hput
      dsimp only at hput
      split_ifs at hput
      cases hput
      refine ih _ (hnext _) fun write hwrite => ?_
      rcases OrderedMap.mem_insert_iff.1 hwrite with rfl | ⟨hold, -⟩
      · exact hkey
      · exact h write hold
    case h_2 => exact ih _ (hnext _) h

theorem source_eq (h : InStep durable mem) (key : Bytes) :
    durable.source base64 db key = (mem.maps db).get? (encodeKey base64 key) := by
  rw [DurableStore.source, record_eq, ← h.mirrors.get?]
  rfl

/-- The records after the writes, and the entries after them. -/
theorem applyWrites_same {writes : List (Bytes × Option TypedEntry)}
    (hvalid : WritesValid base64 stamp db writes) (h : InStep durable mem) :
    InStep ⟨durable.engine.withRecords db ((writes.map fun write =>
          (encodeKey base64 write.1, write.2.map TypedEntry.record)).foldl Engine.applyWrite
            (durable.engine.records db)),
        writes.foldl (DurableStore.trackWrite base64 db) durable.expiry⟩
      (writes.foldl (MemStore.publish base64 db) mem) := by
  induction writes generalizing durable mem with
  | nil =>
    refine ⟨?_, h.durableTracked, h.memTracked⟩
    have hmirrors := @Mirrors.withRecords _ _ db h.mirrors _ _ (h.mirrors.get? db)
      (h.mirrors.valid db)
    rwa [update_eq_self] at hmirrors
  | cons write rest ih =>
    obtain ⟨key, value⟩ := write
    have hrest := fun other hother => hvalid other (mem_cons_of_mem _ hother)
    cases value with
    | some entry =>
      obtain ⟨hkey, -⟩ := hvalid (key, some entry) mem_cons_self entry rfl
      have hnext := @InStep.insert _ _ db h _ hkey.id entry.record (plain_record entry) _ _
        (h.durableTracked.insert_track _ _ _) (h.memTracked.insert_track _ _ _)
      rw [typed_record] at hnext
      have hlast := ih hrest hnext
      simp only [Engine.withRecord, records_withRecords, withRecords_withRecords, if_true] at hlast
      exact hlast
    | none =>
      have hlast := ih hrest (h.erase db (encodeKey base64 key))
      simp only [Engine.withoutRecord, records_withRecords, withRecords_withRecords,
        if_true] at hlast
      exact hlast

theorem commitAll_eq {writes : List (Bytes × Option TypedEntry)}
    (hvalid : WritesValid base64 stamp db writes) {engine : Engine}
    (hthere : (engine.collections db).isSome = true) :
    engine.commitAll stamp db (writes.map fun write =>
        (encodeKey base64 write.1, write.2.map TypedEntry.record)) =
      .ok (engine.withRecords db ((writes.map fun write =>
        (encodeKey base64 write.1, write.2.map TypedEntry.record)).foldl Engine.applyWrite
          (engine.records db))) := by
  obtain ⟨records, hrecords⟩ := Option.isSome_iff_exists.1 hthere
  have hids : forAll (fun write : String × Option Record => write.2.elim (.ok ())
      fun _ => validateRecord (collectionName db) write.1) (writes.map fun write =>
        (encodeKey base64 write.1, write.2.map TypedEntry.record)) = .ok () := by
    rw [forAll_eq_ok, forall_mem_map]
    rintro ⟨key, _ | entry⟩ hmem
    · rfl
    · exact validateRecord_of_valid (hvalid _ hmem entry rfl).1.id _
  have hframes : forAll (fun write : String × Option Record => write.2.elim (.ok ())
      fun record => checkFrame stamp db write.1 record) (writes.map fun write =>
        (encodeKey base64 write.1, write.2.map TypedEntry.record)) = .ok () := by
    rw [forAll_eq_ok, forall_mem_map]
    rintro ⟨key, _ | entry⟩ hmem
    · rfl
    · have hfits := checkFrame_of_fits (hvalid _ hmem entry rfl).2
      simpa only [Option.map_some, Option.elim_some] using hfits
  simp only [Engine.commitAll, Engine.records, hrecords, hids, hframes]
  rfl

theorem atomic_same (h : InStep durable mem) {execute : AtomicProgram ρ}
    (hputs : execute.PutsValid base64 stamp db) :
    Same (durable.atomic base64 stamp db execute now) (mem.atomic base64 db execute now) := by
  have hsource : durable.source base64 db = fun key => (mem.maps db).get? (encodeKey base64 key) :=
    funext (source_eq h)
  have hvalid := @run_valid _ base64 db now stamp (durable.source base64 db) execute hputs ⟨∅, 0⟩
    nofun
  simp only [DurableStore.atomic, atomic, DurableStore.onOk, ← hsource]
  rcases hrun : execute.run (durable.source base64 db) now ⟨∅, 0⟩ with ⟨_ | result, cache⟩
  · exact ⟨rfl, h⟩
  rw [hrun] at hvalid
  dsimp only
  split_ifs with hempty
  · rw [hempty]
    exact ⟨rfl, h⟩
  · simp only [commitAll_eq hvalid (isSome_createCollection _ db)]
    exact ⟨rfl, applyWrites_same hvalid (h.created db)⟩

/-! ## Keys -/

theorem fromUTF8?_eq_some {bytes : ByteArray} {text : String}
    (h : String.fromUTF8? bytes = some text) : text.toUTF8 = bytes := by
  unfold String.fromUTF8? at h
  split_ifs at h
  cases h
  rfl

theorem encodeKey_injective (base64 : Base64) : Function.Injective (encodeKey base64) := by
  intro key key' h
  unfold encodeKey at h
  cases htext : String.fromUTF8? ⟨key.toArray⟩ with
  | some text =>
    cases htext' : String.fromUTF8? ⟨key'.toArray⟩ with
    | some text' =>
      rw [htext, htext'] at h
      have hsame : text = text' := by simpa using h
      have hutf8 := (fromUTF8?_eq_some htext).symm.trans
        ((congrArg String.toUTF8 hsame).trans (fromUTF8?_eq_some htext'))
      simpa using congrArg (fun bytes : ByteArray => bytes.data.toList) hutf8
    | none =>
      rw [htext, htext'] at h
      simpa using congrArg (fun s : String => s.toList.head?) h
  | none =>
    cases htext' : String.fromUTF8? ⟨key'.toArray⟩ with
    | some text' =>
      rw [htext, htext'] at h
      simpa using congrArg (fun s : String => s.toList.head?) h
    | none =>
      rw [htext, htext'] at h
      have hencoded : base64.encode key = base64.encode key' := by simpa using h
      apply Option.some_injective
      rw [← base64.decode_encode key, hencoded, base64.decode_encode]

/-! ## Runs -/

section Runs

/-- A command, its two readings of the clock, and the numbers of the engine's transactions. -/
structure Call (ρ : Type) where
  command : Command ρ
  now : Int
  later : Int
  stamps : Nat → TxStamp

/-- The three systems side by side. -/
structure System where
  clock : Int
  durable : DurableStore
  mem : MemStore
  plain : Plain

namespace System

/-- All empty. -/
def initial (clock : Int) : System := ⟨clock, .empty, .empty, fun _ => ∅⟩

/-- The call on each of the three. -/
def step (base64 : Base64) (s : System) (call : Call ρ) : System where
  clock := call.later
  durable := (s.durable.step base64 call.stamps call.command call.now call.later).2
  mem := (s.mem.step base64 call.command call.now call.later).2
  plain := (s.plain.step base64 call.command call.now call.later).2

/-- The commands that do the same in both modes: those that write have a valid key and a record
whose frame is within the limit. -/
def Alike (base64 : Base64) (s : System) (stamps : Nat → TxStamp) (now : Int) : Command ρ → Prop
  | .set db key value expiresAtMs => ValidKey base64 key ∧
      Fits (stamps 0) db (encodeKey base64 key) (.withPayload value
        (s.mem.writtenDeadline db (encodeKey base64 key) expiresAtMs now))
  | .setConditional db key value expiresAtMs condition => ValidKey base64 key ∧
      (condition.holds ((s.mem.live db (encodeKey base64 key) now).map TypedEntry.entry) = true →
        Fits (stamps 0) db (encodeKey base64 key) (.withPayload value
          (s.mem.writtenDeadline db (encodeKey base64 key) expiresAtMs now)))
  | .setExpiry db key deadlineMs =>
      ∀ entry, s.mem.live db (encodeKey base64 key) now = some entry →
        Fits (stamps 0) db (encodeKey base64 key)
          (TypedEntry.record { entry with expiresAtMs := deadlineMs })
  | .incrBy db key delta => ValidKey base64 key ∧
      let live := s.mem.live db (encodeKey base64 key) now
      ∀ updated, incrUpdate delta (live.map (·.value)) = .ok updated →
        Fits (stamps 0) db (encodeKey base64 key)
          (.withPayload updated.1 (live.bind (·.expiresAtMs)))
  | .append db key suffix => ValidKey base64 key ∧
      (∀ entry, (s.mem.maps db).get? (encodeKey base64 key) = some entry → entry.kind = none) ∧
      let live := s.mem.live db (encodeKey base64 key) now
      Fits (stamps 0) db (encodeKey base64 key)
        (.withPayload ((live.map (·.value)).getD [] ++ suffix) (live.bind (·.expiresAtMs)))
  | .msetNx db pairs => (∀ pair ∈ pairs, ValidKey base64 pair.1) ∧ PairsFit base64 stamps db pairs
  | .rename db src dst => ValidKey base64 dst ∧ src ≠ dst ∧
      ∀ entry, s.mem.live db (encodeKey base64 src) now = some entry →
        Fits (stamps 0) db (encodeKey base64 dst) entry.record
  | .sweepExpired => FewDue s.durable.expiry now ∧ FewDue s.mem.expiry now
  | .atomic db execute => execute.PutsValid base64 (stamps 0) db
  | .get _ _ | .ttl _ _ | .keys _ | .delete _ _ | .getDel _ _ | .flushDb _ | .flushAll => True

/-- A call that does the same in both modes, at a time that does not go back. -/
structure Clean (base64 : Base64) (s : System) (call : Call ρ) : Prop where
  forward : s.clock ≤ call.now
  later : call.now ≤ call.later
  alike : s.Alike base64 call.stamps call.now call.command

end System

/-- What a reader of the engine sees. -/
def DurableStore.visible (base64 : Base64) (durable : DurableStore) (db : DbIndex) (key : Bytes)
    (now : Int) : Option TypedEntry :=
  (durable.source base64 db key).filter (memIsLive now)

/-- What a reader of memory sees. -/
def MemStore.visible (base64 : Base64) (mem : MemStore) (db : DbIndex) (key : Bytes) (now : Int) :
    Option TypedEntry :=
  mem.live db (encodeKey base64 key) now

/-- What a reader of the plain map sees. -/
def Plain.visible (base64 : Base64) (plain : Plain) (db : DbIndex) (key : Bytes) (now : Int) :
    Option TypedEntry :=
  ((plain db).get? (encodeKey base64 key)).filter (memIsLive now)

/-- The two modes are in step, and the plain maps have the same live entries from now on. -/
structure System.Agrees (s : System) : Prop where
  inStep : InStep s.durable s.mem
  settles : ∀ db, Settles s.clock (s.mem.maps db) (s.plain db)

section Reads

theorem get_same (h : InStep durable mem) (key : Bytes) :
    durable.get base64 db key now = .ok (mem.get base64 db key now) := by
  have hlive := h.live db (encodeKey base64 key) now
  rw [DurableStore.get, record_eq, MemStore.get, ← hlive]
  cases (durable.engine.records db).get? (encodeKey base64 key) with
  | none => rfl
  | some record => cases hexpired : isExpired now record <;>
      simp [Except.map, Option.filter, hexpired, Record.entry, TypedEntry.entry, Record.typed]

theorem keys_same (h : InStep durable mem) :
    durable.keys base64 db now = .ok (mem.keys base64 db now) := by
  have hscan : absentOk [] (durable.engine.scanCollection db) =
      .ok (durable.engine.records db).entries := by
    unfold Engine.scanCollection Engine.records
    cases durable.engine.collections db <;> rfl
  rw [DurableStore.keys, hscan, MemStore.keys, ← h.mirrors.maps db, OrderedMap.mapValues]
  simp only [Except.map, filter_map, map_map]
  rfl

end Reads

theorem Same.map {α β : Type} {durable : Except CacheError α × DurableStore}
    {mem : Except CacheError α × MemStore} (h : Same durable mem)
    (f : Except CacheError α → Except CacheError β) :
    Same (durable.map f id) (mem.map f id) :=
  ⟨congrArg f h.1, h.2⟩

theorem Same.map_ok {α β : Type} {durable : Except CacheError α × DurableStore} {mem : α × MemStore}
    (h : Same durable (mem.map .ok id)) (f : α → β) :
    Same (durable.map (·.map f) id) (mem.map (fun a => .ok (f a)) id) :=
  h.map (·.map f)

variable {s : System}

/-- **Every command does the same in both modes.** -/
theorem step_same {stamps : Nat → TxStamp} {command : Command ρ} {now later : Int}
    (h : InStep s.durable s.mem) (halike : s.Alike base64 stamps now command) :
    Same (s.durable.step base64 stamps command now later)
      (s.mem.step base64 command now later) := by
  cases command with
  | get db key | ttl db key =>
    simp only [DurableStore.step, step, get_same h]
    exact ⟨rfl, h⟩
  | keys db =>
    simp only [DurableStore.step, step, keys_same h]
    exact ⟨rfl, h⟩
  | set => exact (writeEntry_same h halike.1 fun _ => halike.2).map _
  | setConditional => exact (writeEntry_same h halike.1 halike.2).map _
  | delete db keys => exact (delete_same h keys).map_ok _
  | getDel db key => exact (getDel_same h key).map_ok _
  | setExpiry db key deadlineMs => exact (setExpiry_same h key deadlineMs halike).map_ok _
  | incrBy => exact (numericUpdate_same h halike.1 halike.2).map _
  | append db key suffix => exact (append_same h halike.1 halike.2.1 halike.2.2).map_ok _
  | msetNx => exact (msetNx_same h halike.1 halike.2).map_ok _
  | rename =>
    exact (rename_same h halike.1 (fun hid => halike.2.1 (encodeKey_injective base64 hid))
      halike.2.2).map _
  | flushDb db => exact ⟨rfl, flushDb_same h db⟩
  | flushAll => exact ⟨rfl, flushAll_same s.durable⟩
  | sweepExpired => exact (sweepExpired_same h halike.1 halike.2).map_ok _
  | atomic => exact (atomic_same h halike).map _

theorem System.Alike.untyped {stamps : Nat → TxStamp} {command : Command ρ} {now : Int}
    (h : s.Alike base64 stamps now command) :
    AppendUntyped base64 s.mem command := by
  cases command with
  | append => exact h.2.1
  | _ => trivial

theorem System.Agrees.step {call : Call ρ} (h : s.Agrees) (hclean : s.Clean base64 call) :
    (s.durable.step base64 call.stamps call.command call.now call.later).1 =
        (s.mem.step base64 call.command call.now call.later).1 ∧
      withoutCount (s.mem.step base64 call.command call.now call.later).1 =
        withoutCount (s.plain.step base64 call.command call.now call.later).1 ∧
      InStep (s.step base64 call).durable (s.step base64 call).mem ∧
      ∀ db,
        Settles call.now ((s.step base64 call).mem.maps db) ((s.step base64 call).plain db) := by
  obtain ⟨hreply, hinStep⟩ :=
    @step_same _ base64 s call.stamps call.command call.now call.later h.inStep
    hclean.alike
  obtain ⟨hplain, hsettles⟩ :=
    @memStep_refines _ base64 s.mem call.now call.later s.plain call.command
    (fun db => (h.settles db).mono hclean.forward) hclean.alike.untyped
  exact ⟨hreply, hplain, hinStep, hsettles⟩

theorem agrees_of_reach {start : Int}
    (h : Reach (fun s call => some (s.step base64 call)) (@System.Clean ρ base64)
      (.initial start) s) : s.Agrees := by
  apply h.invariant
  · exact ⟨⟨⟨fun _ => rfl, nofun⟩, ⟨Pairwise.nil, nofun⟩, ⟨Pairwise.nil, nofun⟩⟩, fun _ => .refl⟩
  · rintro s call _ hs hclean ⟨⟩
    obtain ⟨-, -, hinStep, hsettles⟩ := hs.step hclean
    exact ⟨hinStep, fun db => (hsettles db).mono hclean.later⟩

end Runs

/-- Bytes as the characters with their codes, in the place of base 64. -/
instance : Inhabited Base64 where
  default :=
    { encode := fun bytes => String.ofList (bytes.map fun b => Char.ofNat b.toNat)
      decode := fun text => some (text.toList.map fun c => UInt8.ofNat c.toNat)
      decode_encode := by
        intro bytes
        have hbyte : ∀ b : UInt8, UInt8.ofNat (Char.ofNat b.toNat).toNat = b := by
          intro b
          have hvalid : b.toNat.isValidChar := .inl (b.toNat_lt.trans (by decide))
          have hcode : (Char.ofNat b.toNat).toNat = b.toNat := by
            rw [Char.ofNat, dif_pos hvalid]
            rfl
          rw [hcode, UInt8.ofNat_toNat]
        simp [comp_def, hbyte] }

/-- Transactions one after the other, all in one second. -/
def stampOf (n : Nat) : TxStamp := ⟨n, 0, n⟩

end BicDb.Cache
