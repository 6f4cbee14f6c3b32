import BicDb.Broker.System
import BicDb.Broker.Trimmed
import BicDb.Foundation.OrderedMap
import BicDb.Foundation.Run

/-!
# Trimming is transparent

Every call, whichever of its writes fail, leaves a grounded log whose replay is the state in memory
(`Good.run`, `good_of_reach`). A trim of such a log is the state before without the messages up to
the bound, and no call gives a sequence twice.

The main result, `trim_transparent`, is about every state a run can reach and every trim made there:
when there is something to trim, the report names the bound and the number of removed messages, and
the new state is `TrimTransparent`; when the rewrite fails, the old segment or the new one is read
again; when there is nothing to trim, nothing changes.
-/

namespace BicDb.Broker

open BicDb.Foundation BrokerState List GroupState

open scoped List

variable {ν : Type*}

/-! ## Streams -/

/-- A stream whose log is grounded. -/
structure Good (stream : EventStream ν) : Prop extends StreamOk stream where
  grounded : GroundedFrom .default stream.events

variable {stream : EventStream ν}

theorem Good.tidy (h : Good stream) : Tidy stream.brokerState := by
  rw [h.replay]
  exact tidy_default.foldl h.grounded

/-- The event may be appended next. -/
def GroundedNext (stream : EventStream ν) (event : BrokerEvent ν) : Prop :=
  Grounded stream.brokerState ⟨stream.nextId, event⟩

theorem Good.append (h : Good stream) {event : BrokerEvent ν} (hg : GroundedNext stream event) :
    Good (stream.append event) where
  toStreamOk := h.toStreamOk.append event
  grounded := by
    refine groundedFrom_append.2 ⟨h.grounded, ?_, trivial⟩
    have hreplay := h.replay
    rw [rebuild] at hreplay
    rwa [← hreplay]

/-- The stream after a call: good, and no sequence is reused. -/
structure Follows (stream stream' : EventStream ν) : Prop where
  good : Good stream'
  continues : ∀ q, Continues (stream.brokerState.messages q) (stream'.brokerState.messages q)

theorem Good.follows (h : Good stream) : Follows stream stream :=
  ⟨h, fun _ => .refl _⟩

theorem Follows.trans {stream' stream'' : EventStream ν} (h : Follows stream stream')
    (h' : Follows stream' stream'') : Follows stream stream'' :=
  ⟨h'.good, fun q => (h.continues q).trans (h'.continues q)⟩

theorem Good.appendAll (h : Good stream) (writes : Writes) {events : List (BrokerEvent ν)}
    (hchain : Chain GroundedNext stream events) :
    Follows stream (stream.appendAll writes events).1 := by
  have hkeep : ∀ later event, Follows stream later → GroundedNext later event →
      Follows stream (later.append event) := fun later event hinv hg =>
    ⟨hinv.good.append hg, fun q => (hinv.continues q).trans ⟨(messages_apply _ _ q).1, fun e he =>
      ((messages_apply _ _ q).2 e he).imp_right fun ⟨heq, _⟩ => heq ▸ Nat.le_refl _⟩⟩
  exact hchain.appendAll hkeep h.follows writes

/-! ## The bound -/

theorem laterBound_eq_some {a b : Option Nat} {n : Nat} (h : laterBound a b = some n) :
    a = some n ∨ b = some n := by
  cases a with
  | none => exact .inr h
  | some x =>
    cases b with
    | none => exact .inl h
    | some y =>
      cases h
      rcases Nat.le_total x y with hle | hle
      · exact .inr (by rw [Nat.max_eq_right hle])
      · exact .inl (by rw [Nat.max_eq_left hle])

variable {s : BrokerState} {q : String} {through : Nat}

theorem settledThrough_lt (ht : Tidy s) (h : settledThrough s q = some through) :
    through < (s.messages q).nextSequence := by
  obtain ⟨floor, hmin, hfloor⟩ := Option.bind_eq_some_iff.1 h
  split at hfloor
  · cases hfloor
  rename_i hpos
  cases hfloor
  obtain ⟨⟨⟨q', g⟩, gs⟩, hmem, rfl⟩ := mem_map.1 (min?_mem hmin)
  obtain ⟨hgroup, hq⟩ := mem_filter.1 hmem
  obtain rfl : q' = q := by simpa using hq
  have htidy := ht.group q' g gs (AList.mem_lookup_iff.2 hgroup)
  have hle := gs.settled.floor_le_of_contains_lt htidy.settledLt
  have hne : gs.settled.floor ≠ 0 := hpos
  show gs.settled.floor - 1 < _
  omega

theorem firstRemoved_removedIds (h : removedIds stream q through ≠ []) :
    FirstRemoved q (removedIds stream q through) stream.brokerState := by
  unfold removedIds at h ⊢
  cases hentries : (stream.brokerState.messages q).entries with
  | nil => simp [hentries] at h
  | cons e rest =>
    refine ⟨e, rest, hentries, ?_⟩
    by_cases hle : e.1 ≤ through
    · simp [hle]
    · simp [hentries, hle] at h

/-! ## The identifiers of the rewritten log -/

theorem retainEvent_id {removed : List Nat} {stored kept : StoredEvent ν}
    (h : retainEvent q through removed stored = some kept) :
    kept.id = stored.id := by
  unfold retainEvent at h
  split at h
  · obtain ⟨event, -, rfl⟩ := Option.map_eq_some_iff.1 h
    rfl
  · split at h
    · split_ifs at h
      cases h
      rfl
    · split_ifs at h
      cases h
      rfl
    · cases h
      rfl

theorem ids_rewriteTrimmed (q : String) (through : Nat) (removed : List Nat)
    (marker : StoredEvent ν) (placed : Bool) (events : List (StoredEvent ν)) :
    (rewriteTrimmed q through removed marker placed events).map StoredEvent.id <+~
      (if placed then [] else [marker.id]) ++ events.map StoredEvent.id := by
  induction events generalizing placed with
  | nil => exact nil_subperm
  | cons x events ih =>
    cases hretain : retainEvent q through removed x with
    | some kept =>
      simp only [rewriteTrimmed, hretain, map_cons, retainEvent_id hretain]
      exact ((subperm_cons x.id).2 (ih placed)).trans perm_middle.symm.subperm
    | none =>
      have hrest := (ih true).trans (sublist_cons_self x.id _).subperm
      cases placed with
      | true => simpa [rewriteTrimmed, hretain] using hrest
      | false => simpa [rewriteTrimmed, hretain] using (subperm_cons marker.id).2 hrest

/-! ## The messages of a log -/

/-- The key of a message, from its event. -/
def EventStream.keyOf (stream : EventStream ν) (id : Nat) : Option String :=
  (stream.message id).bind fun m => m.2.idempotencyKey

theorem eventById_of_mem {events : List (StoredEvent ν)} (h : (events.map StoredEvent.id).Nodup)
    {stored : StoredEvent ν} (hmem : stored ∈ events) :
    events.find? (fun other => other.id == stored.id) = some stored :=
  (OrderedMap.find?_eq_some_iff_of_nodup h).2 ⟨hmem, rfl⟩

theorem StreamOk.message_of_mem (h : StreamOk stream) {stored : StoredEvent ν}
    (hmem : stored ∈ stream.events) : stream.message stored.id = stored.event.message? := by
  rw [EventStream.message, EventStream.eventById, eventById_of_mem h.idsNodup hmem,
    Option.bind_some]

theorem Good.keyed (h : Good stream) : Keyed stream.keyOf stream.brokerState := by
  rw [h.replay]
  refine keyed_foldl (fun _ _ => rfl) h.grounded fun stored hmem m hm => ?_
  rw [EventStream.keyOf, h.message_of_mem hmem, hm, Option.bind_some]

/-- An event of the rewritten log is the marker, or what an event of the old log became. -/
theorem mem_rewriteTrimmed {removed : List Nat} {marker stored : StoredEvent ν} {placed : Bool}
    {events : List (StoredEvent ν)}
    (h : stored ∈ rewriteTrimmed q through removed marker placed events) :
    stored = marker ∨ ∃ old ∈ events, retainEvent q through removed old = some stored := by
  induction events generalizing placed with
  | nil => cases h
  | cons old events ih =>
    have hrest {placed : Bool}
        (h : stored ∈ rewriteTrimmed q through removed marker placed events) :
        stored = marker ∨
          ∃ old' ∈ old :: events, retainEvent q through removed old' = some stored :=
      (ih h).imp_right fun ⟨old', hmem, heq⟩ => ⟨old', mem_cons_of_mem _ hmem, heq⟩
    cases hretain : retainEvent q through removed old with
    | some kept =>
      simp only [rewriteTrimmed, hretain] at h
      rcases mem_cons.1 h with rfl | h
      · exact .inr ⟨old, mem_cons_self, hretain⟩
      · exact hrest h
    | none =>
      simp only [rewriteTrimmed, hretain] at h
      split at h
      · exact hrest h
      · exact (mem_cons.1 h).elim .inl hrest

theorem retainTrimmedControlEvent_message {removed : List Nat} {event kept : BrokerEvent ν}
    (h : retainTrimmedControlEvent removed event = some kept)
    (hkept : kept.message?.isSome = true) :
    kept = event := by
  cases event with
  | delivered | acked | nacked | deadLettered =>
    simp only [retainTrimmedControlEvent] at h
    split_ifs at h
    cases h
    cases hkept
  | _ =>
    cases h
    rfl

/-- A message that stays is not changed. -/
theorem retainEvent_message {removed : List Nat} {old stored : StoredEvent ν}
    (h : retainEvent q through removed old = some stored)
    (hmessage : stored.event.message?.isSome = true) : stored = old := by
  unfold retainEvent at h
  split at h
  · obtain ⟨event, hevent, rfl⟩ := Option.map_eq_some_iff.1 h
    rw [retainTrimmedControlEvent_message hevent hmessage]
  · split at h
    · split_ifs at h
      exact (Option.some.inj h).symm
    · split_ifs at h
      exact (Option.some.inj h).symm
    · exact (Option.some.inj h).symm

/-! ## A trim -/

/-- The stream once the rewritten log is in place. -/
def EventStream.rewriteTrim (stream : EventStream ν) (q : String) (through : Nat) (now : Int) :
    EventStream ν :=
  ⟨stream.trimmedEvents q through now, .rebuild (stream.trimmedEvents q through now),
    stream.nextId + 1⟩

theorem Good.removes (h : Good stream) (q : String) (through : Nat) :
    Trimmed.Removes q through (removedIds stream q through) stream.brokerState := by
  intro sequence id hmem
  have hqueue := h.tidy.queue q
  have hfront (e : Nat × Nat) := @mem_takeWhile_iff _ (fun entry => decide (entry.1 ≤ through))
    (stream.brokerState.messages q).entries e
    ((pairwise_map.1 (hqueue.sequences ▸ pairwise_lt_range')).imp fun hab hb => by
      rw [decide_eq_true_eq] at hb ⊢
      omega)
  rw [removedIds, mem_map]
  constructor
  · rintro ⟨⟨sequence', id'⟩, he, rfl⟩
    obtain ⟨he, hle⟩ := (hfront _).1 he
    cases inj_on_of_nodup_map hqueue.idsNodup hmem he rfl
    exact of_decide_eq_true hle
  · exact fun hle => ⟨(sequence, id), (hfront _).2 ⟨hmem, decide_eq_true hle⟩, rfl⟩

theorem Good.rewriteTrim (h : Good stream) (now : Int)
    (hremoved : removedIds stream q through ≠ []) :
    Good (stream.rewriteTrim q through now) ∧
      Trimmed q through stream.brokerState (stream.rewriteTrim q through now).brokerState := by
  have hreplay : stream.events.foldl apply .default = stream.brokerState :=
    h.replay.symm
  obtain ⟨hrel, hground⟩ := trimmed_rewriteTrimmed stream.nextId now tidy_default rfl h.grounded
    (by rw [hreplay]; exact h.removes q through)
    (by rw [hreplay]; exact firstRemoved_removedIds hremoved)
  rw [hreplay] at hrel
  -- the identifiers of the rewritten log are below the next one, none of them twice
  have hids := ids_rewriteTrimmed q through (removedIds stream q through)
    ⟨stream.nextId, .queueTrimmed q through now⟩ false stream.events
  have hlt : ∀ id ∈ stream.events.map StoredEvent.id, id < stream.nextId :=
    forall_mem_map.2 h.idLt
  have hnodup : (stream.nextId :: stream.events.map StoredEvent.id).Nodup :=
    nodup_cons.2 ⟨fun hmem => (hlt _ hmem).ne rfl, h.idsNodup⟩
  obtain ⟨ids, hperm, hsub⟩ := hids
  refine ⟨⟨⟨rfl, fun stored hmem => ?_, hperm.nodup_iff.1 (hnodup.sublist hsub)⟩, hground⟩, hrel⟩
  have hid := hsub.subset (hperm.mem_iff.2 (mem_map_of_mem hmem))
  exact Nat.lt_succ_of_le ((mem_cons.1 hid).elim (·.le) fun hold => (hlt _ hold).le)

theorem reopened_eq {events : List (StoredEvent ν)} (h : (events.map StoredEvent.id).Nodup) :
    EventStream.reopened events = .rebuild events := by
  have hloop : ∀ (rest : List (StoredEvent ν)) (seen : List Nat) (s : BrokerState),
      (∀ stored ∈ rest, stored.id ∉ seen) → (rest.map StoredEvent.id).Nodup →
      (rest.foldl (fun (seen : List Nat × BrokerState) stored =>
        if stored.id ∈ seen.1 then seen else (stored.id :: seen.1, seen.2.apply stored))
        (seen, s)).2 = rest.foldl apply s := by
    intro rest
    induction rest with
    | nil => exact fun _ _ _ _ => rfl
    | cons stored rest ih =>
      intro seen s hnew hnodup
      obtain ⟨hfresh, hnodup⟩ := nodup_cons.1 hnodup
      rw [foldl_cons, foldl_cons, if_neg (hnew stored (by simp))]
      refine ih _ _ (fun later hmem hseen => ?_) hnodup
      rcases mem_cons.1 hseen with heq | hseen
      · exact hfresh (heq ▸ mem_map_of_mem hmem)
      · exact hnew later (mem_cons_of_mem _ hmem) hseen
  exact hloop events [] .default (by simp) h

/-- A rewrite ends in the new log, or in the old one with an error. -/
theorem Good.rewriteEventsInPlace (h : Good stream) (rewrite : Rewrite) (now : Int)
    (hremoved : removedIds stream q through ≠ []) :
    stream.rewriteEventsInPlace rewrite (stream.trimmedEvents q through now) (stream.nextId + 1) =
      (if rewrite = .done then .ok () else .error .io,
        if rewrite = .failedBefore then stream else stream.rewriteTrim q through now) := by
  cases rewrite with
  | done => rfl
  | failedBefore =>
    rw [EventStream.rewriteEventsInPlace, reopened_eq h.idsNodup, ← h.replay]
    rfl
  | failedAfter =>
    have hnodup : ((stream.trimmedEvents q through now).map StoredEvent.id).Nodup :=
      (h.rewriteTrim now hremoved).1.idsNodup
    rw [EventStream.rewriteEventsInPlace, reopened_eq hnodup]
    rfl

/-- A report of nothing removed. -/
def TrimReport.idle (result : Except BrokerError TrimReport) : Prop :=
  ∀ report, result = .ok report → report.throughSequence = none

/-- There is something to trim, up to `through`. -/
def TrimsThrough (stream : EventStream ν) (q : String) (now : Int) (through : Nat) : Prop :=
  validateBrokerName "queue" q = .ok () ∧ trimThrough stream q now = some through ∧
    removedIds stream q through ≠ []

theorem trim_of_trimsThrough (h : Good stream) {now : Int} (rewrite : Rewrite)
    (htrims : TrimsThrough stream q now through) :
    trim rewrite q now stream =
      (if rewrite = .done then .ok (stream.trimReport q through) else .error .io,
        if rewrite = .failedBefore then stream else stream.rewriteTrim q through now) := by
  obtain ⟨hname, hthrough, hremoved⟩ := htrims
  have hentries : (stream.brokerState.messages q).entries ≠ [] := by
    intro hempty
    exact hremoved (by rw [removedIds, hempty]; rfl)
  simp only [trim, hname, hthrough, List.isEmpty_iff, hentries, hremoved, if_false,
    h.rewriteEventsInPlace rewrite now hremoved]
  cases rewrite <;> rfl

theorem trim_of_not_trimsThrough (rewrite : Rewrite) (q : String) (now : Int)
    (stream : EventStream ν) (h : ∀ through, ¬ TrimsThrough stream q now through) :
    (trim rewrite q now stream).2 = stream ∧ TrimReport.idle (trim rewrite q now stream).1 := by
  have hidle : TrimReport.idle (.ok ⟨0, 0, none⟩) := by
    rintro report ⟨⟩
    rfl
  unfold trim
  cases hname : validateBrokerName "queue" q with
  | error e => exact ⟨rfl, nofun⟩
  | ok _ =>
    dsimp only
    split
    · exact ⟨rfl, hidle⟩
    cases hthrough : trimThrough stream q now with
    | none => exact ⟨rfl, hidle⟩
    | some through =>
      dsimp only
      split_ifs with hremoved
      · exact ⟨rfl, hidle⟩
      · exact absurd ⟨hname, hthrough, by simpa using hremoved⟩ (h through)

variable {s' : BrokerState}

theorem Trimmed.nextSequence (h : Trimmed q through s s')
    (hlt : through < (s.messages q).nextSequence) :
    (s'.messages q).nextSequence = (s.messages q).nextSequence := by
  rw [h.messages]
  exact Nat.max_eq_left hlt

theorem Trimmed.continues (h : Trimmed q through s s') (q' : String) :
    Continues (s.messages q') (s'.messages q') := by
  by_cases hq : q' = q
  · subst hq
    rw [h.messages]
    exact ⟨Nat.le_max_left _ _, fun e he => .inl (mem_filter.1 he).1⟩
  · exact .of_eq (h.otherMessages q' hq)

theorem Good.trim (h : Good stream) (rewrite : Rewrite) (q : String) (now : Int) :
    Follows stream (trim rewrite q now stream).2 := by
  by_cases htrims : ∃ through, TrimsThrough stream q now through
  · obtain ⟨through, htrims⟩ := htrims
    obtain ⟨hgood, hrel⟩ := h.rewriteTrim now htrims.2.2
    rw [trim_of_trimsThrough h rewrite htrims]
    dsimp only
    split
    · exact h.follows
    · exact ⟨hgood, hrel.continues⟩
  · rw [(trim_of_not_trimsThrough rewrite q now stream (not_exists.1 htrims)).1]
    exact h.follows

/-! ## The other calls -/

theorem Good.exists_event (h : Good stream) {e : Nat × Nat}
    (he : e ∈ (stream.brokerState.messages q).entries) :
    ∃ stored ∈ stream.events, stored.id = e.2 := by
  rw [h.replay] at he
  rcases exists_event_of_mem_entries he with he | ⟨stored, hmem, hid, -⟩
  · cases he
  · exact ⟨stored, hmem, hid⟩

theorem Good.entry_ne_nextId (h : Good stream) {e : Nat × Nat}
    (he : e ∈ (stream.brokerState.messages q).entries) : e.2 ≠ stream.nextId := by
  obtain ⟨stored, hmem, hid⟩ := h.exists_event he
  have := h.idLt stored hmem
  omega

theorem Good.appendPrepared (h : Good stream) (writes : Writes) {id : Nat} {event : BrokerEvent ν}
    (hg : (∀ stored ∈ stream.events, stored.id ≠ id) → Grounded stream.brokerState ⟨id, event⟩) :
    Follows stream (stream.appendPrepared writes id event).1 := by
  have hok := h.toStreamOk.appendPrepared writes id event
  unfold EventStream.appendPrepared at hok ⊢
  split_ifs at hok ⊢ with hold hfail
  · exact h.follows
  · exact h.follows
  · have hreplay := h.replay
    rw [rebuild] at hreplay
    refine ⟨⟨hok, groundedFrom_append.2 ⟨h.grounded, ?_, trivial⟩⟩, fun q => ?_⟩
    · rw [← hreplay]
      exact hg (by simpa using hold)
    · obtain ⟨hmono, hentries⟩ := messages_apply stream.brokerState ⟨id, event⟩ q
      refine ⟨hmono, fun e he => (hentries e he).imp_right fun hnew => ?_⟩
      exact hnew.1 ▸ Nat.le_refl _

theorem Good.publishAppend (h : Good stream) (writes : Writes) (preparedId : Option Nat)
    (q : String) (payload : ν) (options : PublishOptions ν) (now : Int) :
    Follows stream (publishAppend writes preparedId q payload options now stream).2 := by
  rw [publishAppend_stream]
  cases preparedId with
  | none => exact h.appendAll writes ⟨fun _ he => h.entry_ne_nextId he, trivial⟩
  | some id =>
    refine h.appendPrepared writes fun hnew e he => ?_
    obtain ⟨stored, hmem, hid⟩ := h.exists_event he
    exact hid ▸ hnew stored hmem

theorem Good.publishInner (h : Good stream) (writes : Writes) (rewrite : Rewrite) (q : String)
    (payload : ν) (options : PublishOptions ν) (preparedId : Option Nat) (now : Int) :
    Follows stream (publishInner writes rewrite q payload options preparedId now stream).2 := by
  unfold Broker.publishInner
  cases validateBrokerName "queue" q with
  | error e => exact h.follows
  | ok _ =>
    cases options.idempotencyKey.bind fun key =>
        stream.brokerState.idempotency.lookup (q, key) with
    | some found => exact h.follows
    | none =>
      dsimp only
      split
      · have htrim := h.trim rewrite q now
        split
        · rename_i heq
          rwa [heq] at htrim
        · rename_i heq
          rw [heq] at htrim
          exact htrim.trans (htrim.good.publishAppend writes preparedId q payload options now)
      · exact h.publishAppend writes preparedId q payload options now

theorem Good.enqueue (h : Good stream) (writes : Writes) (q : String) (payload : ν)
    (metadata : Option (MessageMeta ν)) (now : Int) :
    Follows stream (enqueue writes q payload metadata now stream) :=
  h.appendAll writes ⟨fun _ he => h.entry_ne_nextId he, trivial⟩

theorem Good.configureQueue (h : Good stream) (writes : Writes) (q : String) (config : QueueConfig)
    (now : Int) :
    Follows stream (configureQueue writes q config now stream).2 := by
  have hchain : Chain GroundedNext stream [.queueConfigured q config now] := ⟨trivial, trivial⟩
  have hfollows := h.appendAll writes hchain
  unfold Broker.configureQueue
  cases validateBrokerName "queue" q with
  | error e => exact h.follows
  | ok _ =>
    dsimp only
    split <;> rename_i heq <;> rwa [heq] at hfollows

theorem groundedNext_deadLettersAllowed :
    DeadLettersAllowed (GroundedNext : EventStream ν → BrokerEvent ν → Prop) := by
  intro stream q g messageId sequence attempts reason atMs gs d hgs hd hseq
  show (stream.brokerState.delivery q g messageId).isSome = true
  rw [delivery, hgs, Option.bind_some, hd]
  rfl

section

variable (h : Good stream)

include h

variable (writes : Writes)

variable (q g consumerId : String)

theorem Good.mem_entries_of_mem_batch {gs : GroupState}
    (hgs : stream.brokerState.group q g = some gs)
    {maxMessages : Nat} {now : Int} {entry : DeliveryEntry}
    (he : entry ∈ (planConsume stream q gs maxMessages now).batch) :
    (entry.sequence, entry.messageId) ∈ (stream.brokerState.messages q).entries := by
  obtain ⟨seen, hplan⟩ := planOk_due stream gs now maxMessages
  obtain ⟨fresh, hbatch, hsub, -⟩ := planFresh_eq stream now maxMessages
    ((stream.brokerState.messages q).entries.dropWhile
      fun entry => decide (entry.1 < gs.nextSequence))
    ((dueDeliveries gs now).foldl (Plan.addDue stream gs maxMessages) ⟨[], []⟩).batch
  rw [planConsume, hbatch] at he
  rcases mem_append.1 he with he | he
  · obtain ⟨d, hd, hseq, -⟩ := (hplan.again entry he).opened
    rw [← hseq]
    exact (h.tidy.group q g gs hgs).opened entry.messageId d hd
  · exact (dropWhile_suffix _).subset (hsub.subset (mem_map_of_mem he))

theorem Good.consumeFrom (options : ConsumeOptions) (now : Int) :
    Follows stream (consumeFrom writes q g consumerId options now stream).2 := by
  rcases consumeFrom_stream stream writes now q g consumerId options with heq | ⟨gs, hgs, heq⟩
  · rw [heq]
    exact h.follows
  · rw [heq]
    refine h.appendAll writes ?_
    obtain ⟨seen, hplan⟩ := planOk_due stream gs now options.maxMessages
    refine chain_deadLetters (fun _ _ _ _ _ => trivial) groundedNext_deadLettersAllowed hgs
      hplan.dead (nodup_append.1 hplan.nodup).2.1 ?_
    intro stream' gs' hgs' hmessages hmessage hnext hopen
    split_ifs with hne
    · trivial
    refine ⟨⟨fun hnil => hne (by simp [hnil]), fun entry he => ?_⟩, trivial⟩
    rw [hmessages]
    exact h.mem_entries_of_mem_batch q g hgs he

theorem Good.consume (options : ConsumeOptions) (now : Int) :
    Follows stream (consume writes q g consumerId options now stream).2 := by
  have hcreated : Chain GroundedNext stream (ensureGroupEvents stream.brokerState q g now) := by
    unfold ensureGroupEvents
    split
    · trivial
    · exact ⟨trivial, trivial⟩
  have hfollows := h.appendAll writes hcreated
  rcases consume_eq stream writes now q g consumerId options with
    ⟨e, heq⟩ | ⟨e, heq⟩ | ⟨later, heq⟩
  · rw [heq]
    exact h.follows
  · rwa [heq]
  · rw [heq]
    exact hfollows.trans (hfollows.good.consumeFrom later q g consumerId options now)

theorem Good.ack (messageId : Nat) (now : Int) :
    Follows stream (ack writes q g consumerId messageId now stream).2 := by
  rcases ack_stream stream writes now q g consumerId messageId with heq | ⟨d, hdelivery, heq⟩
  · rw [heq]
    exact h.follows
  · rw [heq]
    refine h.appendAll writes ?_
    exact ⟨Option.isSome_of_eq_some hdelivery, trivial⟩

theorem Good.nack (messageId : Nat) (options : NackOptions) (now : Int) :
    Follows stream (nack writes q g consumerId messageId options now stream).2 := by
  rcases nack_stream stream writes now q g consumerId messageId options with
    heq | ⟨d, hdelivery, heq⟩
  · rw [heq]
    exact h.follows
  · rw [heq]
    obtain ⟨gs, hgs, hd⟩ := Option.bind_eq_some_iff.1 hdelivery
    refine h.appendAll writes ?_
    unfold nackEvents
    dsimp only
    split
    · rw [← append_nil (deadLetterEvents stream q g now _)]
      exact chain_deadLetter (fun _ _ _ _ _ => trivial) groundedNext_deadLettersAllowed hgs
        ⟨d, hd, rfl⟩ fun _ _ _ _ => trivial
    · exact ⟨Option.isSome_of_eq_some hdelivery, trivial⟩

theorem Good.redrivePublish (q : String) (now : Int) (writes : Writes) (rewrites : List Rewrite)
    (candidates : List (Nat × ν × Option ν)) :
    Follows stream (redrivePublish q now writes rewrites candidates stream).2 := by
  induction candidates generalizing writes rewrites stream with
  | nil => exact h.follows
  | cons candidate rest ih =>
    have hfollows := h.publishInner writes (rewrites.headD .done) q candidate.2.1
      ⟨candidate.2.2, none, none, none⟩ none now
    unfold Broker.redrivePublish publishWith
    split
    · rename_i heq
      rwa [heq] at hfollows
    · rename_i heq
      rw [heq] at hfollows
      exact hfollows.trans (ih hfollows.good (writes.after 1) rewrites.tail)

theorem Good.redriveDeadLetters (rewrites : List Rewrite) (q g : String) (max : Nat) (now : Int) :
    Follows stream (redriveDeadLetters writes rewrites q g max now stream) := by
  unfold Broker.redriveDeadLetters
  split
  · dsimp only
    split
    · exact h.follows
    have hfollows :=
      h.redrivePublish q now writes rewrites ((redriveCandidates stream q g).take max)
    split
    · rename_i heq
      rwa [heq] at hfollows
    · rename_i heq
      rw [heq] at hfollows
      refine hfollows.trans (hfollows.good.appendAll _ ?_)
      exact ⟨trivial, trivial⟩
  · exact h.follows

end

/-! ## Purging -/

/-- A group without its redriven marks. -/
def GroupState.unredriven (gs : GroupState) : GroupState := { gs with redriven := ∅ }

/-- Nothing but the redriven marks differs. -/
structure SameButRedriven (s s' : BrokerState) : Prop where
  queues : s'.queues = s.queues
  idempotency : s'.idempotency = s.idempotency
  configs : s'.configs = s.configs
  groups : ∀ q g, (s'.group q g).map GroupState.unredriven = (s.group q g).map GroupState.unredriven

namespace SameButRedriven

variable {s s' : BrokerState}

theorem messages (h : SameButRedriven s s') (q : String) : s'.messages q = s.messages q := by
  rw [BrokerState.messages, h.queues]
  rfl

theorem delivery (h : SameButRedriven s s') (q g : String) (id : Nat) :
    s'.delivery q g id = s.delivery q g id := by
  have hbind : ∀ s : BrokerState, s.delivery q g id =
      ((s.group q g).map unredriven).bind fun gs => gs.deliveries.lookup id := by
    intro s
    rw [BrokerState.delivery, Option.bind_map]
    rfl
  rw [hbind, hbind, h.groups]

theorem map_unredriven {f : GroupState → GroupState} {a b : Option GroupState}
    (hf : ∀ gs, (f gs).unredriven = (f gs.unredriven).unredriven)
    (h : b.map GroupState.unredriven = a.map GroupState.unredriven) :
    (b.map f).map GroupState.unredriven = (a.map f).map GroupState.unredriven := by
  have hmap : ∀ gs? : Option GroupState, (gs?.map f).map unredriven =
      (gs?.map unredriven).map fun gs => (f gs).unredriven := by
    intro gs?
    cases gs? with
    | none => rfl
    | some gs => exact congrArg some (hf gs)
  rw [hmap, hmap, h]

theorem updateGroup (h : SameButRedriven s s') (q g : String) {f : GroupState → GroupState}
    (hf : ∀ gs, (f gs).unredriven = (f gs.unredriven).unredriven) :
    SameButRedriven (s.updateGroup q g f) (s'.updateGroup q g f) where
  queues := h.queues
  idempotency := h.idempotency
  configs := h.configs
  groups q' g' := by
    rw [group_updateGroup, group_updateGroup]
    split
    · exact map_unredriven hf (h.groups q' g')
    · exact h.groups q' g'

theorem unredriven_settleMessage (messageId : Nat) (sequence : Option Nat) (gs : GroupState) :
    (gs.settleMessage messageId sequence).unredriven =
      (gs.unredriven.settleMessage messageId sequence).unredriven := by
  show (settleMessage messageId sequence gs).unredriven = _
  unfold settleMessage
  show _ = (((((gs.deliveries.lookup messageId).map Delivery.sequence).or sequence).elim _ _ :
    GroupState)).unredriven
  cases ((gs.deliveries.lookup messageId).map Delivery.sequence).or sequence <;> rfl

variable (h : SameButRedriven s s')

include h

theorem apply (stored : StoredEvent ν) : SameButRedriven (s.apply stored) (s'.apply stored) := by
  obtain ⟨id, event⟩ := stored
  cases event with
  | queueMessage q timestamp payload metadata =>
    refine ⟨?_, ?_, h.configs, h.groups⟩
    · simp only [BrokerState.apply, h.messages, h.queues]
    · simp only [BrokerState.apply, h.messages]
      cases metadata.bind MessageMeta.idempotencyKey with
      | none => exact h.idempotency
      | some key => simp only [rememberKey, h.idempotency]
  | queueTrimmed =>
    refine ⟨?_, h.idempotency, h.configs, fun q' g => ?_⟩
    · simp only [BrokerState.apply, h.messages, h.queues]
    · rw [group_apply_trimmed, group_apply_trimmed]
      exact map_unredriven (fun gs => by split <;> rfl) (h.groups q' g)
  | queueConfigured =>
    exact ⟨h.queues, h.idempotency, by simp only [BrokerState.apply, h.configs], h.groups⟩
  | groupCreated q g createdAt =>
    have hqueues : ∀ s : BrokerState,
        (s.apply (⟨id, .groupCreated q g createdAt⟩ : StoredEvent ν)).queues = s.queues := by
      intro s
      simp only [BrokerState.apply]
      split <;> rfl
    refine ⟨by rw [hqueues, hqueues, h.queues], ?_, ?_, fun q' g' => ?_⟩
    · simpa only [idempotency_apply_created] using h.idempotency
    · simpa only [configs_apply_created] using h.configs
    · rw [group_apply_created, group_apply_created]
      split
      · have hgroup := h.groups q g
        rw [h.messages]
        cases hgs : s.group q g with
        | none =>
          rw [hgs, Option.map_none, Option.map_eq_none_iff] at hgroup
          rw [hgroup]
        | some gs =>
          rw [hgs, Option.map_some, Option.map_eq_some_iff] at hgroup
          obtain ⟨gs', hgs', heq⟩ := hgroup
          rw [hgs']
          exact congrArg some heq
      · exact h.groups q' g'
  | delivered q g consumerId deliveredAt deadline batch =>
    refine h.updateGroup q g fun gs => ?_
    induction batch generalizing gs with
    | nil => rfl
    | cons entry batch ih =>
      rw [foldl_cons, foldl_cons, ih (gs.deliver consumerId deliveredAt deadline entry),
        ih (gs.unredriven.deliver consumerId deliveredAt deadline entry)]
      rfl
  | acked | deadLettered => exact h.updateGroup _ _ (unredriven_settleMessage _ _)
  | nacked | redriven => exact h.updateGroup _ _ fun _ => rfl
  | deadLetteredMessage | other => exact h

theorem purged {stored : StoredEvent ν} {q g : String} (hpurged : stored.event.purged q g = true) :
    SameButRedriven (s.apply stored) s' := by
  obtain ⟨id, event⟩ := stored
  cases event with
  | redriven =>
    refine ⟨h.queues, h.idempotency, h.configs, fun q' g' => (h.groups q' g').trans ?_⟩
    refine Eq.trans ?_ (congrArg _ (group_updateGroup ..).symm)
    split
    · cases s.group q' g' <;> rfl
    · rfl
  | deadLetteredMessage => exact h
  | _ => cases hpurged

theorem grounded {stored : StoredEvent ν} (hg : Grounded s stored) : Grounded s' stored := by
  obtain ⟨id, event⟩ := stored
  cases event with
  | queueMessage =>
    intro e he
    rw [h.messages] at he
    exact hg e he
  | queueTrimmed q => exact (congrArg _ (h.messages q)).trans hg
  | delivered =>
    refine ⟨hg.1, ?_⟩
    rw [h.messages]
    exact hg.2
  | acked | nacked | deadLettered => exact (congrArg _ (h.delivery _ _ _)).trans hg
  | _ => trivial

theorem foldl {events : List (StoredEvent ν)} (hg : GroundedFrom s events) (q g : String) :
    SameButRedriven (events.foldl BrokerState.apply s)
        ((events.filter fun stored => !stored.event.purged q g).foldl BrokerState.apply s') ∧
      GroundedFrom s' (events.filter fun stored => !stored.event.purged q g) := by
  induction events generalizing s s' with
  | nil => exact ⟨h, trivial⟩
  | cons stored events ih =>
    by_cases hpurged : stored.event.purged q g = true
    · rw [filter_cons_of_neg (by simpa using hpurged)]
      exact ih (h.purged hpurged) hg.2
    · rw [filter_cons_of_pos (by simpa using hpurged)]
      obtain ⟨hrel, hrest⟩ := ih (h.apply stored) hg.2
      exact ⟨hrel, h.grounded hg.1, hrest⟩

end SameButRedriven

theorem Good.purgeDeadLetters (h : Good stream) (rewrite : Rewrite) (q g : String) :
    Follows stream (purgeDeadLetters rewrite q g stream).2 := by
  unfold Broker.purgeDeadLetters
  cases validateBrokerName "queue" q with
  | error e => exact h.follows
  | ok _ =>
    cases validateBrokerName "group" g with
    | error e => exact h.follows
    | ok _ =>
      dsimp only
      split
      · exact h.follows
      split
      · exact h.follows
      have hstart : SameButRedriven .default .default := ⟨rfl, rfl, rfl, fun _ _ => rfl⟩
      obtain ⟨hrel, hground⟩ := hstart.foldl h.grounded q g
      have hreplay : stream.events.foldl apply .default = stream.brokerState :=
        h.replay.symm
      rw [hreplay] at hrel
      refine ⟨⟨⟨rfl, fun stored hmem => h.idLt stored (mem_filter.1 hmem).1, ?_⟩,
        hground⟩, fun q' => .of_eq (hrel.messages q')⟩
      exact (filter_sublist.map _).nodup h.idsNodup

/-! ## Runs -/

theorem Good.run (h : Good stream) (a : Action ν) :
    Follows stream (a.run stream) := by
  obtain ⟨call, now, writes, rewrites⟩ := a
  cases call with
  | publish q payload options => exact h.publishInner writes _ q payload options none now
  | publishPrepared messageId q payload options =>
    exact h.publishInner writes .done q payload options (some messageId) now
  | enqueue q payload metadata => exact h.enqueue writes q payload metadata now
  | consume q g consumerId options => exact h.consume writes q g consumerId options now
  | ack q g consumerId messageId => exact h.ack writes q g consumerId messageId now
  | nack q g consumerId messageId options =>
    exact h.nack writes q g consumerId messageId options now
  | configure q config => exact h.configureQueue writes q config now
  | trim q => exact h.trim _ q now
  | redrive q g max => exact h.redriveDeadLetters writes rewrites q g max now
  | purge q g => exact h.purgeDeadLetters _ q g

theorem good_of_reach {clock : Int} {s : System ν}
    (h : Reach step (fun _ _ => True) (System.initial ν clock) s) : Good s.stream := by
  refine h.invariant (fun s => Good s.stream) ?_ ?_
  · exact ⟨⟨rfl, by simp [System.initial, EventStream.empty], nodup_nil⟩, trivial⟩
  intro s a s' hgood _ hstep
  unfold step at hstep
  split at hstep
  · cases hstep
  · cases hstep
    exact (hgood.run a).good

/-! ## Transparency -/

/-- A group after a trim, compared with the group before. -/
structure GroupTransparent (through : Nat) (gs gs' : GroupState) : Prop where
  createdAt : gs'.createdAt = gs.createdAt
  redriven : gs'.redriven = gs.redriven
  settled : ∀ n, gs'.settled.Contains n ↔ gs.settled.Contains n ∨ n ≤ through
  deliveries : ∀ id, gs'.deliveries.lookup id =
    (gs.deliveries.lookup id).filter fun d => decide (through < d.sequence)
  handedOut : ∀ sequence, through < sequence →
    (sequence < gs'.nextSequence ↔ sequence < gs.nextSequence)

/-- **The state before, without the messages of `q` up to `through`.** A key names the first
survivor that carries it: the message it had, or where that one is gone, the next. -/
structure TrimTransparent (q : String) (through : Nat) (stream : EventStream ν)
    (s' : BrokerState) : Prop where
  entries : (s'.messages q).entries =
    (stream.brokerState.messages q).entries.filter fun entry => decide (through < entry.1)
  nextSequence : (s'.messages q).nextSequence = (stream.brokerState.messages q).nextSequence
  groups : ∀ g, (stream.brokerState.group q g = none ∧ s'.group q g = none) ∨
    ∃ gs gs', stream.brokerState.group q g = some gs ∧ s'.group q g = some gs' ∧
      GroupTransparent through gs gs'
  keysKept : ∀ key found, stream.brokerState.idempotency.lookup (q, key) = some found →
    through < found.2 → s'.idempotency.lookup (q, key) = some found
  keys : ∀ key, s'.idempotency.lookup (q, key) =
    (((stream.brokerState.messages q).entries.filter fun entry => decide (through < entry.1)).find?
      fun entry => stream.keyOf entry.2 = some key).map Prod.swap
  configs : s'.configs = stream.brokerState.configs
  otherMessages : ∀ q', q' ≠ q → s'.messages q' = stream.brokerState.messages q'
  otherGroups : ∀ q', q' ≠ q → ∀ g, s'.group q' g = stream.brokerState.group q' g
  otherKeys : ∀ q', q' ≠ q → ∀ key,
    s'.idempotency.lookup (q', key) = stream.brokerState.idempotency.lookup (q', key)

theorem GroupTrimmed.transparent {gs gs' : GroupState} (h : GroupTrimmed through gs gs') :
    GroupTransparent through gs gs' where
  createdAt := h.createdAt
  redriven := h.redriven
  settled n := by rw [h.settled, Watermark.contains_raise]
  deliveries := h.deliveries
  handedOut sequence hlt := by
    have := h.next
    omega

/-- The bound of a trim is below the next sequence. -/
theorem trimThrough_lt (h : Good stream) {now : Int}
    (hthrough : trimThrough stream q now = some through) :
    through < (stream.brokerState.messages q).nextSequence := by
  have hentry : (∃ id, (through, id) ∈ (stream.brokerState.messages q).entries) →
      through < (stream.brokerState.messages q).nextSequence :=
    fun ⟨_, hmem⟩ => (h.tidy.queue q).lt_next hmem
  rcases laterBound_eq_some hthrough with hsettled | hpolicy
  · exact settledThrough_lt h.tidy hsettled
  rcases laterBound_eq_some hpolicy with hcount | hage
  · obtain ⟨maxMessages, -, hcount⟩ := Option.bind_eq_some_iff.1 hcount
    unfold countThrough at hcount
    split at hcount
    · obtain ⟨e, he, rfl⟩ := Option.map_eq_some_iff.1 hcount
      exact hentry ⟨e.2, mem_of_getElem? he⟩
    · cases hcount
  · obtain ⟨maxAge, -, hage⟩ := Option.bind_eq_some_iff.1 hage
    obtain ⟨e, he, rfl⟩ := Option.map_eq_some_iff.1 hage
    exact hentry ⟨e.2, (takeWhile_sublist _).subset (mem_of_getLast? he)⟩

/-- A survivor has the key it had. -/
theorem Good.keyOf_rewriteTrim (h : Good stream) {now : Int}
    (hremoved : removedIds stream q through ≠ []) {e : Nat × Nat}
    (he : e ∈ ((stream.rewriteTrim q through now).brokerState.messages q).entries) :
    (stream.rewriteTrim q through now).keyOf e.2 = stream.keyOf e.2 := by
  have hgood := (h.rewriteTrim now hremoved).1
  have hreplay := hgood.replay
  rw [hreplay] at he
  rcases exists_event_of_mem_entries he with he | ⟨stored, hmem, hid, hmessage⟩
  · cases he
  rcases mem_rewriteTrimmed hmem with rfl | ⟨old, hold, hretain⟩
  · cases hmessage
  · obtain rfl := retainEvent_message hretain hmessage
    rw [EventStream.keyOf, EventStream.keyOf, ← hid, hgood.message_of_mem hmem,
      h.message_of_mem hold]

/-- Trimming a good stream is transparent. -/
theorem Good.transparent (h : Good stream) {now : Int}
    (htrims : TrimsThrough stream q now through) :
    TrimTransparent q through stream (stream.rewriteTrim q through now).brokerState := by
  obtain ⟨hgood, hrel⟩ := h.rewriteTrim now htrims.2.2
  have hentries : ((stream.rewriteTrim q through now).brokerState.messages q).entries =
      (stream.brokerState.messages q).entries.filter fun entry => decide (through < entry.1) := by
    rw [hrel.messages]
  have hkeys : ∀ key, (stream.rewriteTrim q through now).brokerState.idempotency.lookup (q, key) =
      (((stream.brokerState.messages q).entries.filter fun entry =>
        decide (through < entry.1)).find? fun entry => stream.keyOf entry.2 = some key).map
          Prod.swap := by
    intro key
    rw [hgood.keyed q key, ← hentries, ← head?_filter, ← head?_filter,
      filter_congr fun e he => by rw [h.keyOf_rewriteTrim htrims.2.2 he]]
  refine ⟨hentries, hrel.nextSequence (trimThrough_lt h htrims.2.1), fun g => ?_,
    fun key found hfound hlt => ?_, hkeys, hrel.configs, hrel.otherMessages, hrel.otherGroups,
    hrel.otherIdempotency⟩
  · cases hgs : stream.brokerState.group q g with
    | none => exact .inl ⟨rfl, hrel.absent g hgs⟩
    | some gs =>
      obtain ⟨gs', hgs', hgroup⟩ := hrel.present g gs hgs
      exact .inr ⟨gs, gs', rfl, hgs', hgroup.transparent⟩
  · rw [h.keyed q key] at hfound
    obtain ⟨e, he, rfl⟩ := Option.map_eq_some_iff.1 hfound
    rw [hkeys, find?_filter]
    obtain ⟨hkey, before, after, heq, hbefore⟩ := find?_eq_some_iff_append.1 he
    refine Option.map_eq_some_iff.2
      ⟨e, find?_eq_some_iff_append.2 ⟨?_, before, after, heq, ?_⟩, rfl⟩
    · simpa using ⟨hlt, by simpa using hkey⟩
    · intro other hmem
      have := hbefore other hmem
      simp only [Bool.not_eq_true', decide_eq_false_iff_not] at this
      simp [this]

/-- A trim counts the messages it removes. -/
theorem Good.removedMessages_trimReport (h : Good stream) (q : String) (through : Nat) :
    (stream.trimReport q through).removedMessages = (removedIds stream q through).length := by
  have hdropped : ∀ stored : StoredEvent ν, (stored.event.isQueueMessage &&
      (retainEvent q through (removedIds stream q through) stored).isNone) =
        (stored.event.isMessageOf q && (removedIds stream q through).contains stored.id) := by
    rintro ⟨id, event⟩
    cases event with
    | queueMessage q' =>
      by_cases hq : q' = q <;> by_cases hmem : id ∈ removedIds stream q through <;>
        simp [retainEvent, BrokerEvent.groupQueue, BrokerEvent.isMessageOf,
          BrokerEvent.isQueueMessage, hq, hmem]
    | _ => rfl
  have hids : ((stream.brokerState.messages q).entries.map Prod.snd) =
      (stream.events.filter fun stored => stored.event.isMessageOf q).map StoredEvent.id := by
    have hreplay := ids_foldl h.grounded q
    rwa [← rebuild, ← h.replay] at hreplay
  have hsplit : (stream.brokerState.messages q).entries.map Prod.snd =
      removedIds stream q through ++ ((stream.brokerState.messages q).entries.dropWhile
        fun entry => decide (entry.1 ≤ through)).map Prod.snd := by
    rw [removedIds, ← map_append, takeWhile_append_dropWhile]
  have hnodup := hsplit ▸ (h.tidy.queue q).idsNodup
  calc (stream.trimReport q through).removedMessages
      = stream.events.countP fun stored => stored.event.isMessageOf q &&
          (removedIds stream q through).contains stored.id := by
        simp only [EventStream.trimReport, countP_filter, hdropped]
    _ = ((stream.brokerState.messages q).entries.map Prod.snd).countP
          fun id => (removedIds stream q through).contains id := by
        rw [hids, countP_map, countP_filter]
        exact congrArg₂ _ (funext fun _ => Bool.and_comm _ _) rfl
    _ = (removedIds stream q through).length := by
        rw [hsplit, countP_append, countP_eq_length.2 fun id hmem => contains_iff_mem.2 hmem,
          countP_eq_zero.2, Nat.add_zero]
        exact fun id hmem hold =>
          (nodup_append.1 hnodup).2.2 id (contains_iff_mem.1 hold) id hmem rfl

/-- **Trimming is transparent**, in every reachable state, in memory and on disk; and sequences go
on. -/
theorem trim_transparent {clock : Int} {s : System ν}
    (h : Reach step (fun _ _ => True) (System.initial ν clock) s) (rewrite : Rewrite) (q : String)
    (now : Int) :
    ((trim rewrite q now s.stream).2.brokerState = .rebuild (trim rewrite q now s.stream).2.events ∧
      EventStream.reopened (trim rewrite q now s.stream).2.events =
        (trim rewrite q now s.stream).2.brokerState) ∧
      (∀ through, TrimsThrough s.stream q now through →
        (rewrite = .done → ∃ removedControlEvents, (trim rewrite q now s.stream).1 =
          .ok ⟨(removedIds s.stream q through).length, removedControlEvents, some through⟩) ∧
        (rewrite ≠ .done → (trim rewrite q now s.stream).1 = .error .io) ∧
        (rewrite = .failedBefore → (trim rewrite q now s.stream).2 = s.stream) ∧
        (rewrite ≠ .failedBefore →
          TrimTransparent q through s.stream (trim rewrite q now s.stream).2.brokerState)) ∧
      ((∀ through, ¬ TrimsThrough s.stream q now through) →
        (trim rewrite q now s.stream).2 = s.stream ∧
          TrimReport.idle (trim rewrite q now s.stream).1) ∧
      ∀ (a : Action ν) (s' : System ν), step s a = some s' →
        ∀ q', Continues (s.stream.brokerState.messages q') (s'.stream.brokerState.messages q') := by
  have hgood := good_of_reach h
  have hafter := (hgood.trim rewrite q now).good
  refine ⟨⟨hafter.replay, (reopened_eq hafter.idsNodup).trans hafter.replay.symm⟩,
    fun through htrims => ?_, trim_of_not_trimsThrough rewrite q now s.stream, ?_⟩
  · rw [trim_of_trimsThrough hgood rewrite htrims]
    refine ⟨fun hdone => ?_, fun hfailed => if_neg hfailed, fun hbefore => if_pos hbefore,
      fun hplaced => ?_⟩
    · rw [if_pos hdone, ← hgood.removedMessages_trimReport q through]
      exact ⟨_, rfl⟩
    · dsimp only
      rw [if_neg hplaced]
      exact hgood.transparent htrims
  · intro a s' hstep q'
    unfold step at hstep
    split at hstep
    · cases hstep
    · cases hstep
      exact (hgood.run a).continues q'

/-- Three messages in `q`, the first and the last under one key, and one in `r`; the first of `q` is
acked, the second open, and a trim has failed. -/
def settledRun : List (Action Unit) :=
  [⟨.publish "q" () ⟨none, some "k", none, none⟩, 0, none, []⟩,
    ⟨.publish "r" () ⟨none, none, none, none⟩, 1, none, []⟩,
    ⟨.publishPrepared 9 "q" () ⟨none, none, none, none⟩, 2, none, []⟩,
    ⟨.enqueue "q" () (some ⟨none, none, none, none, some "k"⟩), 3, none, []⟩,
    ⟨.consume "q" "g" "c" ⟨2, 10⟩, 4, none, []⟩, ⟨.ack "q" "g" "c" 0, 5, none, []⟩,
    ⟨.trim "q", 6, none, [.failedBefore]⟩]

/-- Transparency at a trim that removes the acked message, after one that failed; its key goes to
the message of the plain queue. -/
theorem trim_transparent_settledRun :
    ∃ s : System Unit, Reach step (fun _ _ => True) (System.initial Unit 0) s ∧
      TrimsThrough s.stream "q" 7 0 ∧ removedIds s.stream "q" 0 = [0] ∧
      s.stream.brokerState.idempotency.lookup ("q", "k") = some (0, 0) ∧
      (trim .done "q" 7 s.stream).2.brokerState.idempotency.lookup ("q", "k") = some (10, 2) ∧
      TrimTransparent "q" 0 s.stream (trim .done "q" 7 s.stream).2.brokerState := by
  obtain ⟨s, hreach, hthrough, hremoved, hbefore, hafter⟩ : ∃ s : System Unit,
      Reach step (fun _ _ => True) (System.initial Unit 0) s ∧
        trimThrough s.stream "q" 7 = some 0 ∧ removedIds s.stream "q" 0 = [0] ∧
        s.stream.brokerState.idempotency.lookup ("q", "k") = some (0, 0) ∧
        (trim .done "q" 7 s.stream).2.brokerState.idempotency.lookup ("q", "k") = some (10, 2) :=
    exists_reach settledRun (by decide +kernel)
  have htrims : TrimsThrough s.stream "q" 7 0 :=
    ⟨if_neg (by decide +kernel), hthrough, by rw [hremoved]; exact cons_ne_nil _ _⟩
  exact ⟨s, hreach, htrims, hremoved, hbefore, hafter,
    ((trim_transparent hreach .done "q" 7).2.1 0 htrims).2.2.2 nofun⟩

end BicDb.Broker
