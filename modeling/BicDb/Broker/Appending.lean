import BicDb.Broker.Operations

/-!
# Appending events

Which events an append leaves when it fails half way, that a message stays where it is, what a
consume plans, and that a series of dead letters finds each delivery open.
-/

namespace BicDb.Broker

open BicDb.Foundation EventStream List

variable {ν : Type*}

/-! ## Replay and identifiers -/

/-- The state is the replay of the log, whose ids are distinct and below `nextId`. -/
structure StreamOk (stream : EventStream ν) : Prop where
  replay : stream.brokerState = .rebuild stream.events
  idLt : ∀ stored ∈ stream.events, stored.id < stream.nextId
  idsNodup : (stream.events.map StoredEvent.id).Nodup

variable {stream : EventStream ν}

theorem StreamOk.append (h : StreamOk stream) (event : BrokerEvent ν) :
    StreamOk (stream.append event) where
  replay := by simp [EventStream.append, h.replay]
  idLt := forall_mem_append.2 ⟨fun stored hmem => Nat.lt_succ_of_lt (h.idLt stored hmem),
    forall_mem_singleton.2 (Nat.lt_succ_self _)⟩
  idsNodup := by
    rw [EventStream.append, map_append, map_singleton, ← concat_eq_append]
    refine Nodup.concat (fun hmem => ?_) h.idsNodup
    obtain ⟨stored, hmem, heq⟩ := mem_map.1 hmem
    exact (h.idLt stored hmem).ne heq

theorem StreamOk.appendPrepared (h : StreamOk stream) (writes : Writes) (id : Nat)
    (event : BrokerEvent ν) : StreamOk (stream.appendPrepared writes id event).1 := by
  unfold EventStream.appendPrepared
  split_ifs with hold hfail
  · exact h
  · exact h
  · have hnew : ∀ stored ∈ stream.events, stored.id ≠ id := by simpa using hold
    refine ⟨by simp [h.replay], forall_mem_append.2 ⟨fun stored hmem =>
      Nat.lt_of_lt_of_le (h.idLt stored hmem) (Nat.le_max_left _ _),
      forall_mem_singleton.2 (Nat.le_max_right _ _)⟩, ?_⟩
    rw [map_append, map_singleton, ← concat_eq_append]
    refine Nodup.concat (fun hmem => ?_) h.idsNodup
    obtain ⟨stored, hmem, heq⟩ := mem_map.1 hmem
    exact hnew stored hmem heq

theorem EventStream.brokerState_append (event : BrokerEvent ν) :
    (stream.append event).brokerState = stream.brokerState.apply ⟨stream.nextId, event⟩ := rfl

theorem EventStream.message_append {id : Nat} {m : ν × MessageFields ν}
    (h : stream.message id = some m) (event : BrokerEvent ν) :
    (stream.append event).message id = some m := by
  unfold message eventById at h ⊢
  cases hfind : stream.events.find? (fun stored => stored.id == id) with
  | none => simp [hfind] at h
  | some stored => simpa [append, find?_append, hfind] using h

/-! ## Appending several events -/

theorem EventStream.appendAll_nil (stream : EventStream ν) (writes : Writes) :
    stream.appendAll writes [] = (stream, true) := by
  cases writes with
  | none => rfl
  | some n => cases n <;> rfl

/-- Each event meets `P` in the stream after those before it. -/
def Chain (P : EventStream ν → BrokerEvent ν → Prop) : EventStream ν → List (BrokerEvent ν) → Prop
  | _, [] => True
  | stream, event :: rest => P stream event ∧ Chain P (stream.append event) rest

/-- What one append keeps, a chain of appends keeps, however far it comes. -/
theorem Chain.appendAll {P : EventStream ν → BrokerEvent ν → Prop} {Inv : EventStream ν → Prop}
    (hkeep : ∀ stream event, Inv stream → P stream event → Inv (stream.append event))
    {events : List (BrokerEvent ν)} (h : Inv stream) (hchain : Chain P stream events)
    (writes : Writes) :
    Inv (stream.appendAll writes events).1 := by
  induction events generalizing stream writes with
  | nil => rwa [appendAll_nil]
  | cons event rest ih =>
    have hnext := hkeep stream event h hchain.1
    cases writes with
    | none => exact ih hnext hchain.2 none
    | some n =>
      cases n with
      | zero => exact h
      | succ n => exact ih hnext hchain.2 (some n)

theorem appendAll_concat (stream : EventStream ν) (writes : Writes)
    (events : List (BrokerEvent ν)) (event : BrokerEvent ν) :
    stream.appendAll writes (events ++ [event]) = ((stream.appendAll writes events).1, false) ∨
      stream.appendAll writes (events ++ [event]) =
        ((stream.appendAll writes events).1.append event, true) := by
  induction events generalizing stream writes with
  | nil =>
    match writes with
    | none => exact .inr rfl
    | some 0 => exact .inl rfl
    | some (n + 1) => exact .inr (appendAll_nil _ (some n))
  | cons first rest ih =>
    match writes with
    | none => exact ih _ none
    | some 0 => exact .inl rfl
    | some (n + 1) => exact ih _ (some n)

/-! ## What an event does to the parts of a state -/

namespace BrokerState

open Table

theorem messages_insert (s : BrokerState) (q q' : String) (m : QueueMessages)
    (groups : Table (String × String) GroupState)
    (idempotency : Table (String × String) (Nat × Nat)) (configs : Table String QueueConfig) :
    (⟨s.queues.insert q m, groups, idempotency, configs⟩ : BrokerState).messages q' =
      if q' = q then m else s.messages q' := by
  simp only [messages, lookup_insert_eq]
  split <;> rfl

section Events

variable (s : BrokerState) (id : Nat)

theorem messages_apply_message (q q' : String) (timestamp : Int) (payload : ν)
    (metadata : Option (MessageMeta ν)) :
    (s.apply ⟨id, .queueMessage q timestamp payload metadata⟩).messages q' =
      if q' = q then
        ⟨(s.messages q).entries ++ [((s.messages q).nextSequence, id)],
          (s.messages q).nextSequence + 1⟩
      else s.messages q' :=
  messages_insert ..

theorem messages_apply_trimmed (q q' : String) (through : Nat) (atMs : Int) :
    (s.apply (⟨id, .queueTrimmed q through atMs⟩ : StoredEvent ν)).messages q' =
      if q' = q then
        ⟨(s.messages q).entries.filter fun entry => decide (through < entry.1),
          max (s.messages q).nextSequence (through + 1)⟩
      else s.messages q' :=
  messages_insert ..

theorem group_apply_trimmed (q q' g : String) (through : Nat) (atMs : Int) :
    (s.apply (⟨id, .queueTrimmed q through atMs⟩ : StoredEvent ν)).group q' g =
      (s.group q' g).map fun gs => if q' = q then gs.applyTrim through else gs :=
  lookup_mapValues ..

theorem messages_apply_created (q g q' : String) (createdAt : Int) :
    (s.apply (⟨id, .groupCreated q g createdAt⟩ : StoredEvent ν)).messages q' = s.messages q' := by
  simp only [apply]
  split <;> rfl

theorem group_apply_created (q g q' g' : String) (createdAt : Int) :
    (s.apply (⟨id, .groupCreated q g createdAt⟩ : StoredEvent ν)).group q' g' =
      if q' = q ∧ g' = g then
        some ((s.group q g).getD (GroupState.new createdAt (startOf (s.messages q))))
      else s.group q' g' := by
  simp only [apply]
  by_cases hkey : q' = q ∧ g' = g
  · obtain ⟨rfl, rfl⟩ := hkey
    refine Eq.trans ?_ (if_pos ⟨rfl, rfl⟩).symm
    cases hgs : s.group q' g' with
    | none =>
      exact (lookup_insert_eq ..).trans (if_pos rfl)
    | some gs => simpa using hgs
  · rw [if_neg hkey]
    split
    · rfl
    · refine (lookup_insert_eq ..).trans (if_neg ?_)
      simpa using hkey

theorem idempotency_apply_created (q g : String) (createdAt : Int) :
    (s.apply (⟨id, .groupCreated q g createdAt⟩ : StoredEvent ν)).idempotency = s.idempotency := by
  simp only [apply]
  split <;> rfl

theorem configs_apply_created (q g : String) (createdAt : Int) :
    (s.apply (⟨id, .groupCreated q g createdAt⟩ : StoredEvent ν)).configs = s.configs := by
  simp only [apply]
  split <;> rfl

/-- A key keeps the message it has; a key not in use takes the new one. -/
theorem idempotency_apply_message (q : String) (timestamp : Int) (payload : ν)
    (metadata : Option (MessageMeta ν)) (q' key : String) :
    (s.apply ⟨id, .queueMessage q timestamp payload metadata⟩).idempotency.lookup (q', key) =
      (s.idempotency.lookup (q', key)).or
        (if q' = q ∧ metadata.bind MessageMeta.idempotencyKey = some key then
          some (id, (s.messages q).nextSequence)
        else none) := by
  dsimp only [apply]
  cases metadata.bind MessageMeta.idempotencyKey with
  | none => simp [rememberKey]
  | some k =>
    simp only [rememberKey, Option.some.injEq]
    by_cases hsame : q' = q ∧ k = key
    · obtain ⟨rfl, rfl⟩ := hsame
      cases hfound : s.idempotency.lookup (q', k) with
      | none => simp
      | some found => simp [hfound]
    · rw [if_neg hsame, Option.or_none]
      split
      · rfl
      · rw [lookup_insert_eq, if_neg]
        rintro ⟨⟩
        exact hsame ⟨rfl, rfl⟩

end Events

end BrokerState

/-! ## Open deliveries -/

/-- The open delivery of a message. -/
def BrokerState.delivery (s : BrokerState) (q g : String) (id : Nat) : Option Delivery :=
  (s.group q g).bind fun gs => gs.deliveries.lookup id

variable {g : GroupState}

theorem settleMessage_of_lookup {id : Nat} {d : Delivery} (hd : g.deliveries.lookup id = some d)
    (sequence : Option Nat) :
    g.settleMessage id sequence =
      { g with deliveries := g.deliveries.erase id, settled := g.settled.add d.sequence } := by
  simp [GroupState.settleMessage, hd, GroupState.settle]

theorem checkInFlight_ok {s : BrokerState} {q g consumerId : String} {messageId : Nat}
    {d : Delivery} (h : checkInFlight s q g consumerId messageId = .ok d) :
    s.delivery q g messageId = some d := by
  unfold checkInFlight at h
  split at h
  · cases h
  · rename_i hd
    split at h
    · cases h
    · split_ifs at h
      · cases h
        exact hd

/-! ## What the calls append -/

section Calls

variable (stream : EventStream ν) (writes : Writes) (now : Int)

variable (q g consumerId : String)

theorem ack_stream (messageId : Nat) : (ack writes q g consumerId messageId now stream).2 = stream ∨
      ∃ d, stream.brokerState.delivery q g messageId = some d ∧
        (ack writes q g consumerId messageId now stream).2 =
          (stream.appendAll writes [.acked q g consumerId messageId (some d.sequence) now]).1 := by
  unfold ack
  cases hcheck : checkInFlight stream.brokerState q g consumerId messageId with
  | error e => exact .inl rfl
  | ok d => exact .inr ⟨d, checkInFlight_ok hcheck, rfl⟩

theorem nack_stream (messageId : Nat) (options : NackOptions) :
    (nack writes q g consumerId messageId options now stream).2 = stream ∨
      ∃ d, stream.brokerState.delivery q g messageId = some d ∧
        (nack writes q g consumerId messageId options now stream).2 =
          (stream.appendAll writes
            (nackEvents stream q g consumerId messageId options now d)).1 := by
  unfold nack
  cases hcheck : checkInFlight stream.brokerState q g consumerId messageId with
  | error e => exact .inl rfl
  | ok d => exact .inr ⟨d, checkInFlight_ok hcheck, rfl⟩

theorem publishAppend_stream (preparedId : Option Nat) (q : String) (payload : ν)
    (options : PublishOptions ν) :
    (publishAppend writes preparedId q payload options now stream).2 =
      (preparedId.elim
        (stream.appendAll writes [publishedEvent stream.brokerState q payload options now])
        fun id => stream.appendPrepared writes id
          (publishedEvent stream.brokerState q payload options now)).1 := by
  unfold publishAppend
  dsimp only
  split <;> rename_i heq <;> rw [heq]

theorem consumeFrom_stream (options : ConsumeOptions) :
    (consumeFrom writes q g consumerId options now stream).2 = stream ∨
      ∃ gs, stream.brokerState.group q g = some gs ∧
        (consumeFrom writes q g consumerId options now stream).2 =
          (stream.appendAll writes (consumeEvents stream q g consumerId now
            (clampI64 (now + asI64 options.visibilityTimeoutMs))
            (planConsume stream q gs options.maxMessages now))).1 := by
  unfold consumeFrom
  split
  · exact .inl rfl
  cases hgs : stream.brokerState.group q g with
  | none => exact .inl rfl
  | some gs =>
    refine .inr ⟨gs, rfl, ?_⟩
    dsimp only
    split <;> rename_i heq <;> rw [heq]

theorem consume_eq (options : ConsumeOptions) :
    (∃ e, consume writes q g consumerId options now stream = (.error e, stream)) ∨
      (∃ e, consume writes q g consumerId options now stream =
        (.error e, (stream.appendAll writes (ensureGroupEvents stream.brokerState q g now)).1)) ∨
      ∃ later : Writes, consume writes q g consumerId options now stream =
        consumeFrom later q g consumerId options now
          (stream.appendAll writes (ensureGroupEvents stream.brokerState q g now)).1 := by
  unfold consume
  cases validateBrokerName "queue" q with
  | error e => exact .inl ⟨e, rfl⟩
  | ok _ =>
    cases validateBrokerName "group" g with
    | error e => exact .inl ⟨e, rfl⟩
    | ok _ =>
      cases validateBrokerName "consumer" consumerId with
      | error e => exact .inl ⟨e, rfl⟩
      | ok _ =>
        dsimp only
        split
        · rename_i heq
          rw [heq]
          exact .inr (.inl ⟨_, rfl⟩)
        · rename_i heq
          rw [heq]
          exact .inr (.inr ⟨_, rfl⟩)

end Calls

/-! ## What consume plans -/

section Plan

variable {m : QueueMessages}

theorem mem_dueDeliveries {now : Int} {entry : Nat × Nat} : entry ∈ dueDeliveries g now ↔
    ∃ d, g.deliveries.lookup entry.2 = some d ∧ d.sequence = entry.1 ∧ d.status.due now = true := by
  rw [dueDeliveries, mem_insertionSort, mem_filterMap]
  constructor
  · rintro ⟨e, hmem, he⟩
    split at he
    · rename_i hdue
      cases he
      exact ⟨e.2, AList.mem_lookup_iff.2 hmem, rfl, hdue⟩
    · cases he
  · rintro ⟨d, hd, hseq, hdue⟩
    exact ⟨⟨entry.2, d⟩, AList.mem_lookup_iff.1 hd, by rw [if_pos hdue, hseq]⟩

theorem nodup_dueDeliveries (g : GroupState) (now : Int) :
    ((dueDeliveries g now).map Prod.snd).Nodup := by
  have hperm := (perm_insertionSort entryLe (g.deliveries.entries.filterMap fun e =>
      if e.2.status.due now then some (e.2.sequence, e.1) else none)).map Prod.snd
  refine hperm.nodup_iff.2 ?_
  have hsub : ((g.deliveries.entries.filterMap fun e =>
      if e.2.status.due now then some (e.2.sequence, e.1) else none).map Prod.snd).Sublist
      (g.deliveries.entries.map Sigma.fst) := by
    generalize g.deliveries.entries = entries
    induction entries with
    | nil => exact List.Sublist.refl _
    | cons e entries ih =>
      by_cases hdue : e.2.status.due now = true
      · simpa [hdue] using ih
      · simpa [hdue] using List.Sublist.cons e.1 ih
  exact hsub.nodup g.deliveries.nodupKeys

/-- A due delivery within its limit. -/
structure Again (stream : EventStream ν) (g : GroupState) (now : Int) (entry : DeliveryEntry) :
    Prop where
  bounded : entry.attempts ≤ stream.maxAttempts entry.messageId
  opened : ∃ d, g.deliveries.lookup entry.messageId = some d ∧ d.sequence = entry.sequence ∧
    d.status.due now = true ∧ entry.attempts = nextAttempt d.attempts

/-- The dead entry is of an open delivery. -/
def Dead (g : GroupState) (dead : DeadEntry) : Prop :=
  ∃ d, g.deliveries.lookup dead.messageId = some d ∧ d.sequence = dead.sequence

/-- What holds of a plan while it is collected. -/
structure PlanOk (stream : EventStream ν) (g : GroupState) (now : Int) (plan : Plan)
    (seen : List Nat) : Prop where
  again : ∀ entry ∈ plan.batch, Again stream g now entry
  dead : ∀ entry ∈ plan.dead, Dead g entry
  nodup : (plan.batch.map DeliveryEntry.messageId ++ plan.dead.map DeadEntry.messageId).Nodup
  mem_seen : ∀ id ∈ plan.batch.map DeliveryEntry.messageId ++ plan.dead.map DeadEntry.messageId,
    id ∈ seen

theorem PlanOk.addDue {now : Int} {plan : Plan} {seen : List Nat}
    (h : PlanOk stream g now plan seen) (maxMessages : Nat) {entry : Nat × Nat}
    (hnew : entry.2 ∉ seen) (hentry : entry ∈ dueDeliveries g now) :
    PlanOk stream g now (plan.addDue stream g maxMessages entry) (seen ++ [entry.2]) := by
  obtain ⟨d, hd, hseq, hdue⟩ := mem_dueDeliveries.1 hentry
  have hfree : entry.2 ∉ plan.batch.map DeliveryEntry.messageId ++
      plan.dead.map DeadEntry.messageId := fun hmem => hnew (h.mem_seen _ hmem)
  have hold : ∀ id ∈ plan.batch.map DeliveryEntry.messageId ++ plan.dead.map DeadEntry.messageId,
      id ∈ seen ++ [entry.2] := fun id hid => mem_append_left _ (h.mem_seen id hid)
  simp only [Plan.addDue, hd]
  split_ifs with hdead hfull
  · refine ⟨h.again, ?_, ?_, ?_⟩
    · exact forall_mem_append.2 ⟨h.dead, forall_mem_singleton.2 ⟨d, hd, hseq⟩⟩
    · rw [map_append, map_singleton, ← append_assoc, ← concat_eq_append]
      exact h.nodup.concat hfree
    · rw [map_append, map_singleton, ← append_assoc]
      exact forall_mem_append.2 ⟨hold, fun _ hid => mem_append_right _ hid⟩
  · refine ⟨?_, h.dead, ?_, ?_⟩
    · exact forall_mem_append.2 ⟨h.again, forall_mem_singleton.2
        ⟨Nat.le_of_not_lt hdead, d, hd, hseq, hdue, rfl⟩⟩
    · rw [map_append, map_singleton, append_assoc]
      exact nodup_middle.2 (nodup_cons.2 ⟨hfree, h.nodup⟩)
    · intro id hid
      rw [map_append, map_singleton] at hid
      simp only [mem_append, mem_singleton] at hid
      rcases hid with (hid | hid) | hid
      · exact hold id (mem_append_left _ hid)
      · exact mem_append_right _ (mem_singleton.2 hid)
      · exact hold id (mem_append_right _ hid)
  · exact ⟨h.again, h.dead, h.nodup, hold⟩

variable (stream : EventStream ν)

theorem planOk_due (g : GroupState) (now : Int) (maxMessages : Nat) : ∃ seen, PlanOk stream g now
      ((dueDeliveries g now).foldl (Plan.addDue stream g maxMessages) ⟨[], []⟩) seen := by
  have hloop : ∀ (due : List (Nat × Nat)) (plan : Plan) (seen : List Nat),
      (∀ entry ∈ due, entry ∈ dueDeliveries g now) → (seen ++ due.map Prod.snd).Nodup →
      PlanOk stream g now plan seen →
      ∃ seen', PlanOk stream g now (due.foldl (Plan.addDue stream g maxMessages) plan) seen' := by
    intro due
    induction due with
    | nil => exact fun plan seen _ _ h => ⟨seen, h⟩
    | cons entry due ih =>
      intro plan seen hdue hnodup h
      have hnew : entry.2 ∉ seen := by
        rw [map_cons, nodup_append] at hnodup
        exact fun hmem => hnodup.2.2 _ hmem _ (by simp) rfl
      obtain ⟨hentry, hrest⟩ := forall_mem_cons.1 hdue
      refine ih _ (seen ++ [entry.2]) hrest ?_ (h.addDue maxMessages hnew hentry)
      simpa using hnodup
  exact hloop _ ⟨[], []⟩ [] (fun _ h => h) (by simpa using nodup_dueDeliveries g now)
    ⟨by simp, by simp, by simp, by simp⟩

theorem planFresh_eq (now : Int) (maxMessages : Nat) (entries : List (Nat × Nat))
    (batch : List DeliveryEntry) :
    ∃ fresh, planFresh stream now maxMessages entries batch = batch ++ fresh ∧
      (fresh.map fun e => (e.sequence, e.messageId)).Sublist entries ∧
      (∀ e ∈ fresh, e.attempts = 1) ∧
      ((∀ e ∈ entries, (stream.message e.2).isSome = true) →
        (fresh.map fun e => (e.sequence, e.messageId)) <+: entries) := by
  induction entries generalizing batch with
  | nil => exact ⟨[], by simp [planFresh], nil_sublist _, nofun, fun _ => nil_prefix⟩
  | cons entry entries ih =>
    obtain ⟨sequence, id⟩ := entry
    unfold planFresh
    split
    · exact ⟨[], by simp, nil_sublist _, nofun, fun _ => nil_prefix⟩
    cases hfound : stream.message id with
    | none =>
      obtain ⟨fresh, heq, hsub, hone, -⟩ := ih batch
      exact ⟨fresh, heq, hsub.cons _, hone, fun hall => by simp [hfound] at hall⟩
    | some found =>
      dsimp only
      split
      · simp
      obtain ⟨fresh, heq, hsub, hone, hpre⟩ := ih (batch ++ [⟨id, sequence, 1⟩])
      refine ⟨⟨id, sequence, 1⟩ :: fresh, by simp [heq], hsub.cons_cons _,
        forall_mem_cons.2 ⟨rfl, hone⟩, fun hall => cons_prefix_cons.2 ⟨rfl, hpre ?_⟩⟩
      exact fun e he => hall e (mem_cons_of_mem _ he)

theorem one_le_maxAttempts (id : Nat) : 1 ≤ stream.maxAttempts id := by
  unfold maxAttempts
  cases hmessage : stream.message id with
  | none => simp [defaultMaxAttempts]
  | some found =>
    obtain ⟨stored, -, hfound⟩ := Option.bind_eq_some_iff.1 hmessage
    cases hevent : stored.event with
    | queueMessage q timestamp payload metadata =>
      rw [hevent] at hfound
      cases hfound
      show 1 ≤ (messageFields timestamp metadata).maxAttempts
      unfold messageFields
      cases metadata.bind MessageMeta.maxAttempts with
      | none => simp [defaultMaxAttempts]
      | some raw => simp
    | _ => simp [hevent, BrokerEvent.message?] at hfound

end Plan

theorem EventStream.maxAttempts_eq {stream' : EventStream ν}
    (hmessage : ∀ id m, stream.message id = some m → stream'.message id = some m) {id : Nat}
    (hid : (stream.message id).isSome = true) : stream'.maxAttempts id = stream.maxAttempts id := by
  obtain ⟨m, hm⟩ := Option.isSome_iff_exists.1 hid
  rw [maxAttempts, maxAttempts, hm, hmessage id m hm]

/-! ## Dead letters -/

variable {P : EventStream ν → BrokerEvent ν → Prop}

/-- The copies that dead letters carry are allowed. -/
def CopiesAllowed (P : EventStream ν → BrokerEvent ν → Prop) : Prop :=
  ∀ stream q g payload metadata, P stream (.deadLetteredMessage q g payload metadata)

/-- Dead letters of open deliveries are allowed. -/
def DeadLettersAllowed (P : EventStream ν → BrokerEvent ν → Prop) : Prop :=
  ∀ stream q g messageId sequence attempts reason atMs gs d,
    stream.brokerState.group q g = some gs → gs.deliveries.lookup messageId = some d →
    sequence = d.sequence → P stream (.deadLettered q g messageId sequence attempts reason atMs)

theorem chain_deadLetter (hcopy : CopiesAllowed P) (hallowed : DeadLettersAllowed P)
    {now : Int} {stream₀ stream : EventStream ν} {q g : String} {gs : GroupState}
    {dead : DeadEntry} {rest : List (BrokerEvent ν)}
    (hgs : stream.brokerState.group q g = some gs) (hdead : Dead gs dead)
    (hrest : ∀ stream', stream'.brokerState.group q g =
        some (gs.settleMessage dead.messageId (some dead.sequence)) →
      stream'.brokerState.messages q = stream.brokerState.messages q →
      (∀ id m, stream.message id = some m → stream'.message id = some m) → Chain P stream' rest) :
    Chain P stream (deadLetterEvents stream₀ q g now dead ++ rest) := by
  obtain ⟨d, hd, hseq⟩ := hdead
  -- the control event after the copy, in a stream with the same state
  have hcontrol : ∀ before : EventStream ν, before.brokerState = stream.brokerState →
      (∀ id m, stream.message id = some m → before.message id = some m) →
      Chain P before ([.deadLettered q g dead.messageId dead.sequence dead.attempts
        dead.reason now] ++ rest) := by
    intro before hstate hmessage
    refine ⟨hallowed _ _ _ _ _ _ _ _ gs d (by rw [hstate]; exact hgs) hd hseq.symm,
      hrest _ ?_ ?_ ?_⟩
    · refine (BrokerState.group_updateGroup ..).trans ?_
      rw [if_pos ⟨rfl, rfl⟩, hstate, hgs]
      rfl
    · rw [← hstate]
      rfl
    · exact fun id m hm => message_append (hmessage id m hm) _
  unfold deadLetterEvents
  cases stream₀.message dead.messageId with
  | none => exact hcontrol stream rfl fun _ _ h => h
  | some found =>
    exact ⟨hcopy _ _ _ _ _, hcontrol _ rfl fun id m hm => message_append hm _⟩

/-- Dead letters go before any events that may follow them. -/
theorem chain_deadLetters (hcopy : CopiesAllowed P) (hallowed : DeadLettersAllowed P)
    {now : Int} {stream₀ stream : EventStream ν} {q g : String} {gs : GroupState}
    {dead : List DeadEntry} {rest : List (BrokerEvent ν)}
    (hgs : stream.brokerState.group q g = some gs) (hdead : ∀ e ∈ dead, Dead gs e)
    (hnodup : (dead.map DeadEntry.messageId).Nodup)
    (hrest : ∀ stream' gs', stream'.brokerState.group q g = some gs' →
      stream'.brokerState.messages q = stream.brokerState.messages q →
      (∀ id m, stream.message id = some m → stream'.message id = some m) →
      gs'.nextSequence = gs.nextSequence →
      (∀ id ∉ dead.map DeadEntry.messageId, gs'.deliveries.lookup id = gs.deliveries.lookup id) →
      Chain P stream' rest) :
    Chain P stream (dead.flatMap (deadLetterEvents stream₀ q g now) ++ rest) := by
  induction dead generalizing stream gs with
  | nil => exact hrest stream gs hgs rfl (fun _ _ h => h) rfl fun _ _ => rfl
  | cons e dead ih =>
    rw [flatMap_cons, append_assoc]
    rw [map_cons, nodup_cons] at hnodup
    obtain ⟨⟨d, hd, hseq⟩, hdead⟩ := forall_mem_cons.1 hdead
    have hsettled := settleMessage_of_lookup hd (some e.sequence)
    have hlookup : ∀ id, id ≠ e.messageId →
        (gs.settleMessage e.messageId (some e.sequence)).deliveries.lookup id =
          gs.deliveries.lookup id := by
      intro id hne
      rw [hsettled]
      exact (Table.lookup_erase_eq _ _ _).trans (if_neg hne)
    refine chain_deadLetter hcopy hallowed hgs ⟨d, hd, hseq⟩
      fun stream' hgs' hmessages hmessage => ?_
    refine ih hgs' ?_ hnodup.2 ?_
    · intro x hx
      have hne : x.messageId ≠ e.messageId := fun heq =>
        hnodup.1 (heq ▸ mem_map_of_mem hx)
      obtain ⟨d', hd', hseq'⟩ := hdead x hx
      exact ⟨d', by rw [hlookup _ hne, hd'], hseq'⟩
    · intro stream'' gs'' hgs'' hmessages' hmessage' hnext hopen
      refine hrest stream'' gs'' hgs'' (hmessages'.trans hmessages)
        (fun id m hm => hmessage' id m (hmessage id m hm)) ?_ ?_
      · rw [hnext, hsettled]
      · intro id hid
        rw [map_cons, mem_cons, not_or] at hid
        rw [hopen id hid.2, hlookup id hid.1]

end BicDb.Broker
