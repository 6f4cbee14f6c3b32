import BicDb.Broker.State
import Mathlib.Data.List.Sort

/-!
# The calls of the broker

Every call of `Broker` reads the state in memory, decides, and appends events, each applied as it is
appended. When an append fails the call returns, and what was appended stays; `Writes` says how many
appends succeed. A new identifier is the next unused number; the clock is an argument.
-/

namespace BicDb.Broker

open BicDb.Foundation

universe u

variable {ν : Type u}

/-- A refusal with its text, or a failed write. -/
inductive BrokerError where
  | broker (message : String)
  | io
  deriving DecidableEq

/-- The number of appends that succeed; `none` when all do. -/
abbrev Writes := Option Nat

/-- How a rewrite of the segment ends: with the new file in place, or with an error before or after
the rename. -/
inductive Rewrite where
  | done
  | failedBefore
  | failedAfter
  deriving DecidableEq

/-! ## The stream -/

/-- The log with the state derived from it; `nextId` is fresh. -/
structure EventStream (ν : Type u) where
  events : List (StoredEvent ν)
  brokerState : BrokerState
  nextId : Nat

/-- The stream of an empty log. -/
def EventStream.empty (ν : Type u) : EventStream ν := ⟨[], .default, 0⟩

namespace EventStream

/-- `append_event` with a new identifier. -/
def append (stream : EventStream ν) (event : BrokerEvent ν) : EventStream ν :=
  let stored : StoredEvent ν := ⟨stream.nextId, event⟩
  ⟨stream.events ++ [stored], stream.brokerState.apply stored, stream.nextId + 1⟩

/-- `append_event` of an event that has its identifier already: one in the log is not appended. -/
def appendPrepared (stream : EventStream ν) (writes : Writes) (id : Nat) (event : BrokerEvent ν) :
    EventStream ν × Bool :=
  if stream.events.any fun stored => stored.id == id then (stream, true)
  else if writes = some 0 then (stream, false)
  else
    (⟨stream.events ++ [⟨id, event⟩], stream.brokerState.apply ⟨id, event⟩,
      max stream.nextId (id + 1)⟩, true)

/-- Append events until one fails; whether all were appended. -/
def appendAll (stream : EventStream ν) : Writes → List (BrokerEvent ν) → EventStream ν × Bool
  | _, [] => (stream, true)
  | some 0, _ :: _ => (stream, false)
  | some (n + 1), event :: events => (stream.append event).appendAll (some n) events
  | none, event :: events => (stream.append event).appendAll none events

/-- The first event with an id. -/
def eventById (stream : EventStream ν) (id : Nat) : Option (StoredEvent ν) :=
  stream.events.find? fun stored => stored.id == id

/-- `open` skips an event whose identifier it has seen. -/
def reopened (events : List (StoredEvent ν)) : BrokerState :=
  (events.foldl (fun (seen : List Nat × BrokerState) stored =>
    if stored.id ∈ seen.1 then seen else (stored.id :: seen.1, seen.2.apply stored))
    ([], .default)).2

/-- `rewrite_events_in_place`: a rewrite that fails reads the segment again, which is the old one or
the new one. That read is taken to succeed. -/
def rewriteEventsInPlace (stream : EventStream ν) (rewrite : Rewrite)
    (events : List (StoredEvent ν)) (nextId : Nat) : Except BrokerError Unit × EventStream ν :=
  match rewrite with
  | .done => (.ok (), ⟨events, .rebuild events, nextId⟩)
  | .failedBefore => (.error .io, ⟨stream.events, reopened stream.events, stream.nextId⟩)
  | .failedAfter => (.error .io, ⟨events, reopened events, nextId⟩)

end EventStream

/-! ## Fields of a message -/

/-- The limit of messages that do not give one. -/
def defaultMaxAttempts : Nat := 16

/-- What the broker reads of a message's metadata. -/
structure MessageFields (ν : Type u) where
  headers : Option ν
  idempotencyKey : Option String
  createdAt : Int
  availableAt : Int
  maxAttempts : Nat

/-- The fields of a message, with the defaults of the source. -/
def messageFields (timestamp : Int) (metadata : Option (MessageMeta ν)) : MessageFields ν where
  headers := metadata.bind MessageMeta.headers
  idempotencyKey := metadata.bind MessageMeta.idempotencyKey
  createdAt := (metadata.bind MessageMeta.createdAtMs).getD (clampI64 (timestamp * 1000))
  availableAt := (metadata.bind MessageMeta.availableAtMs).getD (clampI64 (timestamp * 1000))
  maxAttempts := ((metadata.bind MessageMeta.maxAttempts).map fun raw =>
    max (raw % 2 ^ 32) 1).getD defaultMaxAttempts

/-- Payload and fields of a message, original or dead-letter copy. -/
def BrokerEvent.message? : BrokerEvent ν → Option (ν × MessageFields ν)
  | .queueMessage _ timestamp payload metadata => some (payload, messageFields timestamp metadata)
  | _ => none

variable (stream : EventStream ν)

/-- The message stored under an id. -/
def EventStream.message (id : Nat) : Option (ν × MessageFields ν) :=
  (stream.eventById id).bind fun stored => stored.event.message?

/-- The limit of hand-outs of a message. -/
def EventStream.maxAttempts (id : Nat) : Nat :=
  ((stream.message id).map fun m => m.2.maxAttempts).getD defaultMaxAttempts

/-! ## Names -/

/-- The characters of a broker name. -/
def brokerNameChar (c : Char) : Bool :=
  c.isAlphanum || c == '_' || c == '-' || c == '.' || c == ':'

/-- Checks a queue, group or consumer name. -/
def validateBrokerName (kind name : String) : Except BrokerError Unit :=
  if name.toList.isEmpty || !name.toList.all brokerNameChar then
    .error (.broker ("invalid " ++ kind ++ " name `" ++ name ++
      "`: use ASCII letters, digits, '-', '_', '.', or ':'"))
  else .ok ()

/-! ## Trimming -/

/-- The lines of a batch that are not of a removed message. -/
def retainTrimmedControlEvent (removed : List Nat) : BrokerEvent ν → Option (BrokerEvent ν)
  | .delivered queue group consumerId deliveredAt visibilityDeadline deliveries =>
    let kept := deliveries.filter fun entry => !removed.contains entry.messageId
    if kept.isEmpty then none
    else some (.delivered queue group consumerId deliveredAt visibilityDeadline kept)
  | .acked queue group consumerId messageId sequence ackedAt =>
    if removed.contains messageId then none
    else some (.acked queue group consumerId messageId sequence ackedAt)
  | .nacked queue group consumerId messageId sequence availableAt error nackedAt =>
    if removed.contains messageId then none
    else some (.nacked queue group consumerId messageId sequence availableAt error nackedAt)
  | .deadLettered queue group messageId sequence attempts reason atMs =>
    if removed.contains messageId then none
    else some (.deadLettered queue group messageId sequence attempts reason atMs)
  | event => some event

/-- The queue whose groups an event is about. -/
def BrokerEvent.groupQueue : BrokerEvent ν → Option String
  | .groupCreated queue .. => some queue
  | .delivered queue .. => some queue
  | .acked queue .. => some queue
  | .nacked queue .. => some queue
  | .deadLettered queue .. => some queue
  | .redriven queue .. => some queue
  | _ => none

/-- What a trim makes of an event; `none` when it is dropped. -/
def retainEvent (queue : String) (through : Nat) (removed : List Nat) (stored : StoredEvent ν) :
    Option (StoredEvent ν) :=
  if stored.event.groupQueue = some queue then
    (retainTrimmedControlEvent removed stored.event).map fun event => { stored with event := event }
  else
    match stored.event with
    | .queueMessage q _ _ _ =>
      if q = queue ∧ removed.contains stored.id then none else some stored
    | .queueTrimmed q old _ => if q = queue ∧ old ≤ through then none else some stored
    | _ => some stored

/-- The rewritten log, its marker in the place of the first dropped event. -/
def rewriteTrimmed (queue : String) (through : Nat) (removed : List Nat)
    (marker : StoredEvent ν) : Bool → List (StoredEvent ν) → List (StoredEvent ν)
  | _, [] => []
  | placed, stored :: rest =>
    match retainEvent queue through removed stored with
    | some kept => kept :: rewriteTrimmed queue through removed marker placed rest
    | none =>
      if placed then rewriteTrimmed queue through removed marker true rest
      else marker :: rewriteTrimmed queue through removed marker true rest

variable (s : BrokerState)

/-- The last sequence that every group has settled. -/
def settledThrough (queue : String) : Option Nat :=
  (((s.groups.entries.filter fun e => e.1.1 = queue).map fun e => e.2.settledFloor).min?).bind
    fun floor => if floor = 0 then none else some (floor - 1)

/-- The bound of `retention_max_messages`. -/
def countThrough (entries : List (Nat × Nat)) (maxMessages : Nat) : Option Nat :=
  if maxMessages < entries.length then
    (entries[entries.length - maxMessages - 1]?).map Prod.fst
  else none

/-- The bound of `retention_max_age_ms`. -/
def ageThrough (entries : List (Nat × Nat)) (cutoff : Int) : Option Nat :=
  ((entries.takeWhile fun entry =>
    decide
      (((stream.message entry.2).map fun m => m.2.createdAt).getD i64Max < cutoff)).getLast?).map
      Prod.fst

/-- The later of two bounds. -/
def laterBound : Option Nat → Option Nat → Option Nat
  | none, b => b
  | some a, none => some a
  | some a, some b => some (max a b)

/-- The bound that the retention policy of the queue gives. -/
def policyThrough (queue : String) (now : Int) : Option Nat :=
  let entries := (stream.brokerState.messages queue).entries
  let config := stream.brokerState.configs.lookup queue
  laterBound ((config.bind QueueConfig.retentionMaxMessages).bind (countThrough entries))
    ((config.bind QueueConfig.retentionMaxAgeMs).bind fun maxAge =>
      ageThrough stream entries (clampI64 (now - maxAge)))

/-- The sequence up to which a trim removes messages. -/
def trimThrough (queue : String) (now : Int) : Option Nat :=
  laterBound (settledThrough stream.brokerState queue) (policyThrough stream queue now)

/-- The ids of the messages up to a bound. -/
def removedIds (queue : String) (through : Nat) : List Nat :=
  ((stream.brokerState.messages queue).entries.takeWhile
    fun entry => decide (entry.1 ≤ through)).map Prod.snd

/-- `TrimReport` without the sizes of the file. -/
structure TrimReport where
  removedMessages : Nat
  removedControlEvents : Nat
  throughSequence : Option Nat
  deriving DecidableEq

/-- The log that a trim writes; the marker takes the next identifier. -/
def EventStream.trimmedEvents (queue : String) (through : Nat) (now : Int) :
    List (StoredEvent ν) :=
  rewriteTrimmed queue through (removedIds stream queue through)
    ⟨stream.nextId, .queueTrimmed queue through now⟩ false stream.events

/-- Whether an event is a message. -/
def BrokerEvent.isQueueMessage : BrokerEvent ν → Bool
  | .queueMessage .. => true
  | _ => false

/-- What a trim counts: the messages and the control events that the log loses. -/
def EventStream.trimReport (queue : String) (through : Nat) : TrimReport :=
  let dropped := stream.events.filter fun stored =>
    (retainEvent queue through (removedIds stream queue through) stored).isNone
  ⟨dropped.countP fun stored => stored.event.isQueueMessage,
    dropped.countP fun stored => !stored.event.isQueueMessage, some through⟩

/-- Rewrites the segment without the messages up to the bound. -/
def trim (rewrite : Rewrite) (queue : String) (now : Int) (stream : EventStream ν) :
    Except BrokerError TrimReport × EventStream ν :=
  match validateBrokerName "queue" queue with
  | .error e => (.error e, stream)
  | .ok () =>
    if (stream.brokerState.messages queue).entries.isEmpty then (.ok ⟨0, 0, none⟩, stream)
    else
      match trimThrough stream queue now with
      | none => (.ok ⟨0, 0, none⟩, stream)
      | some through =>
        if (removedIds stream queue through).isEmpty then (.ok ⟨0, 0, none⟩, stream)
        else
          match stream.rewriteEventsInPlace rewrite (stream.trimmedEvents queue through now)
              (stream.nextId + 1) with
          | (.error e, stream') => (.error e, stream')
          | (.ok (), stream') => (.ok (stream.trimReport queue through), stream')

/-! ## Publishing -/

/-- The options of a publish. -/
structure PublishOptions (ν : Type u) where
  headers : Option ν
  idempotencyKey : Option String
  delayMs : Option Nat
  maxAttempts : Option Nat

/-- The answer to a publish. -/
structure PublishReceipt where
  messageId : Nat
  sequence : Nat
  deduplicated : Bool
  deriving DecidableEq

/-- Whether a publish is to trim first: the queue is at its limit. -/
def publishTrimDue (queue : String) : Bool :=
  match (s.configs.lookup queue).bind QueueConfig.retentionMaxMessages with
  | none => false
  | some maxMessages => decide (maxMessages * 2 < (s.messages queue).entries.length)

/-- The limit of hand-outs a new message gets. -/
def publishMaxAttempts (queue : String) (options : PublishOptions ν) : Nat :=
  max ((options.maxAttempts.or ((s.configs.lookup queue).bind QueueConfig.defaultMaxAttempts)).getD
    defaultMaxAttempts) 1

/-- The event that a publish appends. -/
def publishedEvent (queue : String) (payload : ν) (options : PublishOptions ν) (now : Int) :
    BrokerEvent ν :=
  .queueMessage queue (now / 1000) payload (some {
    headers := options.headers
    createdAtMs := some now
    availableAtMs := some (clampI64 (now + asI64 (options.delayMs.getD 0)))
    maxAttempts := some (publishMaxAttempts s queue options)
    idempotencyKey := options.idempotencyKey })

variable (writes : Writes)

/-- The append of `publish_inner`, under a new identifier or the prepared one. -/
def publishAppend (preparedId : Option Nat) (queue : String) (payload : ν)
    (options : PublishOptions ν) (now : Int) (stream : EventStream ν) :
    Except BrokerError PublishReceipt × EventStream ν :=
  let event := publishedEvent stream.brokerState queue payload options now
  match preparedId.elim (stream.appendAll writes [event])
      fun id => stream.appendPrepared writes id event with
  | (stream', false) => (.error .io, stream')
  | (stream', true) =>
    (.ok ⟨preparedId.getD stream.nextId, (stream'.brokerState.messages queue).nextSequence - 1,
      false⟩, stream')

/-- The publish behind all variants: checks, trim, key lookup, append. -/
def publishInner (rewrite : Rewrite) (queue : String) (payload : ν) (options : PublishOptions ν)
    (preparedId : Option Nat) (now : Int) (stream : EventStream ν) :
    Except BrokerError PublishReceipt × EventStream ν :=
  match validateBrokerName "queue" queue with
  | .error e => (.error e, stream)
  | .ok () =>
    match options.idempotencyKey.bind fun key =>
        stream.brokerState.idempotency.lookup (queue, key) with
    | some (messageId, sequence) => (.ok ⟨messageId, sequence, true⟩, stream)
    | none =>
      if preparedId.isNone && publishTrimDue stream.brokerState queue then
        match trim rewrite queue now stream with
        | (.error e, stream') => (.error e, stream')
        | (.ok _, stream') => publishAppend writes preparedId queue payload options now stream'
      else publishAppend writes preparedId queue payload options now stream

/-- A publish with fresh id. -/
def publishWith (rewrite : Rewrite) (queue : String) (payload : ν) (options : PublishOptions ν)
    (now : Int) (stream : EventStream ν) : Except BrokerError PublishReceipt × EventStream ν :=
  publishInner writes rewrite queue payload options none now stream

/-- The publish of a committed transaction, whose message has its identifier; it never trims. -/
def publishPrepared (messageId : Nat) (queue : String) (payload : ν) (options : PublishOptions ν)
    (now : Int) (stream : EventStream ν) : Except BrokerError PublishReceipt × EventStream ν :=
  publishInner writes .done queue payload options (some messageId) now stream

/-- `EventQueue::publish`, the plain queue facade; `metadata` is the caller's `broker` object. -/
def enqueue (queue : String) (payload : ν) (metadata : Option (MessageMeta ν)) (now : Int)
    (stream : EventStream ν) : EventStream ν :=
  (stream.appendAll writes [.queueMessage queue (now / 1000) payload metadata]).1

/-- Sets the configuration of a queue. -/
def configureQueue (queue : String) (config : QueueConfig) (now : Int) (stream : EventStream ν) :
    Except BrokerError Unit × EventStream ν :=
  match validateBrokerName "queue" queue with
  | .error e => (.error e, stream)
  | .ok () =>
    match stream.appendAll writes [.queueConfigured queue config now] with
    | (stream', false) => (.error .io, stream')
    | (stream', true) => (.ok (), stream')

/-! ## Consuming -/

/-- The options of a consume. -/
structure ConsumeOptions where
  maxMessages : Nat
  visibilityTimeoutMs : Nat

/-- A message as a consumer receives it. -/
structure BrokerMessage (ν : Type u) where
  queue : String
  group : String
  messageId : Nat
  sequence : Nat
  payload : ν
  headers : Option ν
  idempotencyKey : Option String
  createdAt : Int
  deliveredAt : Int
  visibilityDeadline : Int
  attempts : Nat
  maxAttempts : Nat

/-- Whether the deadline or the delay of a delivery has passed. -/
def DeliveryStatus.due (status : DeliveryStatus) (now : Int) : Bool :=
  match status with
  | .available availableAt => decide (availableAt ≤ now)
  | .inFlight visibilityDeadline => decide (visibilityDeadline ≤ now)

/-- The order of pairs that `sort_unstable` sorts by. -/
def entryLe (a b : Nat × Nat) : Prop := a.1 < b.1 ∨ a.1 = b.1 ∧ a.2 ≤ b.2

instance : DecidableRel entryLe := fun _ _ => inferInstanceAs (Decidable (_ ∨ _))

/-- The due deliveries, by sequence. -/
def dueDeliveries (g : GroupState) (now : Int) : List (Nat × Nat) :=
  (g.deliveries.entries.filterMap fun e =>
    if e.2.status.due now then some (e.2.sequence, e.1) else none).insertionSort entryLe

/-- A delivery that is to be dead-lettered. -/
structure DeadEntry where
  messageId : Nat
  sequence : Nat
  attempts : Nat
  reason : String
  lastError : Option String
  deriving DecidableEq

/-- The reason in the dead letter. -/
def deadReason (delivery : Delivery) (maxAttempts : Nat) : String :=
  match delivery.status with
  | .inFlight _ => "visibility timeout expired on final attempt " ++ toString delivery.attempts ++
      " of " ++ toString maxAttempts
  | .available _ => "exceeded max_attempts " ++ toString maxAttempts

/-- What a consume will hand out and what it will dead-letter. -/
structure Plan where
  batch : List DeliveryEntry
  dead : List DeadEntry

/-- Adds a due delivery to the plan. -/
def Plan.addDue (g : GroupState) (maxMessages : Nat) (plan : Plan) (entry : Nat × Nat) : Plan :=
  match g.deliveries.lookup entry.2 with
  | none => plan
  | some delivery =>
    let maxAttempts := stream.maxAttempts entry.2
    if maxAttempts < nextAttempt delivery.attempts then
      { plan with dead := plan.dead ++ [⟨entry.2, entry.1, delivery.attempts,
          deadReason delivery maxAttempts, delivery.lastError⟩] }
    else if plan.batch.length < maxMessages then
      { plan with batch := plan.batch ++ [⟨entry.2, entry.1, nextAttempt delivery.attempts⟩] }
    else plan

/-- Fresh messages, up to the first that is not available yet. -/
def planFresh (stream : EventStream ν) (now : Int) (maxMessages : Nat) :
    List (Nat × Nat) → List DeliveryEntry → List DeliveryEntry
  | [], batch => batch
  | (sequence, messageId) :: rest, batch =>
    if maxMessages ≤ batch.length then batch
    else
      match stream.message messageId with
      | none => planFresh stream now maxMessages rest batch
      | some (_, fields) =>
        if now < fields.availableAt then batch
        else planFresh stream now maxMessages rest (batch ++ [⟨messageId, sequence, 1⟩])

/-- The first phase of `consume`. -/
def planConsume (queue : String) (g : GroupState) (maxMessages : Nat) (now : Int) : Plan :=
  let plan := (dueDeliveries g now).foldl (Plan.addDue stream g maxMessages) ⟨[], []⟩
  { plan with
    batch := planFresh stream now maxMessages
      ((stream.brokerState.messages queue).entries.dropWhile
        fun entry => decide (entry.1 < g.nextSequence)) plan.batch }

/-- The dead-letter copy of a message and its mark. -/
def deadLetterEvents (queue group : String) (now : Int) (dead : DeadEntry) : List (BrokerEvent ν) :=
  let copy := (stream.message dead.messageId).map fun m =>
    BrokerEvent.deadLetteredMessage queue group m.1
      { originalMessageId := dead.messageId
        sequence := dead.sequence
        attempts := dead.attempts
        reason := dead.reason
        lastError := dead.lastError
        headers := m.2.headers
        deadLetteredAtMs := now }
  copy.toList ++
    [.deadLettered queue group dead.messageId dead.sequence dead.attempts dead.reason now]

/-- The events of a consume: dead letters, then one batch. -/
def consumeEvents (queue group consumerId : String) (now visibilityDeadline : Int) (plan : Plan) :
    List (BrokerEvent ν) :=
  plan.dead.flatMap (deadLetterEvents stream queue group now) ++
    (if plan.batch.isEmpty then []
      else [.delivered queue group consumerId now visibilityDeadline plan.batch])

/-- The message of a hand-out. -/
def brokerMessage (queue group : String) (now visibilityDeadline : Int) (entry : DeliveryEntry) :
    Option (BrokerMessage ν) :=
  (stream.message entry.messageId).map fun m =>
    { queue := queue
      group := group
      messageId := entry.messageId
      sequence := entry.sequence
      payload := m.1
      headers := m.2.headers
      idempotencyKey := m.2.idempotencyKey
      createdAt := m.2.createdAt
      deliveredAt := now
      visibilityDeadline := visibilityDeadline
      attempts := entry.attempts
      maxAttempts := m.2.maxAttempts }

/-- The creation of a group that does not exist yet. -/
def ensureGroupEvents (queue group : String) (now : Int) : List (BrokerEvent ν) :=
  if (s.group queue group).isSome then [] else [.groupCreated queue group now]

/-- `consume` once the group is there. -/
def consumeFrom (queue group consumerId : String) (options : ConsumeOptions) (now : Int)
    (stream : EventStream ν) : Except BrokerError (List (BrokerMessage ν)) × EventStream ν :=
  if options.maxMessages = 0 then (.ok [], stream)
  else
    match stream.brokerState.group queue group with
    | none => (.ok [], stream)
    | some g =>
      let visibilityDeadline := clampI64 (now + asI64 options.visibilityTimeoutMs)
      let plan := planConsume stream queue g options.maxMessages now
      match stream.appendAll writes
          (consumeEvents stream queue group consumerId now visibilityDeadline plan) with
      | (stream', false) => (.error .io, stream')
      | (stream', true) =>
        (.ok (plan.batch.filterMap
          (brokerMessage stream' queue group now visibilityDeadline)), stream')

/-- The writes that are left after `n` appends. -/
def Writes.after (n : Nat) : Writes := writes.map (· - n)

/-- Hands out messages to a consumer. -/
def consume (queue group consumerId : String) (options : ConsumeOptions) (now : Int)
    (stream : EventStream ν) : Except BrokerError (List (BrokerMessage ν)) × EventStream ν :=
  match validateBrokerName "queue" queue with
  | .error e => (.error e, stream)
  | .ok () =>
    match validateBrokerName "group" group with
    | .error e => (.error e, stream)
    | .ok () =>
      match validateBrokerName "consumer" consumerId with
      | .error e => (.error e, stream)
      | .ok () =>
        let created := ensureGroupEvents stream.brokerState queue group now
        match stream.appendAll writes created with
        | (stream', false) => (.error .io, stream')
        | (stream', true) =>
          consumeFrom (writes.after created.length) queue group consumerId options now stream'

/-! ## Settling -/

/-- The delivery a consumer may settle. -/
def checkInFlight (queue group consumerId : String) (messageId : Nat) :
    Except BrokerError Delivery :=
  match (s.group queue group).bind fun g => g.deliveries.lookup messageId with
  | none => .error (.broker ("message " ++ toString messageId ++
      " has no active delivery for group `" ++ group ++ "` on queue `" ++ queue ++ "`"))
  | some delivery =>
    match delivery.status with
    | .available _ => .error (.broker ("message " ++ toString messageId ++
        " is not in flight for group `" ++ group ++ "` on queue `" ++ queue ++ "`"))
    | .inFlight _ =>
      if delivery.consumerId ≠ consumerId then
        .error (.broker ("message " ++ toString messageId ++ " is in flight for consumer `" ++
          delivery.consumerId ++ "`, not `" ++ consumerId ++ "`"))
      else .ok delivery

/-- The reply of a call that only appends. -/
def finish (result : EventStream ν × Bool) : Except BrokerError Unit × EventStream ν :=
  (if result.2 then .ok () else .error .io, result.1)

/-- Settles a delivery. -/
def ack (queue group consumerId : String) (messageId : Nat) (now : Int) (stream : EventStream ν) :
    Except BrokerError Unit × EventStream ν :=
  match checkInFlight stream.brokerState queue group consumerId messageId with
  | .error e => (.error e, stream)
  | .ok delivery =>
    finish (stream.appendAll writes
      [.acked queue group consumerId messageId (some delivery.sequence) now])

/-- The options of a nack. -/
structure NackOptions where
  requeue : Bool
  delayMs : Option Nat
  error : Option String

/-- Gives a delivery back, or dead-letters it. -/
def nackEvents (queue group consumerId : String) (messageId : Nat) (options : NackOptions)
    (now : Int) (delivery : Delivery) : List (BrokerEvent ν) :=
  let maxAttempts := stream.maxAttempts messageId
  if !options.requeue || decide (maxAttempts ≤ delivery.attempts) then
    deadLetterEvents stream queue group now
      ⟨messageId, delivery.sequence, delivery.attempts,
        if options.requeue then "exceeded max_attempts " ++ toString maxAttempts
        else "nacked without requeue", options.error⟩
  else
    [.nacked queue group consumerId messageId delivery.sequence
      (clampI64 (now + asI64 (options.delayMs.getD 0))) options.error now]

/-- Refuses a delivery. -/
def nack (queue group consumerId : String) (messageId : Nat) (options : NackOptions) (now : Int)
    (stream : EventStream ν) : Except BrokerError Unit × EventStream ν :=
  match checkInFlight stream.brokerState queue group consumerId messageId with
  | .error e => (.error e, stream)
  | .ok delivery =>
    finish (stream.appendAll writes
      (nackEvents stream queue group consumerId messageId options now delivery))

/-! ## Dead letters -/

/-- The copies of dead letters not redriven yet. -/
def redriveCandidates (queue group : String) : List (Nat × ν × Option ν) :=
  let already := ((stream.brokerState.group queue group).map GroupState.redriven).getD ∅
  stream.events.filterMap fun stored =>
    match stored.event with
    | .deadLetteredMessage q g payload metadata =>
      if q = queue ∧ g = group ∧ stored.id ∉ already then
        some (stored.id, payload, metadata.headers)
      else none
    | _ => none

/-- The publishes of a redrive; `rewrites` has the outcome of each one's trim. -/
def redrivePublish (queue : String) (now : Int) :
    Writes → List Rewrite → List (Nat × ν × Option ν) → EventStream ν → Bool × EventStream ν
  | _, _, [], stream => (true, stream)
  | writes, rewrites, candidate :: rest, stream =>
    match publishWith writes (rewrites.headD .done) queue candidate.2.1
        ⟨candidate.2.2, none, none, none⟩ now stream with
    | (.error _, stream') => (false, stream')
    | (.ok _, stream') => redrivePublish queue now (writes.after 1) rewrites.tail rest stream'

/-- Publishes dead letters of a group again. -/
def redriveDeadLetters (rewrites : List Rewrite) (queue group : String) (max : Nat) (now : Int)
    (stream : EventStream ν) : EventStream ν :=
  match validateBrokerName "queue" queue, validateBrokerName "group" group with
  | .ok (), .ok () =>
    let candidates := (redriveCandidates stream queue group).take max
    if candidates.isEmpty then stream
    else
      match redrivePublish queue now writes rewrites candidates stream with
      | (false, stream') => stream'
      | (true, stream') =>
        (stream'.appendAll (writes.after candidates.length)
          [.redriven queue group (candidates.map Prod.fst) now]).1
  | _, _ => stream

/-- The events a purge removes. -/
def BrokerEvent.purged (queue group : String) : BrokerEvent ν → Bool
  | .deadLetteredMessage q g _ _ => decide (q = queue ∧ g = group)
  | .redriven q g _ _ => decide (q = queue ∧ g = group)
  | _ => false

/-- The dead-letter copies among them. -/
def BrokerEvent.isDeadLetter (queue group : String) : BrokerEvent ν → Bool
  | .deadLetteredMessage q g _ _ => decide (q = queue ∧ g = group)
  | _ => false

/-- `purge_dead_letters`; when its rewrite fails, memory is left as it was. -/
def purgeDeadLetters (rewrite : Rewrite) (queue group : String) (stream : EventStream ν) :
    Except BrokerError Nat × EventStream ν :=
  match validateBrokerName "queue" queue with
  | .error e => (.error e, stream)
  | .ok () =>
    match validateBrokerName "group" group with
    | .error e => (.error e, stream)
    | .ok () =>
      let purged := stream.events.countP fun stored => stored.event.isDeadLetter queue group
      if purged = 0 then (.ok 0, stream)
      else if rewrite ≠ .done then (.error .io, stream)
      else
        let events := stream.events.filter fun stored => !stored.event.purged queue group
        (.ok purged, ⟨events, .rebuild events, stream.nextId⟩)

end BicDb.Broker
