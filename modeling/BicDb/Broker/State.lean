import BicDb.Foundation.Saturating
import BicDb.Foundation.Table
import BicDb.Foundation.Watermark
import Mathlib.Algebra.GroupWithZero.Nat
import Mathlib.Algebra.Group.Int.Defs

/-!
# Broker state as a replay of its log

The broker keeps nothing on disk but its events; its state is the fold of `apply` over them. The
JSON fields of an event are those of its constructor, the stream name is implied. Identifiers are
numbers, payloads and headers of any type. A group's settled sequences are a `Watermark`
(`settled_floor`, `settled_above`).
-/

namespace BicDb.Broker

open BicDb.Foundation

universe u

/-! ## Machine numbers -/

/-- The largest `u32`. -/
def u32Max : Nat := 2 ^ 32 - 1

/-- Saturation at the bounds of `i64`. -/
def clampI64 (x : Int) : Int := max i64Min (min i64Max x)

/-- `u64 as i64`. -/
def asI64 (n : Nat) : Int := Int.bmod n (2 ^ 64)

/-- `u32::saturating_add(1)`. -/
def nextAttempt (attempts : Nat) : Nat := min (attempts + 1) u32Max

/-! ## Events -/

/-- `QueueConfig` without its access lists. -/
structure QueueConfig where
  defaultMaxAttempts : Option Nat
  retentionMaxMessages : Option Nat
  retentionMaxAgeMs : Option Int
  deriving DecidableEq

/-- `queue_config_from_json` of `queue_config_to_json`. -/
def QueueConfig.reread (config : QueueConfig) : QueueConfig :=
  { config with defaultMaxAttempts :=
    config.defaultMaxAttempts.map fun raw => max (raw % 2 ^ 32) 1 }

/-- The `broker` object in a message's metadata. -/
structure MessageMeta (ν : Type u) where
  headers : Option ν
  createdAtMs : Option Int
  availableAtMs : Option Int
  maxAttempts : Option Nat
  idempotencyKey : Option String
  deriving DecidableEq

/-- One hand-out in a `delivered` event. -/
structure DeliveryEntry where
  messageId : Nat
  sequence : Nat
  attempts : Nat
  deriving DecidableEq

/-- The `broker` object in the metadata of a dead letter's copy. -/
structure DeadLetterMeta (ν : Type u) where
  originalMessageId : Nat
  sequence : Nat
  attempts : Nat
  reason : String
  lastError : Option String
  headers : Option ν
  deadLetteredAtMs : Int
  deriving DecidableEq

/-- The events; `other` is of streams the broker does not read. -/
inductive BrokerEvent (ν : Type u) where
  | queueMessage (queue : String) (timestamp : Int) (payload : ν)
      (metadata : Option (MessageMeta ν))
  | queueTrimmed (queue : String) (throughSequence : Nat) (atMs : Int)
  | queueConfigured (queue : String) (config : QueueConfig) (atMs : Int)
  | groupCreated (queue group : String) (createdAtMs : Int)
  | delivered (queue group consumerId : String) (deliveredAtMs visibilityDeadlineMs : Int)
      (deliveries : List DeliveryEntry)
  | acked (queue group consumerId : String) (messageId : Nat) (sequence : Option Nat)
      (ackedAtMs : Int)
  | nacked (queue group consumerId : String) (messageId : Nat) (sequence : Nat)
      (availableAtMs : Int) (error : Option String) (nackedAtMs : Int)
  | deadLettered (queue group : String) (messageId sequence attempts : Nat) (reason : String)
      (atMs : Int)
  | redriven (queue group : String) (dlqEventIds : List Nat) (atMs : Int)
  | deadLetteredMessage (queue group : String) (payload : ν) (metadata : DeadLetterMeta ν)
  | other (stream : String)
  deriving DecidableEq

/-- An event of the log under its id. -/
structure StoredEvent (ν : Type u) where
  id : Nat
  event : BrokerEvent ν
  deriving DecidableEq

/-! ## State -/

/-- Handed out until a deadline, or given back until a time. -/
inductive DeliveryStatus where
  | inFlight (visibilityDeadline : Int)
  | available (availableAt : Int)
  deriving DecidableEq

/-- An open delivery of a message to a group. -/
structure Delivery where
  sequence : Nat
  consumerId : String
  status : DeliveryStatus
  attempts : Nat
  deliveredAt : Int
  lastError : Option String
  deriving DecidableEq

/-- A consumer group: its position, open deliveries and settled messages. -/
structure GroupState where
  createdAt : Int
  nextSequence : Nat
  deliveries : Table Nat Delivery
  settled : Watermark
  redriven : Finset Nat
  deriving DecidableEq

/-- The messages of a queue, sequence and event id, in order. -/
structure QueueMessages where
  entries : List (Nat × Nat)
  nextSequence : Nat
  deriving DecidableEq

/-- What the broker derives from its log. -/
structure BrokerState where
  queues : Table String QueueMessages
  groups : Table (String × String) GroupState
  idempotency : Table (String × String) (Nat × Nat)
  configs : Table String QueueConfig
  deriving DecidableEq

/-- The state of an empty log. -/
def BrokerState.default : BrokerState := ⟨∅, ∅, ∅, ∅⟩

/-! ## Groups -/

namespace GroupState

/-- A group that has been given nothing yet. -/
def new (createdAt : Int) (settledFloor : Nat) : GroupState :=
  ⟨createdAt, 0, ∅, Watermark.below settledFloor, ∅⟩

/-- The sequences below are all settled. -/
def settledFloor (g : GroupState) : Nat := g.settled.floor

/-- Marks a sequence as settled. -/
def settle (g : GroupState) (sequence : Nat) : GroupState :=
  { g with settled := g.settled.add sequence }

/-- Forgets what a trim has removed. -/
def applyTrim (g : GroupState) (through : Nat) : GroupState :=
  { g with
    deliveries := Table.retain (fun _ delivery => decide (through < delivery.sequence)) g.deliveries
    settled := g.settled.raise through
    nextSequence := max g.nextSequence (through + 1) }

/-- Records one hand-out. -/
def deliver (consumerId : String) (deliveredAt visibilityDeadline : Int) (g : GroupState)
    (entry : DeliveryEntry) : GroupState :=
  { g with
    deliveries := g.deliveries.insert entry.messageId
      { sequence := entry.sequence
        consumerId := consumerId
        status := .inFlight visibilityDeadline
        attempts := entry.attempts
        deliveredAt := deliveredAt
        lastError := none }
    nextSequence := max g.nextSequence (entry.sequence + 1) }

/-- `BrokerAcked` and `BrokerDeadLettered`; without a delivery the event's own sequence is settled.
-/
def settleMessage (messageId : Nat) (sequence : Option Nat) (g : GroupState) : GroupState :=
  let removed := { g with deliveries := g.deliveries.erase messageId }
  (((g.deliveries.lookup messageId).map Delivery.sequence).or sequence).elim removed removed.settle

/-- `BrokerNacked`. -/
def release (messageId : Nat) (availableAt : Int) (error : Option String) (g : GroupState) :
    GroupState :=
  { g with
    deliveries := Table.modify messageId
      (fun delivery => { delivery with status := .available availableAt, lastError := error })
      g.deliveries }

end GroupState

/-! ## Replay -/

namespace BrokerState

/-- The messages of a queue; none for an unknown one. -/
def messages (s : BrokerState) (queue : String) : QueueMessages :=
  (s.queues.lookup queue).getD ⟨[], 0⟩

/-- The state of a group of a queue. -/
def group (s : BrokerState) (queue group : String) : Option GroupState :=
  s.groups.lookup (queue, group)

/-- Changes a group that exists. -/
def updateGroup (s : BrokerState) (queue group : String) (f : GroupState → GroupState) :
    BrokerState :=
  { s with groups := Table.modify (queue, group) f s.groups }

/-- A new group starts at the first retained message. -/
def startOf (messages : QueueMessages) : Nat :=
  (messages.entries.head?.map Prod.fst).getD messages.nextSequence

/-- The idempotency keys with that of a new message. -/
def rememberKey (s : BrokerState) (queue : String) (id sequence : Nat) :
    Option String → Table (String × String) (Nat × Nat)
  | none => s.idempotency
  | some key =>
    if (s.idempotency.lookup (queue, key)).isSome then s.idempotency
    else s.idempotency.insert (queue, key) (id, sequence)

/-- The effect of one event. -/
def apply {ν : Type u} (s : BrokerState) (stored : StoredEvent ν) : BrokerState :=
  match stored.event with
  | .queueMessage queue _ _ metadata =>
    let messages := s.messages queue
    let sequence := messages.nextSequence
    { s with
      queues := s.queues.insert queue ⟨messages.entries ++ [(sequence, stored.id)], sequence + 1⟩
      idempotency := s.rememberKey queue stored.id sequence
        (metadata.bind MessageMeta.idempotencyKey) }
  | .queueTrimmed queue through _ =>
    let messages := s.messages queue
    { s with
      queues := s.queues.insert queue
        ⟨messages.entries.filter fun entry => decide (through < entry.1),
          max messages.nextSequence (through + 1)⟩
      groups := Table.mapValues
        (fun key g => if key.1 = queue then g.applyTrim through else g) s.groups }
  | .queueConfigured queue config _ =>
    { s with configs := s.configs.insert queue config.reread }
  | .groupCreated queue group createdAt =>
    if (s.group queue group).isSome then s
    else
      { s with
        groups := s.groups.insert (queue, group)
          (GroupState.new createdAt (startOf (s.messages queue))) }
  | .delivered queue group consumerId deliveredAt visibilityDeadline deliveries =>
    s.updateGroup queue group fun g =>
      deliveries.foldl (GroupState.deliver consumerId deliveredAt visibilityDeadline) g
  | .acked queue group _ messageId sequence _ =>
    s.updateGroup queue group (GroupState.settleMessage messageId sequence)
  | .nacked queue group _ messageId _ availableAt error _ =>
    s.updateGroup queue group (GroupState.release messageId availableAt error)
  | .deadLettered queue group messageId sequence _ _ _ =>
    s.updateGroup queue group (GroupState.settleMessage messageId (some sequence))
  | .redriven queue group dlqEventIds _ =>
    s.updateGroup queue group fun g => { g with redriven := g.redriven ∪ dlqEventIds.toFinset }
  | .deadLetteredMessage .. => s
  | .other _ => s

/-- The state a log stands for. -/
def rebuild {ν : Type u} (events : List (StoredEvent ν)) : BrokerState :=
  events.foldl apply default

@[simp] theorem rebuild_append_singleton {ν : Type u} (events : List (StoredEvent ν))
    (stored : StoredEvent ν) : rebuild (events ++ [stored]) = (rebuild events).apply stored := by
  simp [rebuild]

theorem group_updateGroup (s : BrokerState) (q g q' g' : String) (f : GroupState → GroupState) :
    (s.updateGroup q g f).group q' g' =
      if q' = q ∧ g' = g then (s.group q' g').map f else s.group q' g' := by
  rw [group, updateGroup, Table.lookup_modify]
  simp only [Prod.mk.injEq]
  rfl

end BrokerState

end BicDb.Broker
