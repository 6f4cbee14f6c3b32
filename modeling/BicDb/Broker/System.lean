import BicDb.Broker.Operations

/-!
# Runs of a broker

The system keeps the stream, the time of the last call, and every message a consume returned.
-/

namespace BicDb.Broker

universe u

/-- The stream, the clock, and every message returned so far. -/
structure System (ν : Type u) where
  stream : EventStream ν
  clock : Int
  received : List (BrokerMessage ν)

/-- An empty log. -/
def System.initial (ν : Type u) (clock : Int) : System ν := ⟨EventStream.empty ν, clock, []⟩

/-- The calls of the broker. -/
inductive Call (ν : Type u) where
  | publish (queue : String) (payload : ν) (options : PublishOptions ν)
  | publishPrepared (messageId : Nat) (queue : String) (payload : ν) (options : PublishOptions ν)
  | enqueue (queue : String) (payload : ν) (metadata : Option (MessageMeta ν))
  | consume (queue group consumerId : String) (options : ConsumeOptions)
  | ack (queue group consumerId : String) (messageId : Nat)
  | nack (queue group consumerId : String) (messageId : Nat) (options : NackOptions)
  | configure (queue : String) (config : QueueConfig)
  | trim (queue : String)
  | redrive (queue group : String) (max : Nat)
  | purge (queue group : String)

/-- A call with its time and the outcomes of its writes and rewrites. -/
structure Action (ν : Type u) where
  call : Call ν
  now : Int
  writes : Writes
  rewrites : List Rewrite

variable {ν : Type u}

/-- The outcome of the call's first rewrite; a redrive may have more. -/
def Action.rewrite (a : Action ν) : Rewrite := a.rewrites.headD .done

/-- The stream after the call. -/
def Action.run (a : Action ν) (stream : EventStream ν) : EventStream ν :=
  match a.call with
  | .publish queue payload options =>
    (publishWith a.writes a.rewrite queue payload options a.now stream).2
  | .publishPrepared messageId queue payload options =>
    (Broker.publishPrepared a.writes messageId queue payload options a.now stream).2
  | .enqueue queue payload metadata => Broker.enqueue a.writes queue payload metadata a.now stream
  | .consume queue group consumerId options =>
    (Broker.consume a.writes queue group consumerId options a.now stream).2
  | .ack queue group consumerId messageId =>
    (Broker.ack a.writes queue group consumerId messageId a.now stream).2
  | .nack queue group consumerId messageId options =>
    (Broker.nack a.writes queue group consumerId messageId options a.now stream).2
  | .configure queue config => (configureQueue a.writes queue config a.now stream).2
  | .trim queue => (Broker.trim a.rewrite queue a.now stream).2
  | .redrive queue group max =>
    redriveDeadLetters a.writes a.rewrites queue group max a.now stream
  | .purge queue group => (purgeDeadLetters a.rewrite queue group stream).2

/-- The messages that the call returns. -/
def Action.returns (a : Action ν) (stream : EventStream ν) : List (BrokerMessage ν) :=
  match a.call with
  | .consume queue group consumerId options =>
    match (Broker.consume a.writes queue group consumerId options a.now stream).1 with
    | .ok messages => messages
    | .error _ => []
  | _ => []

/-- A call at a time that is not before the last one. -/
def step (s : System ν) (a : Action ν) : Option (System ν) :=
  if a.now < s.clock then none
  else some ⟨a.run s.stream, a.now, s.received ++ a.returns s.stream⟩

/-- The calls of the delivery protocol, which do not trim. -/
def Call.isDelivery : Call ν → Bool
  | .publish .. => true
  | .consume .. => true
  | .ack .. => true
  | .nack .. => true
  | _ => false

end BicDb.Broker
