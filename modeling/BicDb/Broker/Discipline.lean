import BicDb.Broker.Appending
import BicDb.Foundation.FirstBy

/-!
# Lawful broker logs

`Legal` says when an event may be appended: a batch hands out deliveries that are due and the next
fresh messages, an ack or a dead letter is about an open delivery. The rules speak of the log alone
(`handOuts`, `settlements`); `GroupOk` ties them to the state that `apply` computes.
-/

namespace BicDb.Broker

open BicDb.Foundation BrokerState EventStream List BrokerEvent Table

variable {ν : Type*}

/-! ## What a log says was done -/

/-- One hand-out: message, attempt number and times. -/
structure HandOut where
  messageId : Nat
  sequence : Nat
  attempts : Nat
  deliveredAt : Int
  visibilityDeadline : Int
  deriving DecidableEq

namespace BrokerEvent

/-- The hand-outs of a group in an event. -/
def handOuts (queue group : String) : BrokerEvent ν → List HandOut
  | .delivered q g _ deliveredAt visibilityDeadline deliveries =>
    if q = queue ∧ g = group then
      deliveries.map fun entry =>
        ⟨entry.messageId, entry.sequence, entry.attempts, deliveredAt, visibilityDeadline⟩
    else []
  | _ => []

/-- The sequence that an event settles for a group. -/
def settlement (queue group : String) : BrokerEvent ν → Option Nat
  | .acked q g _ _ sequence _ => if q = queue ∧ g = group then sequence else none
  | .deadLettered q g _ sequence _ _ _ => if q = queue ∧ g = group then some sequence else none
  | _ => none

/-- Whether an event gives the message back. -/
def nacks (queue group : String) (messageId : Nat) : BrokerEvent ν → Bool
  | .nacked q g _ id _ _ _ _ => decide (q = queue ∧ g = group ∧ id = messageId)
  | _ => false

end BrokerEvent

/-- The hand-outs of a group, oldest first. -/
def handOuts (events : List (StoredEvent ν)) (queue group : String) : List HandOut :=
  events.flatMap fun stored => stored.event.handOuts queue group

/-- The sequences settled for a group. -/
def settlements (events : List (StoredEvent ν)) (queue group : String) : List Nat :=
  events.filterMap fun stored => stored.event.settlement queue group

section

variable (stream : EventStream ν) (event : BrokerEvent ν) (q g : String)

theorem handOuts_append : handOuts (stream.append event).events q g =
    handOuts stream.events q g ++ event.handOuts q g := by
  simp [handOuts, append]

theorem settlements_append : settlements (stream.append event).events q g =
    settlements stream.events q g ++ (event.settlement q g).toList := by
  cases h : event.settlement q g <;> simp [settlements, append, h]

end

/-! ## Legal events -/

/-- A delivery that is due, one attempt further, or the next fresh message. -/
structure EntryLegal (entries : List (Nat × Nat)) (maxAttempts : Nat → Nat) (now : Int)
    (g : GroupState) (entry : DeliveryEntry) : Prop where
  bounded : entry.attempts ≤ maxAttempts entry.messageId
  source : (∃ d, g.deliveries.lookup entry.messageId = some d ∧ d.sequence = entry.sequence ∧
      d.status.due now = true ∧ entry.attempts = nextAttempt d.attempts) ∨
    (entry.sequence = g.nextSequence ∧ (entry.sequence, entry.messageId) ∈ entries ∧
      entry.attempts = 1)

/-- Each entry is due and numbered by one more, in the state left by those before. -/
def BatchLegal (entries : List (Nat × Nat)) (maxAttempts : Nat → Nat) (consumerId : String)
    (now visibilityDeadline : Int) : GroupState → List DeliveryEntry → Prop
  | _, [] => True
  | g, entry :: rest =>
    EntryLegal entries maxAttempts now g entry ∧
      BatchLegal entries maxAttempts consumerId now visibilityDeadline
        (g.deliver consumerId now visibilityDeadline entry) rest

/-- An event that publish, consume, ack and nack append. -/
def Legal (now : Int) (stream : EventStream ν) : BrokerEvent ν → Prop
  | .queueTrimmed .. => False
  | .queueConfigured .. => False
  | .groupCreated q g _ => stream.brokerState.group q g = none
  | .delivered q g consumerId deliveredAt visibilityDeadline batch =>
    deliveredAt = now ∧ (batch.map DeliveryEntry.messageId).Nodup ∧
      ∃ gs, stream.brokerState.group q g = some gs ∧
        BatchLegal (stream.brokerState.messages q).entries stream.maxAttempts consumerId now
          visibilityDeadline gs batch
  | .acked q g _ messageId sequence _ =>
    ∃ gs d, stream.brokerState.group q g = some gs ∧ gs.deliveries.lookup messageId = some d ∧
      sequence = some d.sequence
  | .deadLettered q g messageId sequence _ _ _ =>
    ∃ gs d, stream.brokerState.group q g = some gs ∧ gs.deliveries.lookup messageId = some d ∧
      sequence = d.sequence
  | _ => True

/-- A log built by legal appends, with the time of its last call. -/
inductive LegalLog : Int → EventStream ν → Prop where
  | empty (now : Int) : LegalLog now (EventStream.empty ν)
  | wait {clock now : Int} {stream : EventStream ν} :
      LegalLog clock stream → clock ≤ now → LegalLog now stream
  | append {now : Int} {stream : EventStream ν} {event : BrokerEvent ν} :
      LegalLog now stream → Legal now stream event → LegalLog now (stream.append event)

/-! ## Replay and identifiers -/

variable {clock : Int} {stream : EventStream ν}

theorem LegalLog.streamOk (h : LegalLog clock stream) : StreamOk stream := by
  induction h with
  | empty now => exact ⟨rfl, by simp [EventStream.empty], by simp [EventStream.empty]⟩
  | wait _ _ ih => exact ih
  | append _ _ ih => exact ih.append _

theorem LegalLog.configs (h : LegalLog clock stream) : stream.brokerState.configs = ∅ := by
  induction h with
  | empty now => rfl
  | wait _ _ ih => exact ih
  | append _ hlegal ih =>
    rename_i now stream event _
    cases event with
    | queueTrimmed | queueConfigured => exact False.elim hlegal
    | groupCreated => rwa [brokerState_append, configs_apply_created]
    | _ => exact ih

/-! ## Queues -/

/-- A queue that was never trimmed is numbered from zero. -/
structure QueueOk (stream : EventStream ν) (m : QueueMessages) : Prop where
  sequences : m.entries.map Prod.fst = List.range m.entries.length
  next : m.nextSequence = m.entries.length
  idsNodup : (m.entries.map Prod.snd).Nodup
  idLt : ∀ entry ∈ m.entries, entry.2 < stream.nextId
  message : ∀ entry ∈ m.entries, (stream.message entry.2).isSome = true

variable {m : QueueMessages}

theorem QueueOk.sequence_eq (h : QueueOk stream m) {i : Nat} {entry : Nat × Nat}
    (hget : m.entries[i]? = some entry) : entry.1 = i := by
  have hmap := congrArg (fun l => l[i]?) h.sequences
  simp only [getElem?_map, hget, Option.map_some] at hmap
  obtain ⟨hlt, hval⟩ := List.getElem?_eq_some_iff.1 hmap.symm
  simpa using hval.symm

theorem QueueOk.sequence_unique (h : QueueOk stream m) {id a b : Nat} (ha : (a, id) ∈ m.entries)
    (hb : (b, id) ∈ m.entries) :
    a = b := by
  exact congrArg Prod.fst (inj_on_of_nodup_map h.idsNodup ha hb rfl)

theorem QueueOk.id_unique (h : QueueOk stream m) {sequence a b : Nat}
    (ha : (sequence, a) ∈ m.entries) (hb : (sequence, b) ∈ m.entries) :
    a = b := by
  have hnodup : (m.entries.map Prod.fst).Nodup := by
    rw [h.sequences]
    exact nodup_range
  exact congrArg Prod.snd (inj_on_of_nodup_map hnodup ha hb rfl)

variable {event : BrokerEvent ν}

theorem QueueOk.append (h : QueueOk stream m) (event : BrokerEvent ν) :
    QueueOk (stream.append event) m := by
  refine { h with idLt := fun entry he => Nat.lt_succ_of_lt (h.idLt entry he), message := ?_ }
  intro entry he
  obtain ⟨m', hm⟩ := Option.isSome_iff_exists.1 (h.message entry he)
  rw [message_append hm]
  rfl

theorem QueueOk.push (hs : StreamOk stream) (h : QueueOk stream m) (q : String) (timestamp : Int)
    (payload : ν) (metadata : Option (MessageMeta ν)) :
    QueueOk (stream.append (.queueMessage q timestamp payload metadata))
      ⟨m.entries ++ [(m.nextSequence, stream.nextId)], m.nextSequence + 1⟩ where
  sequences := by
    rw [map_append, h.sequences, h.next, length_append, length_singleton, range_succ]
    rfl
  next := by simp [h.next]
  idsNodup := by
    rw [map_append, map_singleton, ← concat_eq_append]
    refine Nodup.concat (fun hmem => ?_) h.idsNodup
    obtain ⟨entry, he, heq⟩ := mem_map.1 hmem
    exact (h.idLt entry he).ne heq
  idLt :=
    forall_mem_append.2 ⟨(h.append (.other q)).idLt, forall_mem_singleton.2 (Nat.lt_succ_self _)⟩
  message := forall_mem_append.2 ⟨(h.append _).message, forall_mem_singleton.2 (by
    have hnone : stream.events.find? (fun stored => stored.id == stream.nextId) = none :=
      find?_eq_none.2 fun stored hmem heq => (hs.idLt stored hmem).ne (beq_iff_eq.1 heq)
    simp [EventStream.message, eventById, EventStream.append, find?_append, hnone,
      BrokerEvent.message?])⟩

theorem LegalLog.queueOk (h : LegalLog clock stream) (q : String) :
    QueueOk stream (stream.brokerState.messages q) := by
  induction h with
  | empty now =>
    exact ⟨rfl, rfl, nodup_nil, nofun, nofun⟩
  | wait _ _ ih => exact ih
  | append hlog hlegal ih =>
    rename_i now stream event
    cases event with
    | queueMessage q' timestamp payload metadata =>
      rw [brokerState_append, messages_apply_message]
      split_ifs with hq
      · subst hq
        exact ih.push hlog.streamOk q timestamp payload metadata
      · exact ih.append _
    | queueTrimmed => exact False.elim hlegal
    | groupCreated =>
      rw [brokerState_append, messages_apply_created]
      exact ih.append _
    | _ => exact ih.append _

/-! ## Groups -/

/-- A group's state agrees with its hand-outs and settlements. -/
structure GroupOk (entries : List (Nat × Nat)) (g : GroupState) (hand : List HandOut)
    (settled : List Nat) : Prop where
  next_le : g.nextSequence ≤ entries.length
  open_mem : ∀ id d, g.deliveries.lookup id = some d →
    (d.sequence, id) ∈ entries ∧ d.sequence < g.nextSequence ∧ d.sequence ∉ settled
  covered : ∀ sequence id, (sequence, id) ∈ entries → sequence < g.nextSequence →
    sequence ∈ settled ∨ ∃ d, g.deliveries.lookup id = some d
  settled_iff : ∀ n, g.settled.Contains n ↔ n ∈ settled
  settled_lt : ∀ n ∈ settled, n < g.nextSequence
  firsts : firstBy id (hand.map HandOut.sequence) = List.range g.nextSequence
  hand_mem : ∀ h ∈ hand, (h.sequence, h.messageId) ∈ entries ∧ h.sequence < g.nextSequence
  attempts : ∀ id d, g.deliveries.lookup id = some d →
    d.attempts = min (hand.countP fun h => h.messageId = id) u32Max

variable {g : GroupState} {hand : List HandOut} {settled : List Nat} {maxAttempts : Nat → Nat}
  {now : Int}

section

variable (h : GroupOk m.entries g hand settled)

include h

theorem GroupOk.push (hq : QueueOk stream m) (id : Nat) :
    GroupOk (m.entries ++ [(m.nextSequence, id)]) g hand settled := by
  have hle := h.next_le
  refine { h with
    next_le := hle.trans (by simp)
    open_mem := fun id d hd => (h.open_mem id d hd).imp_left (mem_append_left _)
    covered := fun sequence id' hmem hlt => ?_
    hand_mem := fun x hx => (h.hand_mem x hx).imp_left (mem_append_left _) }
  rcases mem_append.1 hmem with hmem | hmem
  · exact h.covered sequence id' hmem hlt
  -- the new message lies beyond what the group has seen
  have hnext := hq.next
  simp only [mem_singleton, Prod.mk.injEq] at hmem
  omega

theorem GroupOk.entry (hq : QueueOk stream m)
    {entry : DeliveryEntry} (hentry : EntryLegal m.entries maxAttempts now g entry) :
    (entry.sequence, entry.messageId) ∈ m.entries ∧ entry.sequence ≤ g.nextSequence ∧
      entry.sequence ∉ settled ∧
      entry.attempts = min ((hand.countP fun x => x.messageId = entry.messageId) + 1) u32Max := by
  rcases hentry.source with ⟨d, hd, hseq, -, hatt⟩ | ⟨hseq, hmem, hatt⟩
  · obtain ⟨hmem, hlt, hfree⟩ := h.open_mem _ d hd
    rw [hseq] at hmem hlt hfree
    refine ⟨hmem, Nat.le_of_lt hlt, hfree, ?_⟩
    rw [hatt, h.attempts _ d hd, nextAttempt]
    omega
  · refine ⟨hmem, Nat.le_of_eq hseq, ?_, ?_⟩
    · intro hs
      have := h.settled_lt _ hs
      omega
    · -- a fresh message was not handed out before
      have hzero : hand.countP (fun x => decide (x.messageId = entry.messageId)) = 0 := by
        rw [countP_eq_zero]
        intro x hx heq
        obtain ⟨hx1, hx2⟩ := h.hand_mem x hx
        rw [of_decide_eq_true heq] at hx1
        have := hq.sequence_unique hx1 hmem
        omega
      rw [hatt, hzero]
      rfl

/-- A legal delivery keeps the group in order. -/
theorem GroupOk.deliver (hq : QueueOk stream m)
    {entry : DeliveryEntry} (hentry : EntryLegal m.entries maxAttempts now g entry)
    (consumerId : String) (deliveredAt visibilityDeadline : Int) :
    GroupOk m.entries (g.deliver consumerId deliveredAt visibilityDeadline entry)
      (hand ++ [⟨entry.messageId, entry.sequence, entry.attempts, deliveredAt,
        visibilityDeadline⟩]) settled := by
  obtain ⟨hmem, hle, hfree, hcount⟩ := h.entry hq hentry
  have hnext : (g.deliver consumerId deliveredAt visibilityDeadline entry).nextSequence =
      max g.nextSequence (entry.sequence + 1) := rfl
  have hlen : entry.sequence < m.entries.length :=
    mem_range.1 (hq.sequences ▸ mem_map_of_mem hmem)
  have hnext_le := h.next_le
  constructor
  · omega
  · intro id d hd
    rw [GroupState.deliver, lookup_insert_eq] at hd
    split_ifs at hd with hid
    · cases hd
      subst hid
      exact ⟨hmem, by rw [hnext]; simp only; omega, hfree⟩
    · obtain ⟨h1, h2, h3⟩ := h.open_mem id d hd
      exact ⟨h1, by rw [hnext]; omega, h3⟩
  · intro sequence id hseq hlt
    rw [GroupState.deliver, lookup_insert_eq]
    split_ifs with hid
    · exact .inr ⟨_, rfl⟩
    · apply h.covered sequence id hseq
      -- only the line itself lies between the old and the new bound
      rcases Nat.lt_or_ge sequence g.nextSequence with hlt' | hge
      · exact hlt'
      · have hsame : sequence = entry.sequence := by omega
        exact absurd (hq.id_unique (hsame ▸ hseq) hmem) hid
  · exact h.settled_iff
  · intro n hn
    have := h.settled_lt n hn
    omega
  · rw [map_append, map_singleton, firstBy_append_singleton, h.firsts, hnext]
    rcases Nat.lt_or_ge entry.sequence g.nextSequence with hlt | hge
    · have hold : max g.nextSequence (entry.sequence + 1) = g.nextSequence := by omega
      rw [hold]
      exact addFirst_of_mem (mem_range.2 hlt) rfl
    · have hnew : max g.nextSequence (entry.sequence + 1) = g.nextSequence + 1 := by omega
      rw [hnew, range_succ]
      have hseq : entry.sequence = g.nextSequence := by omega
      rw [hseq]
      refine addFirst_of_new fun y hy heq => ?_
      have := mem_range.1 hy
      simp only [id_eq] at heq
      omega
  · rw [hnext]
    refine forall_mem_append.2 ⟨fun x hx => ?_, forall_mem_singleton.2 ⟨hmem, by simp only; omega⟩⟩
    obtain ⟨h1, h2⟩ := h.hand_mem x hx
    exact ⟨h1, by omega⟩
  · intro id d hd
    rw [GroupState.deliver, lookup_insert_eq] at hd
    split_ifs at hd with hid
    · cases hd
      subst hid
      simpa using hcount
    · have hne : ¬ entry.messageId = id := fun h' => hid h'.symm
      simpa [hne] using h.attempts id d hd

theorem GroupOk.deliverAll (hq : QueueOk stream m) {consumerId : String} {visibilityDeadline : Int}
    {batch : List DeliveryEntry}
    (hbatch : BatchLegal m.entries maxAttempts consumerId now visibilityDeadline g batch) :
    GroupOk m.entries (batch.foldl (GroupState.deliver consumerId now visibilityDeadline) g)
      (hand ++ batch.map fun entry => ⟨entry.messageId, entry.sequence, entry.attempts, now,
        visibilityDeadline⟩) settled := by
  induction batch generalizing g hand with
  | nil => simpa using h
  | cons entry rest ih =>
    have hone := h.deliver hq hbatch.1 consumerId now visibilityDeadline
    have hall := ih hone hbatch.2
    rwa [append_assoc] at hall

theorem GroupOk.settleMessage (hq : QueueOk stream m)
    {id : Nat} {d : Delivery} (hd : g.deliveries.lookup id = some d) (sequence : Option Nat) :
    GroupOk m.entries (g.settleMessage id sequence) hand (settled ++ [d.sequence]) := by
  obtain ⟨hmem, hlt, hfree⟩ := h.open_mem id d hd
  rw [settleMessage_of_lookup hd]
  -- the deliveries that stay open are of other messages
  have hother : ∀ id' d', (g.deliveries.erase id).lookup id' = some d' →
      id' ≠ id ∧ g.deliveries.lookup id' = some d' := by
    intro id' d' hd'
    rw [lookup_erase_eq] at hd'
    split_ifs at hd' with hne
    exact ⟨hne, hd'⟩
  refine { h with
    open_mem := fun id' d' hd' => ?_, covered := fun sequence' id' hmem' hlt' => ?_
    settled_iff := fun n => ?_
    settled_lt := forall_mem_append.2 ⟨h.settled_lt, forall_mem_singleton.2 hlt⟩
    attempts := fun id' d' hd' => h.attempts id' d' (hother id' d' hd').2 }
  · obtain ⟨hne, hd'⟩ := hother id' d' hd'
    obtain ⟨hmem', hlt', hfree'⟩ := h.open_mem id' d' hd'
    refine ⟨hmem', hlt', ?_⟩
    rw [mem_append, mem_singleton]
    rintro (hin | heq)
    · exact hfree' hin
    · exact hne (hq.id_unique (heq ▸ hmem') hmem)
  · dsimp only
    rw [lookup_erase_eq, mem_append, mem_singleton]
    by_cases hid : id' = id
    · subst hid
      exact .inl (.inr (hq.sequence_unique hmem' hmem))
    · rw [if_neg hid]
      exact (h.covered sequence' id' hmem' hlt').imp_left .inl
  · rw [Watermark.contains_add, h.settled_iff, mem_append, mem_singleton]

theorem GroupOk.release (id : Nat) (availableAt : Int)
    (error : Option String) :
    GroupOk m.entries (g.release id availableAt error) hand settled := by
  have hlookup : ∀ id' d', (g.release id availableAt error).deliveries.lookup id' = some d' →
      ∃ d, g.deliveries.lookup id' = some d ∧ d'.sequence = d.sequence ∧
        d'.attempts = d.attempts := by
    intro id' d' hd'
    rw [GroupState.release, lookup_modify] at hd'
    split at hd'
    · obtain ⟨d, hd, rfl⟩ := Option.map_eq_some_iff.1 hd'
      exact ⟨d, hd, rfl, rfl⟩
    · exact ⟨d', hd', rfl, rfl⟩
  refine { h with
    open_mem := fun id' d' hd' => ?_, covered := fun sequence id' hmem hlt => ?_
    attempts := fun id' d' hd' => ?_ }
  · obtain ⟨d, hd, hseq, -⟩ := hlookup id' d' hd'
    rw [hseq]
    exact h.open_mem id' d hd
  · rcases h.covered sequence id' hmem hlt with hin | ⟨d, hd⟩
    · exact .inl hin
    · refine .inr ?_
      rw [GroupState.release, lookup_modify, hd]
      split
      · exact ⟨_, rfl⟩
      · exact ⟨d, rfl⟩
  · obtain ⟨d, hd, -, hatt⟩ := hlookup id' d' hd'
    rw [hatt]
    exact h.attempts id' d hd

omit h in
theorem groupOk_new (hq : QueueOk stream m) (createdAt : Int) :
    GroupOk m.entries (GroupState.new createdAt (BrokerState.startOf m)) [] [] := by
  have hstart : startOf m = 0 := by
    have hseq := hq.sequences
    have hnext := hq.next
    unfold startOf
    cases hentries : m.entries with
    | nil => simpa [hentries] using hnext
    | cons =>
      rw [hentries, length_cons, range_succ_eq_map, map_cons, cons.injEq] at hseq
      simpa using hseq.1
  rw [hstart]
  refine ⟨Nat.zero_le _, nofun, fun _ _ _ hlt => absurd hlt (Nat.not_lt_zero _), fun n => ?_, nofun,
    rfl, nofun, nofun⟩
  simp [GroupState.new, Watermark.contains_below]

theorem GroupOk.redriven (ids : Finset Nat) :
    GroupOk m.entries { g with redriven := ids } hand settled :=
  { h with }

end

/-- A group agrees with the log; a missing group has no events. -/
structure GroupKept (stream : EventStream ν) (q g : String) : Prop where
  present : ∀ gs, stream.brokerState.group q g = some gs →
    GroupOk (stream.brokerState.messages q).entries gs (handOuts stream.events q g)
      (settlements stream.events q g)
  absent : stream.brokerState.group q g = none →
    handOuts stream.events q g = [] ∧ settlements stream.events q g = []

variable {q g : String}

theorem GroupKept.frame (h : GroupKept stream q g)
    (hmessages : (stream.append event).brokerState.messages q = stream.brokerState.messages q)
    (hgroup : (stream.append event).brokerState.group q g = stream.brokerState.group q g)
    (hhand : event.handOuts q g = []) (hsettle : event.settlement q g = none) :
    GroupKept (stream.append event) q g := by
  have hhand' : handOuts (stream.append event).events q g = handOuts stream.events q g := by
    rw [handOuts_append, hhand, append_nil]
  have hsettle' : settlements (stream.append event).events q g =
      settlements stream.events q g := by
    rw [settlements_append, hsettle]
    simp
  constructor
  · intro gs hgs
    rw [hmessages, hhand', hsettle']
    exact h.present gs (hgroup ▸ hgs)
  · intro hnone
    rw [hhand', hsettle']
    exact h.absent (hgroup ▸ hnone)

variable {q' g' : String} {f : GroupState → GroupState}

theorem GroupKept.update (h : GroupKept stream q g)
    (hstate : (stream.append event).brokerState = stream.brokerState.updateGroup q' g' f)
    (hother : ¬ (q' = q ∧ g' = g) → event.handOuts q g = [] ∧ event.settlement q g = none)
    (hkeep : q' = q → g' = g → ∀ gs, stream.brokerState.group q g = some gs →
      GroupOk (stream.brokerState.messages q).entries (f gs)
        (handOuts stream.events q g ++ event.handOuts q g)
        (settlements stream.events q g ++ (event.settlement q g).toList))
    (habsent : q' = q → g' = g → stream.brokerState.group q g = none →
      event.handOuts q g = [] ∧ event.settlement q g = none) :
    GroupKept (stream.append event) q g := by
  have hmessages : (stream.append event).brokerState.messages q =
      stream.brokerState.messages q := by
    rw [hstate]
    rfl
  have hgroup := (congrArg (BrokerState.group · q g) hstate).trans (group_updateGroup ..)
  by_cases hsame : q' = q ∧ g' = g
  · obtain ⟨rfl, rfl⟩ := hsame
    rw [if_pos ⟨rfl, rfl⟩] at hgroup
    constructor
    · intro gs hgs
      rw [hgroup] at hgs
      obtain ⟨gs', hgs', rfl⟩ := Option.map_eq_some_iff.1 hgs
      rw [hmessages, handOuts_append, settlements_append]
      exact hkeep rfl rfl gs' hgs'
    · intro hnone
      rw [hgroup, Option.map_eq_none_iff] at hnone
      obtain ⟨hhand, hsettle⟩ := habsent rfl rfl hnone
      rw [handOuts_append, settlements_append, hhand, hsettle, (h.absent hnone).1,
        (h.absent hnone).2]
      exact ⟨rfl, rfl⟩
  · rw [if_neg fun h' => hsame ⟨h'.1.symm, h'.2.symm⟩] at hgroup
    exact h.frame hmessages hgroup (hother hsame).1 (hother hsame).2

theorem GroupKept.settle (h : GroupKept stream q g)
    (hq : QueueOk stream (stream.brokerState.messages q)) {gs : GroupState} {id : Nat}
    {d : Delivery} (hgs : stream.brokerState.group q' g' = some gs)
    (hd : gs.deliveries.lookup id = some d) {sequence : Option Nat}
    (hstate : (stream.append event).brokerState =
      stream.brokerState.updateGroup q' g' (GroupState.settleMessage id sequence))
    (hhand : event.handOuts q g = [])
    (hsettle : event.settlement q g = if q' = q ∧ g' = g then some d.sequence else none) :
    GroupKept (stream.append event) q g := by
  refine h.update hstate (fun hne => ⟨hhand, hsettle.trans (if_neg hne)⟩) ?_ ?_
  · rintro rfl rfl gs' hgs'
    cases hgs.symm.trans hgs'
    rw [hhand, hsettle, if_pos ⟨rfl, rfl⟩, append_nil]
    exact (h.present gs hgs).settleMessage hq hd sequence
  · rintro rfl rfl hnone
    cases hgs.symm.trans hnone

/-- A legal event keeps what is known of a group. -/
theorem GroupKept.append (h : GroupKept stream q g)
    (hq : QueueOk stream (stream.brokerState.messages q)) (hlegal : Legal now stream event) :
    GroupKept (stream.append event) q g := by
  cases event with
  | queueTrimmed | queueConfigured => exact False.elim hlegal
  | deadLetteredMessage | other => exact h.frame rfl rfl rfl rfl
  | queueMessage q' =>
    by_cases hqq : q = q'
    · subst hqq
      constructor
      · intro gs hgs
        rw [brokerState_append, messages_apply_message, if_pos rfl, handOuts_append,
          settlements_append]
        simpa [BrokerEvent.handOuts, BrokerEvent.settlement] using
          (h.present gs hgs).push hq stream.nextId
      · intro hnone
        rw [handOuts_append, settlements_append]
        simpa [BrokerEvent.handOuts, BrokerEvent.settlement] using h.absent hnone
    · exact h.frame ((messages_apply_message ..).trans (if_neg hqq)) rfl rfl rfl
  | groupCreated q' g' createdAt =>
    have hgroup := @group_apply_created ν stream.brokerState stream.nextId q' g' q g createdAt
    by_cases hsame : q = q' ∧ g = g'
    · obtain ⟨rfl, rfl⟩ := hsame
      rw [if_pos ⟨rfl, rfl⟩, show stream.brokerState.group q g = none from hlegal] at hgroup
      obtain ⟨hhand, hsettle⟩ := h.absent hlegal
      constructor
      · intro gs hgs
        cases hgroup.symm.trans hgs
        rw [brokerState_append, messages_apply_created, handOuts_append, settlements_append, hhand,
          hsettle]
        exact groupOk_new hq createdAt
      · intro hnone
        cases hgroup.symm.trans hnone
    · refine h.frame ?_ (hgroup.trans (if_neg hsame)) rfl rfl
      rw [brokerState_append, messages_apply_created]
  | delivered =>
    obtain ⟨rfl, -, gs, hgs, hbatch⟩ := hlegal
    refine h.update rfl (fun hne => ⟨if_neg hne, rfl⟩) ?_ ?_
    · rintro rfl rfl gs' hgs'
      cases hgs.symm.trans hgs'
      simpa [BrokerEvent.handOuts, BrokerEvent.settlement] using
        (h.present gs hgs).deliverAll hq hbatch
    · rintro rfl rfl hnone
      cases hgs.symm.trans hnone
  | acked | deadLettered =>
    obtain ⟨gs, d, hgs, hd, rfl⟩ := hlegal
    exact h.settle hq hgs hd rfl rfl rfl
  | nacked q' g' consumerId messageId sequence availableAt error =>
    refine h.update rfl (fun _ => ⟨rfl, rfl⟩) (fun _ _ gs hgs => ?_) fun _ _ _ => ⟨rfl, rfl⟩
    simpa [BrokerEvent.handOuts, BrokerEvent.settlement] using
      (h.present gs hgs).release messageId availableAt error
  | redriven =>
    refine h.update rfl (fun _ => ⟨rfl, rfl⟩) (fun _ _ gs hgs => ?_) fun _ _ _ => ⟨rfl, rfl⟩
    simpa [BrokerEvent.handOuts, BrokerEvent.settlement] using (h.present gs hgs).redriven _

/-- **In a legal log every group agrees with the log.** -/
theorem LegalLog.groupKept (h : LegalLog clock stream) (q g : String) : GroupKept stream q g := by
  induction h with
  | empty now =>
    constructor
    · intro gs hgs
      simp [EventStream.empty, BrokerState.default, BrokerState.group] at hgs
    · exact fun _ => ⟨rfl, rfl⟩
  | wait _ _ ih => exact ih
  | append hlog hlegal ih => exact ih.append (hlog.queueOk q) hlegal

/-! ## Hand-outs -/

variable {consumerId : String} {visibilityDeadline : Int}

variable {batch : List DeliveryEntry}

theorem BatchLegal.entry (hq : QueueOk stream m) {g : GroupState}
    (h : GroupOk m.entries g hand settled)
    (hbatch : BatchLegal m.entries maxAttempts consumerId now visibilityDeadline g batch)
    (hnodup : (batch.map DeliveryEntry.messageId).Nodup) {entry : DeliveryEntry}
    (hmem : entry ∈ batch) :
    entry.sequence ∉ settled ∧ entry.attempts ≤ maxAttempts entry.messageId ∧
      entry.attempts = min ((hand.countP fun x => x.messageId = entry.messageId) + 1) u32Max ∧
      ∀ d, g.deliveries.lookup entry.messageId = some d → d.status.due now = true := by
  induction batch generalizing g hand with
  | nil => cases hmem
  | cons first rest ih =>
    rw [map_cons, nodup_cons] at hnodup
    rcases mem_cons.1 hmem with rfl | hrest
    · obtain ⟨-, -, hfree, hcount⟩ := h.entry hq hbatch.1
      refine ⟨hfree, hbatch.1.bounded, hcount, fun d hd => ?_⟩
      rcases hbatch.1.source with ⟨d', hd', -, hdue, -⟩ | ⟨hseq, hentry, -⟩
      · rw [hd] at hd'
        cases hd'
        exact hdue
      · -- a message with an open delivery is not fresh
        obtain ⟨hopen, hlt, -⟩ := h.open_mem _ d hd
        have := hq.sequence_unique hopen hentry
        omega
    · -- the lines before it are of other messages
      have hne : ¬ first.messageId = entry.messageId := fun heq =>
        hnodup.1 (heq ▸ mem_map_of_mem hrest)
      have hone := h.deliver hq hbatch.1 consumerId now visibilityDeadline
      obtain ⟨hfree, hbound, hcount, hdue⟩ := ih hone hbatch.2 hnodup.2 hrest
      refine ⟨hfree, hbound, ?_, fun d hd => hdue d ?_⟩
      · rw [hcount, countP_append, countP_singleton]
        simp [hne]
      · rw [GroupState.deliver, lookup_insert_eq, if_neg (Ne.symm hne), hd]

theorem lookup_foldl_deliver_of_not_mem {id : Nat} (hid : id ∉ batch.map DeliveryEntry.messageId)
    (g : GroupState) :
    (batch.foldl (GroupState.deliver consumerId now visibilityDeadline) g).deliveries.lookup id =
      g.deliveries.lookup id := by
  induction batch generalizing g with
  | nil => rfl
  | cons first rest ih =>
    rw [map_cons, mem_cons, not_or] at hid
    rw [foldl_cons, ih hid.2, GroupState.deliver, lookup_insert_eq, if_neg hid.1]

theorem lookup_foldl_deliver_of_mem {id : Nat} (hid : id ∈ batch.map DeliveryEntry.messageId)
    (g : GroupState) :
    ∃ d, (batch.foldl (GroupState.deliver consumerId now visibilityDeadline) g).deliveries.lookup
      id = some d ∧ d.status = .inFlight visibilityDeadline := by
  induction batch generalizing g with
  | nil => cases hid
  | cons first rest ih =>
    by_cases hrest : id ∈ rest.map DeliveryEntry.messageId
    · exact ih hrest _
    rw [map_cons, mem_cons] at hid
    rw [foldl_cons, lookup_foldl_deliver_of_not_mem hrest, GroupState.deliver, lookup_insert_eq,
      if_pos (hid.resolve_right hrest)]
    exact ⟨_, rfl, rfl⟩

theorem BrokerState.delivery_updateGroup_of_lookup {s : BrokerState} {q' g' : String} {id : Nat}
    {d : Delivery} (hd : s.delivery q g id = some d) {f : GroupState → GroupState}
    (hf : q = q' → g = g' → ∀ gs, s.group q g = some gs →
      (f gs).deliveries.lookup id = gs.deliveries.lookup id) :
    (s.updateGroup q' g' f).delivery q g id = some d := by
  obtain ⟨gs, hgs, hlookup⟩ := Option.bind_eq_some_iff.1 hd
  rw [delivery, group_updateGroup]
  split_ifs with hsame
  · rw [hgs, Option.map_some, Option.bind_some, hf hsame.1 hsame.2 gs hgs, hlookup]
  · exact hd

theorem BrokerState.delivery_settleMessage {s : BrokerState} {q' g' : String} {id messageId : Nat}
    {d d' : Delivery} {gs : GroupState} (hd : s.delivery q g id = some d)
    (hgs : s.group q' g' = some gs) (hd' : gs.deliveries.lookup messageId = some d')
    (sequence : Option Nat) :
    (s.updateGroup q' g' (GroupState.settleMessage messageId sequence)).delivery q g id = some d ∨
      q' = q ∧ g' = g ∧ d'.sequence = d.sequence := by
  by_cases hid : q = q' ∧ g = g' ∧ id = messageId
  · obtain ⟨rfl, rfl, rfl⟩ := hid
    rw [delivery, hgs, Option.bind_some, hd'] at hd
    exact .inr ⟨rfl, rfl, congrArg Delivery.sequence (Option.some.inj hd)⟩
  · refine .inl (delivery_updateGroup_of_lookup hd fun hq hg gs' hgs' => ?_)
    subst hq hg
    cases hgs.symm.trans hgs'
    rw [settleMessage_of_lookup hd']
    exact (lookup_erase_eq _ _ _).trans (if_neg fun h => hid ⟨rfl, rfl, h⟩)

/-- **What an event does to an open delivery**: nothing, unless it nacks or settles it, or hands it
out when due. -/
theorem delivery_append (hlegal : Legal now stream event)
    (hq : QueueOk stream (stream.brokerState.messages q)) (hkept : GroupKept stream q g) {id : Nat}
    {d : Delivery} (hd : stream.brokerState.delivery q g id = some d) :
    (stream.append event).brokerState.delivery q g id = some d ∨
      event.nacks q g id = true ∨ event.settlement q g = some d.sequence ∨
      d.status.due now = true := by
  obtain ⟨gs, hgs, hlookup⟩ := Option.bind_eq_some_iff.1 hd
  cases event with
  | queueTrimmed | queueConfigured => exact False.elim hlegal
  | queueMessage | deadLetteredMessage | other => exact .inl hd
  | groupCreated q' g' =>
    have hne : ¬ (q = q' ∧ g = g') := by
      rintro ⟨rfl, rfl⟩
      cases hgs.symm.trans hlegal
    refine .inl ?_
    rwa [brokerState_append, delivery, group_apply_created, if_neg hne]
  | delivered q' g' consumerId deliveredAt visibilityDeadline batch =>
    obtain ⟨rfl, hnodup, gs', hgs', hbatch⟩ := hlegal
    by_cases hmem : q = q' ∧ g = g' ∧ id ∈ batch.map DeliveryEntry.messageId
    · obtain ⟨rfl, rfl, hid⟩ := hmem
      cases hgs.symm.trans hgs'
      obtain ⟨entry, hentry, rfl⟩ := mem_map.1 hid
      exact .inr (.inr
        (.inr ((hbatch.entry hq (hkept.present gs hgs) hnodup hentry).2.2.2 _ hlookup)))
    · refine .inl (delivery_updateGroup_of_lookup hd fun hq hg gs _ => ?_)
      exact lookup_foldl_deliver_of_not_mem (fun hid => hmem ⟨hq, hg, hid⟩) gs
  | acked | deadLettered =>
    obtain ⟨gs', d', hgs', hd', rfl⟩ := hlegal
    exact (delivery_settleMessage hd hgs' hd' _).imp_right fun hsettle =>
      .inr (.inl (by simp [settlement, hsettle]))
  | nacked q' g' consumerId messageId =>
    by_cases hid : q = q' ∧ g = g' ∧ id = messageId
    · obtain ⟨rfl, rfl, rfl⟩ := hid
      exact .inr (.inl (by simp [nacks]))
    · refine .inl (delivery_updateGroup_of_lookup hd fun hq hg gs _ => ?_)
      exact (lookup_modify _ _ _ _).trans (if_neg fun h => hid ⟨hq, hg, h⟩)
  | redriven => exact .inl (delivery_updateGroup_of_lookup hd fun _ _ _ _ => rfl)

theorem EventStream.append_split {pre mid : List (StoredEvent ν)} {stored : StoredEvent ν}
    (h : (stream.append event).events = pre ++ stored :: mid) :
    (stream.events = pre ∧ stored = ⟨stream.nextId, event⟩ ∧ mid = []) ∨
      ∃ mid', stream.events = pre ++ stored :: mid' ∧ mid = mid' ++ [⟨stream.nextId, event⟩] := by
  have hsplit : stream.events ++ [⟨stream.nextId, event⟩] = pre ++ stored :: mid := h
  rcases eq_nil_or_concat mid with rfl | ⟨mid', last, rfl⟩
  · obtain ⟨hinit, ⟨⟩⟩ := append_inj' hsplit rfl
    exact .inl ⟨hinit, rfl, rfl⟩
  · rw [concat_eq_append, ← cons_append, ← append_assoc] at hsplit
    obtain ⟨hinit, ⟨⟩⟩ := append_inj' hsplit rfl
    exact .inr ⟨mid', hinit, concat_eq_append⟩

/-- Every hand-out is past its deadline, nacked, settled, or open. -/
def Accounted (clock : Int) (stream : EventStream ν) (q g : String) : Prop :=
  ∀ pre stored mid, stream.events = pre ++ stored :: mid → ∀ h ∈ stored.event.handOuts q g,
    h.visibilityDeadline ≤ clock ∨
      (∃ x ∈ mid, x.event.nacks q g h.messageId = true ∨ x.event.settlement q g = some h.sequence) ∨
      ∃ d, stream.brokerState.delivery q g h.messageId = some d ∧ d.sequence = h.sequence ∧
        d.status = .inFlight h.visibilityDeadline

/-- In a legal log all deliveries are accounted for. -/
theorem LegalLog.accounted (h : LegalLog clock stream) (q g : String) :
    Accounted clock stream q g := by
  induction h with
  | empty now =>
    intro pre stored mid hsplit
    simp [EventStream.empty] at hsplit
  | wait _ hle ih =>
    intro pre stored mid hsplit x hx
    rcases ih pre stored mid hsplit x hx with hdl | hrest
    · exact .inl (Int.le_trans hdl hle)
    · exact .inr hrest
  | append hlog hlegal ih =>
    rename_i now stream event
    intro pre stored mid hsplit x hx
    rcases append_split hsplit with ⟨-, rfl, rfl⟩ | ⟨mid', hinit, rfl⟩
    · -- the last event: what it hands out is open now
      have hlog' := hlog.append hlegal
      cases event with
      | delivered q' g' consumerId deliveredAt visibilityDeadline batch =>
        by_cases hsame : q' = q ∧ g' = g
        · obtain ⟨rfl, rfl⟩ := hsame
          obtain ⟨rfl, -, gs, hgs, -⟩ := hlegal
          have hentry := hx
          simp only [BrokerEvent.handOuts, and_self, if_true, mem_map] at hentry
          obtain ⟨entry, hentry, rfl⟩ := hentry
          obtain ⟨d, hd, hstatus⟩ := lookup_foldl_deliver_of_mem (mem_map_of_mem hentry) gs
          have hgs' := (group_updateGroup stream.brokerState q' g' q' g' fun gs =>
            batch.foldl (GroupState.deliver consumerId deliveredAt visibilityDeadline) gs)
          rw [if_pos ⟨rfl, rfl⟩, hgs] at hgs'
          refine .inr (.inr ⟨d, Option.bind_eq_some_iff.2 ⟨_, hgs', hd⟩, ?_, hstatus⟩)
          -- both are the sequence of the message in its queue
          have hok := (hlog'.groupKept q' g').present _ hgs'
          refine (hlog'.queueOk q').sequence_unique (hok.open_mem _ d hd).1 (hok.hand_mem _ ?_).1
          rw [handOuts_append]
          exact mem_append_right _ hx
        · simp [BrokerEvent.handOuts, hsame] at hx
      | _ => cases hx
    · rcases ih pre stored mid' hinit x hx with hdl | ⟨y, hy, hend⟩ | ⟨d, hd, hseq, hstatus⟩
      · exact .inl hdl
      · exact .inr (.inl ⟨y, by simp [hy], hend⟩)
      · rcases delivery_append hlegal (hlog.queueOk q) (hlog.groupKept q g) hd with
          hsame | hnack | hsettle | hdue
        · exact .inr (.inr ⟨d, hsame, hseq, hstatus⟩)
        · exact .inr (.inl ⟨⟨stream.nextId, event⟩, by simp, .inl hnack⟩)
        · exact .inr (.inl ⟨⟨stream.nextId, event⟩, by simp, .inr (hseq ▸ hsettle)⟩)
        · refine .inl ?_
          rw [hstatus] at hdue
          simpa [DeliveryStatus.due] using hdue

theorem LegalLog.split (h : LegalLog clock stream) {pre post : List (StoredEvent ν)}
    {stored : StoredEvent ν} (hsplit : stream.events = pre ++ stored :: post) :
    ∃ now before, now ≤ clock ∧ LegalLog now before ∧ before.events = pre ∧
      Legal now before stored.event ∧
      ∀ id m, before.message id = some m → stream.message id = some m := by
  induction h generalizing pre post with
  | empty now => simp [EventStream.empty] at hsplit
  | wait _ hle ih =>
    obtain ⟨now, before, hnow, hrest⟩ := ih hsplit
    exact ⟨now, before, Int.le_trans hnow hle, hrest⟩
  | append hlog hlegal ih =>
    rename_i now stream event
    rcases append_split hsplit with ⟨hinit, rfl, -⟩ | ⟨post', hinit, -⟩
    · exact ⟨now, stream, Int.le_refl _, hlog, hinit, hlegal, fun id m hm => message_append hm _⟩
    · obtain ⟨now', before, hnow, hbefore, hevents, hl, hmessage⟩ := ih hinit
      exact ⟨now', before, hnow, hbefore, hevents, hl,
        fun id m hm => message_append (hmessage id m hm) _⟩

end BicDb.Broker
