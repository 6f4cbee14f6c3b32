import BicDb.Broker.Appending

/-!
# Grounded logs

A delivery names messages of its queue, an ack an open delivery, a new message has an identifier
that no message of its queue has, and a trim marker stands before every message of its queue
(`Grounded`). Every log that the broker writes is of this kind.

The main results: the replay of such a log is tidy (`Tidy.foldl`), a message once in the state stays
there (`entries_prefix_foldl`), and a key names the first message that carries it (`keyed_foldl`).
-/

namespace BicDb.Broker

open BicDb.Foundation BrokerState List Table

open scoped List

variable {ν : Type*}

/-! ## Tidy states -/

/-- The sequences follow each other, and no message stands twice. -/
structure QueueTidy (m : QueueMessages) : Prop where
  length_le : m.entries.length ≤ m.nextSequence
  sequences : m.entries.map Prod.fst =
    List.range' (m.nextSequence - m.entries.length) m.entries.length
  idsNodup : (m.entries.map Prod.snd).Nodup

/-- Open deliveries are of retained messages below the position. -/
structure GroupTidy (m : QueueMessages) (gs : GroupState) : Prop where
  opened : ∀ id d, gs.deliveries.lookup id = some d → (d.sequence, id) ∈ m.entries
  settledLt : ∀ n, gs.settled.Contains n → n < m.nextSequence

/-- Tidy queues and groups. -/
structure Tidy (s : BrokerState) : Prop where
  queue : ∀ q, QueueTidy (s.messages q)
  group : ∀ q g gs, s.group q g = some gs → GroupTidy (s.messages q) gs

theorem tidy_default : Tidy .default where
  queue _ := ⟨Nat.zero_le _, rfl, List.nodup_nil⟩
  group _ _ _ h := by cases h

namespace QueueTidy

variable {m : QueueMessages}

theorem lt_next (h : QueueTidy m) {e : Nat × Nat} (he : e ∈ m.entries) : e.1 < m.nextSequence := by
  have hmem : e.1 ∈ m.entries.map Prod.fst := mem_map_of_mem he
  rw [h.sequences, mem_range'_1] at hmem
  have := h.length_le
  omega

theorem append (h : QueueTidy m) {id : Nat} (hnew : ∀ e ∈ m.entries, e.2 ≠ id) :
    QueueTidy ⟨m.entries ++ [(m.nextSequence, id)], m.nextSequence + 1⟩ where
  length_le := by simpa using h.length_le
  sequences := by
    have hlen := h.length_le
    simp only [map_append, map_cons, map_nil, length_append, length_cons, length_nil, h.sequences]
    rw [show m.nextSequence + 1 - (m.entries.length + (0 + 1)) =
      m.nextSequence - m.entries.length by omega, Nat.zero_add, range'_concat]
    congr 2
    omega
  idsNodup := by
    rw [map_append, map_singleton, ← concat_eq_append]
    refine List.Nodup.concat (fun hmem => ?_) h.idsNodup
    obtain ⟨e, he, heq⟩ := mem_map.1 hmem
    exact hnew e he heq

end QueueTidy

namespace GroupTidy

variable {m : QueueMessages} {gs : GroupState}

theorem mono {m' : QueueMessages} (h : GroupTidy m gs) (hsub : ∀ e ∈ m.entries, e ∈ m'.entries)
    (hle : m.nextSequence ≤ m'.nextSequence) : GroupTidy m' gs where
  opened id d hd := hsub _ (h.opened id d hd)
  settledLt n hn := Nat.lt_of_lt_of_le (h.settledLt n hn) hle

theorem new (hm : QueueTidy m) (createdAt : Int) :
    GroupTidy m (GroupState.new createdAt (BrokerState.startOf m)) where
  opened _ _ hd := by cases hd
  settledLt n hn := by
    refine Nat.lt_of_lt_of_le ((Watermark.contains_below _ _).1 hn) ?_
    unfold startOf
    cases hhead : m.entries.head? with
    | none => exact Nat.le_refl _
    | some e => exact Nat.le_of_lt (hm.lt_next (mem_of_mem_head? hhead))

variable (h : GroupTidy m gs)

include h

theorem deliverAll (consumerId : String) (deliveredAt deadline : Int) {batch : List DeliveryEntry}
    (hbatch : ∀ entry ∈ batch, (entry.sequence, entry.messageId) ∈ m.entries) :
    GroupTidy m (batch.foldl (GroupState.deliver consumerId deliveredAt deadline) gs) := by
  induction batch generalizing gs with
  | nil => exact h
  | cons entry batch ih =>
    obtain ⟨hentry, hrest⟩ := forall_mem_cons.1 hbatch
    refine ih ⟨fun id d hd => ?_, h.settledLt⟩ hrest
    rw [GroupState.deliver, lookup_insert_eq] at hd
    split_ifs at hd with hid
    · cases hd
      exact hid ▸ hentry
    · exact h.opened id d hd

theorem settleMessage (hm : QueueTidy m) {id : Nat} {d : Delivery}
    (hd : gs.deliveries.lookup id = some d) (sequence : Option Nat) :
    GroupTidy m (gs.settleMessage id sequence) := by
  rw [settleMessage_of_lookup hd]
  constructor
  · intro id' d' hd'
    rw [lookup_erase_eq] at hd'
    split at hd'
    · cases hd'
    · exact h.opened id' d' hd'
  · intro n hn
    rcases (Watermark.contains_add _ _ _).1 hn with hn | rfl
    · exact h.settledLt n hn
    · exact hm.lt_next (h.opened id d hd)

theorem applyTrim (hempty : m.entries = []) (through : Nat) :
    GroupTidy ⟨[], max m.nextSequence (through + 1)⟩ (gs.applyTrim through) where
  opened id d hd := by
    rw [GroupState.applyTrim, lookup_retain, Option.filter_eq_some_iff] at hd
    have hmem := h.opened id d hd.1
    rw [hempty] at hmem
    cases hmem
  settledLt n hn := by
    dsimp only
    rcases (Watermark.contains_raise _ _ _).1 hn with hn | hn
    · have := h.settledLt n hn
      omega
    · omega

end GroupTidy

/-! ## Grounded events -/

/-- The state supports the event: what it refers to is there. -/
def Grounded (s : BrokerState) (stored : StoredEvent ν) : Prop :=
  match stored.event with
  | .queueMessage q _ _ _ => ∀ e ∈ (s.messages q).entries, e.2 ≠ stored.id
  | .queueTrimmed q _ _ => (s.messages q).entries = []
  | .delivered q _ _ _ _ batch =>
    batch ≠ [] ∧ ∀ entry ∈ batch, (entry.sequence, entry.messageId) ∈ (s.messages q).entries
  | .acked q g _ id _ _ => (s.delivery q g id).isSome = true
  | .nacked q g _ id _ _ _ _ => (s.delivery q g id).isSome = true
  | .deadLettered q g id _ _ _ _ => (s.delivery q g id).isSome = true
  | _ => True

/-- Every event is grounded in the state before it. -/
def GroundedFrom : BrokerState → List (StoredEvent ν) → Prop
  | _, [] => True
  | s, stored :: rest => Grounded s stored ∧ GroundedFrom (s.apply stored) rest

variable {s : BrokerState} {events : List (StoredEvent ν)}

theorem groundedFrom_append {events' : List (StoredEvent ν)} :
    GroundedFrom s (events ++ events') ↔
      GroundedFrom s events ∧ GroundedFrom (events.foldl BrokerState.apply s) events' := by
  induction events generalizing s with
  | nil => simp [GroundedFrom]
  | cons stored events ih => simp [GroundedFrom, ih, and_assoc]

theorem exists_of_delivery_isSome {q g : String} {id : Nat}
    (h : (s.delivery q g id).isSome = true) :
    ∃ gs d, s.group q g = some gs ∧ gs.deliveries.lookup id = some d := by
  obtain ⟨d, hd⟩ := Option.isSome_iff_exists.1 h
  obtain ⟨gs, hgs, hd⟩ := Option.bind_eq_some_iff.1 hd
  exact ⟨gs, d, hgs, hd⟩

/-! ### One event -/

section Step

variable {s : BrokerState}

variable {q : String}

variable (h : Tidy s)

include h

theorem Tidy.updateGroup {g : String} {f : GroupState → GroupState}
    (hf : ∀ gs, s.group q g = some gs → GroupTidy (s.messages q) (f gs)) :
    Tidy (s.updateGroup q g f) where
  queue := h.queue
  group q' g' gs' hgs' := by
    rw [group_updateGroup] at hgs'
    split_ifs at hgs' with hkey
    · obtain ⟨rfl, rfl⟩ := hkey
      obtain ⟨gs, hgs, rfl⟩ := Option.map_eq_some_iff.1 hgs'
      exact hf gs hgs
    · exact h.group q' g' gs' hgs'

theorem Tidy.applyMessage {id : Nat} {timestamp : Int} {payload : ν}
    {metadata : Option (MessageMeta ν)}
    (hg : Grounded s ⟨id, .queueMessage q timestamp payload metadata⟩) :
    Tidy (s.apply ⟨id, .queueMessage q timestamp payload metadata⟩) := by
  have hgrow : ∀ q', ∀ e ∈ (s.messages q').entries,
      e ∈ ((s.apply ⟨id, .queueMessage q timestamp payload metadata⟩).messages q').entries := by
    intro q' e he
    rw [messages_apply_message]
    split_ifs with hq
    · exact mem_append_left _ (hq ▸ he)
    · exact he
  constructor
  · intro q'
    rw [messages_apply_message]
    split
    · exact (h.queue q).append hg
    · exact h.queue q'
  · intro q' g gs hgs
    refine (h.group q' g gs hgs).mono (hgrow q') ?_
    rw [messages_apply_message]
    split_ifs with hq
    · rw [hq]
      exact Nat.le_succ _
    · exact Nat.le_refl _

theorem Tidy.applyTrimmed {id : Nat} {through : Nat} {atMs : Int}
    (hg : Grounded s (⟨id, .queueTrimmed q through atMs⟩ : StoredEvent ν)) :
    Tidy (s.apply (⟨id, .queueTrimmed q through atMs⟩ : StoredEvent ν)) := by
  have hempty : (s.messages q).entries = [] := hg
  have hmessages : ∀ q', (s.apply (⟨id, .queueTrimmed q through atMs⟩ :
      StoredEvent ν)).messages q' =
        if q' = q then ⟨[], max (s.messages q).nextSequence (through + 1)⟩ else s.messages q' := by
    intro q'
    rw [messages_apply_trimmed, hempty]
    rfl
  constructor
  · intro q'
    rw [hmessages]
    split
    · exact ⟨Nat.zero_le _, rfl, nodup_nil⟩
    · exact h.queue q'
  · intro q' g gs' hgs'
    rw [group_apply_trimmed] at hgs'
    obtain ⟨gs, hgs, rfl⟩ := Option.map_eq_some_iff.1 hgs'
    rw [hmessages]
    split_ifs with hq
    · subst hq
      exact (h.group q' g gs hgs).applyTrim hempty through
    · exact h.group q' g gs hgs

theorem Tidy.applyCreated (id : Nat) (q g : String) (createdAt : Int) :
    Tidy (s.apply (⟨id, .groupCreated q g createdAt⟩ : StoredEvent ν)) where
  queue q' := by
    rw [messages_apply_created]
    exact h.queue q'
  group q' g' gs' hgs' := by
    rw [messages_apply_created]
    rw [group_apply_created] at hgs'
    split_ifs at hgs' with hkey
    · obtain ⟨rfl, rfl⟩ := hkey
      cases hgs'
      cases hgs : s.group q' g' with
      | none => exact GroupTidy.new (h.queue q') createdAt
      | some gs => exact h.group q' g' gs hgs
    · exact h.group q' g' gs' hgs'

/-- **A grounded event keeps a state tidy.** -/
theorem Tidy.apply {stored : StoredEvent ν} (hg : Grounded s stored) :
    Tidy (s.apply stored) := by
  obtain ⟨id, event⟩ := stored
  -- an ack or a dead letter
  have hsettle : ∀ {q g messageId sequence}, (s.delivery q g messageId).isSome = true →
      Tidy (s.updateGroup q g (GroupState.settleMessage messageId sequence)) := by
    intro q g messageId sequence hopen
    obtain ⟨gs, d, hgs, hd⟩ := exists_of_delivery_isSome hopen
    refine h.updateGroup fun gs' hgs' => ?_
    cases hgs.symm.trans hgs'
    exact (h.group q g gs hgs).settleMessage (h.queue q) hd sequence
  cases event with
  | queueMessage => exact h.applyMessage hg
  | queueTrimmed => exact h.applyTrimmed hg
  | queueConfigured => exact ⟨h.queue, h.group⟩
  | groupCreated q g createdAt => exact h.applyCreated id q g createdAt
  | delivered q g consumerId deliveredAt deadline batch =>
    exact h.updateGroup fun gs hgs =>
      (h.group q g gs hgs).deliverAll consumerId deliveredAt deadline hg.2
  | acked | deadLettered => exact hsettle hg
  | nacked q g =>
    refine h.updateGroup fun gs hgs => ⟨fun id d hd => ?_, (h.group q g gs hgs).settledLt⟩
    rw [GroupState.release, lookup_modify] at hd
    split at hd
    · obtain ⟨d', hd', rfl⟩ := Option.map_eq_some_iff.1 hd
      exact (h.group q g gs hgs).opened id d' hd'
    · exact (h.group q g gs hgs).opened id d hd
  | redriven q g =>
    exact h.updateGroup fun gs hgs =>
      ⟨(h.group q g gs hgs).opened, (h.group q g gs hgs).settledLt⟩
  | deadLetteredMessage | other => exact h

end Step

theorem Tidy.foldl (h : Tidy s) (hg : GroundedFrom s events) :
    Tidy (events.foldl BrokerState.apply s) := by
  induction events generalizing s with
  | nil => exact h
  | cons stored events ih => exact ih (h.apply hg.1) hg.2

/-! ### Sequences along a log -/

/-- The next sequence does not fall, and every new message has a sequence that was free. -/
structure Continues (m m' : QueueMessages) : Prop where
  next_le : m.nextSequence ≤ m'.nextSequence
  fresh : ∀ e ∈ m'.entries, e ∈ m.entries ∨ m.nextSequence ≤ e.1

theorem Continues.refl (m : QueueMessages) : Continues m m := ⟨Nat.le_refl _, fun _ he => .inl he⟩

theorem Continues.of_eq {m m' : QueueMessages} (h : m' = m) : Continues m m' := h ▸ .refl m

theorem Continues.trans {m m' m'' : QueueMessages} (h : Continues m m') (h' : Continues m' m'') :
    Continues m m'' where
  next_le := Nat.le_trans h.next_le h'.next_le
  fresh e he := by
    rcases h'.fresh e he with he | he
    · exact h.fresh e he
    · exact .inr (Nat.le_trans h.next_le he)

theorem messages_apply (s : BrokerState) (stored : StoredEvent ν) (q : String) :
    (s.messages q).nextSequence ≤ ((s.apply stored).messages q).nextSequence ∧
      ∀ e ∈ ((s.apply stored).messages q).entries, e ∈ (s.messages q).entries ∨
        e = ((s.messages q).nextSequence, stored.id) ∧ stored.event.message?.isSome = true := by
  obtain ⟨id, event⟩ := stored
  have hsame : (s.messages q).nextSequence ≤ (s.messages q).nextSequence ∧
      ∀ e ∈ (s.messages q).entries, e ∈ (s.messages q).entries ∨
        e = ((s.messages q).nextSequence, id) ∧ event.message?.isSome = true :=
    ⟨Nat.le_refl _, fun _ he => .inl he⟩
  cases event with
  | queueMessage =>
    rw [messages_apply_message]
    split_ifs with hq
    · subst hq
      exact ⟨Nat.le_succ _, fun e he =>
        (mem_append.1 he).imp_right fun he => ⟨mem_singleton.1 he, rfl⟩⟩
    · exact hsame
  | queueTrimmed =>
    rw [messages_apply_trimmed]
    split_ifs with hq
    · subst hq
      exact ⟨Nat.le_max_left _ _, fun e he => .inl (mem_filter.1 he).1⟩
    · exact hsame
  | groupCreated => rwa [messages_apply_created]
  | _ => exact hsame

theorem entries_prefix_foldl (hg : GroundedFrom s events) (q : String) :
    (s.messages q).entries <+: ((events.foldl BrokerState.apply s).messages q).entries := by
  induction events generalizing s with
  | nil => exact prefix_refl _
  | cons stored events ih =>
    refine List.IsPrefix.trans ?_ (ih hg.2)
    obtain ⟨id, event⟩ := stored
    cases event with
    | queueMessage =>
      rw [messages_apply_message]
      split_ifs with hq
      · subst hq
        exact prefix_append _ _
      · exact prefix_refl _
    | queueTrimmed q' =>
      have hempty : (s.messages q').entries = [] := hg.1
      rw [messages_apply_trimmed]
      split_ifs with hq
      · rw [hq, hempty]
        exact nil_prefix
      · exact prefix_refl _
    | groupCreated => rw [messages_apply_created]
    | _ => exact prefix_refl _

theorem exists_event_of_mem_entries {q : String} {e : Nat × Nat}
    (he : e ∈ ((events.foldl BrokerState.apply s).messages q).entries) :
    e ∈ (s.messages q).entries ∨
      ∃ stored ∈ events, stored.id = e.2 ∧ stored.event.message?.isSome = true := by
  induction events generalizing s with
  | nil => exact .inl he
  | cons stored events ih =>
    rcases ih he with he | ⟨later, hmem, hid⟩
    · exact ((messages_apply s stored q).2 e he).imp_right fun ⟨heq, hevent⟩ =>
        ⟨stored, mem_cons_self, heq ▸ rfl, hevent⟩
    · exact .inr ⟨later, mem_cons_of_mem _ hmem, hid⟩

/-- Whether the event is a message of the queue. -/
def BrokerEvent.isMessageOf (q : String) : BrokerEvent ν → Bool
  | .queueMessage q' .. => decide (q' = q)
  | _ => false

/-- The retained messages of a queue are those in its log. -/
theorem ids_foldl (hg : GroundedFrom s events) (q : String) :
    ((events.foldl BrokerState.apply s).messages q).entries.map Prod.snd =
      (s.messages q).entries.map Prod.snd ++
        (events.filter fun stored => stored.event.isMessageOf q).map StoredEvent.id := by
  induction events generalizing s with
  | nil => simp
  | cons stored events ih =>
    rw [foldl_cons, ih hg.2]
    obtain ⟨id, event⟩ := stored
    cases event with
    | queueMessage q' =>
      rw [messages_apply_message]
      by_cases hq : q = q'
      · subst hq
        simp [BrokerEvent.isMessageOf]
      · simp [BrokerEvent.isMessageOf, hq, Ne.symm hq]
    | queueTrimmed q' =>
      have hempty : (s.messages q').entries = [] := hg.1
      rw [messages_apply_trimmed]
      split_ifs with hq
      · rw [hq, hempty]
        rfl
      · rfl
    | groupCreated =>
      rw [messages_apply_created]
      rfl
    | _ => rfl

/-! ### Keys along a log -/

/-- A key names the first retained message that carries it, where `keyOf` is a message's key. -/
def Keyed (keyOf : Nat → Option String) (s : BrokerState) : Prop :=
  ∀ q key, s.idempotency.lookup (q, key) =
    ((s.messages q).entries.find? fun entry => keyOf entry.2 = some key).map Prod.swap

theorem Keyed.apply {keyOf : Nat → Option String} (h : Keyed keyOf s) {stored : StoredEvent ν}
    (hg : Grounded s stored)
    (hkey : ∀ m, stored.event.message? = some m → keyOf stored.id = m.2.idempotencyKey) :
    Keyed keyOf (s.apply stored) := by
  intro q key
  obtain ⟨id, event⟩ := stored
  cases event with
  | queueMessage q' timestamp payload metadata =>
    have hid : keyOf id = metadata.bind MessageMeta.idempotencyKey := hkey _ rfl
    rw [idempotency_apply_message, messages_apply_message, h q key]
    by_cases hq : q = q'
    · subst hq
      simp only [true_and, if_true, find?_append, find?_singleton, hid, decide_eq_true_eq,
        Option.map_or]
      congr 1
      split <;> rfl
    · simp [hq]
  | queueTrimmed q' =>
    have hempty : (s.messages q').entries = [] := hg
    rw [messages_apply_trimmed]
    refine (h q key).trans ?_
    split_ifs with hq
    · rw [hq, hempty]
      rfl
    · rfl
  | groupCreated =>
    rw [idempotency_apply_created, messages_apply_created]
    exact h q key
  | _ => exact h q key

theorem keyed_foldl {keyOf : Nat → Option String} (h : Keyed keyOf s) (hg : GroundedFrom s events)
    (hkey : ∀ stored ∈ events, ∀ m, stored.event.message? = some m →
      keyOf stored.id = m.2.idempotencyKey) :
    Keyed keyOf (events.foldl BrokerState.apply s) := by
  induction events generalizing s with
  | nil => exact h
  | cons stored events ih =>
    obtain ⟨hstored, hrest⟩ := forall_mem_cons.1 hkey
    exact ih (h.apply hg.1 hstored) hg.2 hrest

end BicDb.Broker
