import BicDb.Broker.Discipline
import BicDb.Broker.System
import BicDb.Foundation.Run

/-!
# Delivery discipline

Publish, consume, ack and nack append legal events only, so the rules of legal logs hold of every
run of them, with any append failing; `delivery_discipline` collects them.
-/

namespace BicDb.Broker

open BicDb.Foundation List LegalLog EventStream

variable {ν : Type*}

/-! ## Batches -/

variable {stream : EventStream ν} {entries : List (Nat × Nat)} {consumerId : String}
variable {now visibilityDeadline : Int}

variable {g : GroupState}

theorem batchLegal_append {maxAttempts : Nat → Nat} {xs ys : List DeliveryEntry}
    (hxs : BatchLegal entries maxAttempts consumerId now visibilityDeadline g xs)
    (hys : BatchLegal entries maxAttempts consumerId now visibilityDeadline
      (xs.foldl (GroupState.deliver consumerId now visibilityDeadline) g) ys) :
    BatchLegal entries maxAttempts consumerId now visibilityDeadline g (xs ++ ys) := by
  induction xs generalizing g with
  | nil => exact hys
  | cons entry xs ih => exact ⟨hxs.1, ih hxs.2 hys⟩

/-- Open deliveries can be handed out again in one batch; the group's position does not move. -/
theorem batchLegal_again (entries : List (Nat × Nat)) (consumerId : String)
    (visibilityDeadline : Int) {batch : List DeliveryEntry}
    (hagain : ∀ entry ∈ batch, Again stream g now entry)
    (hlt : ∀ entry ∈ batch, entry.sequence < g.nextSequence)
    (hnodup : (batch.map DeliveryEntry.messageId).Nodup) :
    BatchLegal entries stream.maxAttempts consumerId now visibilityDeadline g batch ∧
      (batch.foldl (GroupState.deliver consumerId now visibilityDeadline) g).nextSequence =
        g.nextSequence := by
  induction batch generalizing g with
  | nil => exact ⟨trivial, rfl⟩
  | cons entry rest ih =>
    rw [map_cons, nodup_cons] at hnodup
    obtain ⟨⟨hbound, hopen⟩, hrest⟩ := forall_mem_cons.1 hagain
    obtain ⟨hlt, hrestLt⟩ := forall_mem_cons.1 hlt
    have hnext : (g.deliver consumerId now visibilityDeadline entry).nextSequence =
        g.nextSequence := by
      simp only [GroupState.deliver]
      omega
    have hagain' : ∀ x ∈ rest,
        Again stream (g.deliver consumerId now visibilityDeadline entry) now x := by
      intro x hx
      have hne : ¬ x.messageId = entry.messageId := fun heq =>
        hnodup.1 (heq ▸ mem_map_of_mem hx)
      obtain ⟨hbound, hopen⟩ := hrest x hx
      refine ⟨hbound, ?_⟩
      rwa [GroupState.deliver, Table.lookup_insert_eq, if_neg hne]
    obtain ⟨hbatch, hend⟩ := ih hagain' (hnext.symm ▸ hrestLt) hnodup.2
    exact ⟨⟨⟨hbound, .inl hopen⟩, hbatch⟩, by rw [foldl_cons, hend, hnext]⟩

theorem batchLegal_fresh {m : QueueMessages} (hq : QueueOk stream m) {maxAttempts : Nat → Nat}
    (hmax : ∀ id, 1 ≤ maxAttempts id) {fresh : List DeliveryEntry}
    (hpre : (fresh.map fun e => (e.sequence, e.messageId)) <+: m.entries.drop g.nextSequence)
    (hone : ∀ e ∈ fresh, e.attempts = 1) :
    BatchLegal m.entries maxAttempts consumerId now visibilityDeadline g fresh := by
  induction fresh generalizing g with
  | nil => trivial
  | cons entry rest ih =>
    obtain ⟨tail, htail⟩ := hpre
    have hget : m.entries[g.nextSequence]? = some (entry.sequence, entry.messageId) := by
      have := congrArg head? htail
      simpa using this.symm
    have hmem : (entry.sequence, entry.messageId) ∈ m.entries :=
      mem_of_getElem? hget
    have hseq : entry.sequence = g.nextSequence := hq.sequence_eq hget
    obtain ⟨hatt, hrest⟩ := forall_mem_cons.1 hone
    refine ⟨⟨by rw [hatt]; exact hmax _, .inr ⟨hseq, hmem, hatt⟩⟩, ih ?_ hrest⟩
    have hnext : (g.deliver consumerId now visibilityDeadline entry).nextSequence =
        g.nextSequence + 1 := by
      simp only [GroupState.deliver]
      omega
    rw [hnext, ← tail_drop, ← htail]
    exact prefix_append _ _

/-! ## The calls append legal events -/

theorem Legal.deadLettersAllowed :
    DeadLettersAllowed (Legal now : EventStream ν → BrokerEvent ν → Prop) :=
  fun _ _ _ _ _ _ _ _ gs d hgs hd hseq => ⟨gs, d, hgs, hd, hseq⟩

theorem dropWhile_lt_eq_drop {entries : List (Nat × Nat)} {start n : Nat}
    (h : entries.map Prod.fst = List.range' start entries.length) :
    entries.dropWhile (fun e => decide (e.1 < n)) = entries.drop (n - start) := by
  induction entries generalizing start with
  | nil => simp
  | cons e entries ih =>
    rw [length_cons, range'_succ, map_cons, cons.injEq] at h
    by_cases hlt : e.1 < n
    · have hsub : n - start = (n - (start + 1)) + 1 := by omega
      rw [dropWhile_cons, if_pos (by simpa using hlt), hsub, drop_succ_cons, ih h.2]
    · have hsub : n - start = 0 := by omega
      rw [dropWhile_cons, if_neg (by simpa using hlt), hsub, drop_zero]

variable {q g : String}

section

variable (h : LegalLog now stream)

include h

/-- The plan of a consume is a legal batch, also after the plan's dead letters. -/
theorem LegalLog.batchLegal_planConsume {gs : GroupState}
    (hgs : stream.brokerState.group q g = some gs) (consumerId : String) (visibilityDeadline : Int)
    (maxMessages : Nat) {stream' : EventStream ν} {gs' : GroupState}
    (hmessage : ∀ id m, stream.message id = some m → stream'.message id = some m)
    (hnext : gs'.nextSequence = gs.nextSequence)
    (hopen : ∀ id ∉ (planConsume stream q gs maxMessages now).dead.map DeadEntry.messageId,
      gs'.deliveries.lookup id = gs.deliveries.lookup id) :
    ((planConsume stream q gs maxMessages now).batch.map DeliveryEntry.messageId).Nodup ∧
      BatchLegal (stream.brokerState.messages q).entries stream'.maxAttempts consumerId now
        visibilityDeadline gs' (planConsume stream q gs maxMessages now).batch := by
  have hq := h.queueOk q
  have hok := (h.groupKept q g).present gs hgs
  obtain ⟨seen, hplan⟩ := planOk_due stream gs now maxMessages
  have hdrop : (stream.brokerState.messages q).entries.dropWhile
      (fun e => decide (e.1 < gs.nextSequence)) =
      (stream.brokerState.messages q).entries.drop gs.nextSequence := by
    have hseq := hq.sequences
    rw [range_eq_range'] at hseq
    rw [dropWhile_lt_eq_drop hseq, Nat.sub_zero]
  obtain ⟨fresh, hbatch, -, hone, hpre⟩ := planFresh_eq stream now maxMessages
    ((stream.brokerState.messages q).entries.drop gs.nextSequence)
    ((dueDeliveries gs now).foldl (Plan.addDue stream gs maxMessages) ⟨[], []⟩).batch
  have hpre := hpre fun e he => hq.message e (mem_of_mem_drop he)
  generalize hagainEq :
    (dueDeliveries gs now).foldl (Plan.addDue stream gs maxMessages) ⟨[], []⟩ = plan at *
  have hplanEq : planConsume stream q gs maxMessages now = ⟨plan.batch ++ fresh, plan.dead⟩ := by
    simp only [planConsume, hagainEq, hdrop, hbatch]
  rw [hplanEq] at hopen ⊢
  have hagainNodup := nodup_append.1 hplan.nodup
  -- what an open delivery is in the queue
  have hagainMem : ∀ e ∈ plan.batch, (e.sequence, e.messageId) ∈
      (stream.brokerState.messages q).entries ∧ e.sequence < gs.nextSequence := by
    intro e he
    obtain ⟨d, hd, hseq, -, -⟩ := (hplan.again e he).opened
    obtain ⟨hmem, hlt, -⟩ := hok.open_mem _ d hd
    exact ⟨hseq ▸ hmem, hseq ▸ hlt⟩
  have hfreshMem : ∀ e ∈ fresh, (e.sequence, e.messageId) ∈
      (stream.brokerState.messages q).entries.drop gs.nextSequence := by
    intro e he
    exact hpre.subset (mem_map_of_mem he)
  have hfreshGe : ∀ e ∈ fresh, gs.nextSequence ≤ e.sequence := by
    intro e he
    obtain ⟨i, hi⟩ := mem_iff_getElem?.1 (hfreshMem e he)
    rw [getElem?_drop] at hi
    exact (Nat.le_add_right _ _).trans_eq (hq.sequence_eq hi).symm
  refine ⟨?_, ?_⟩
  · rw [map_append]
    refine nodup_append.2 ⟨hagainNodup.1, ?_, ?_⟩
    · have hsub : (fresh.map DeliveryEntry.messageId).Sublist
          ((stream.brokerState.messages q).entries.map Prod.snd) := by
        have := (hpre.sublist.trans (drop_sublist _ _)).map Prod.snd
        simpa [map_map, Function.comp_def] using this
      exact hsub.nodup hq.idsNodup
    · -- a message with an open delivery is not fresh
      intro a ha b hb heq
      obtain ⟨e, he, rfl⟩ := mem_map.1 ha
      obtain ⟨f, hf, rfl⟩ := mem_map.1 hb
      obtain ⟨hmem, hlt⟩ := hagainMem e he
      have hfm := mem_of_mem_drop (hfreshMem f hf)
      rw [← heq] at hfm
      have := hq.sequence_unique hmem hfm
      have := hfreshGe f hf
      omega
  · have hagain' : ∀ e ∈ plan.batch, Again stream' gs' now e := by
      intro e he
      obtain ⟨hbound, hopened⟩ := hplan.again e he
      have hnotDead : e.messageId ∉ plan.dead.map DeadEntry.messageId := fun hmem =>
        hagainNodup.2.2 _ (mem_map_of_mem he) _ hmem rfl
      refine ⟨?_, ?_⟩
      · rwa [maxAttempts_eq hmessage (hq.message _ (hagainMem e he).1)]
      · rwa [hopen _ hnotDead]
    obtain ⟨hfirst, hend⟩ := batchLegal_again (stream.brokerState.messages q).entries consumerId
      visibilityDeadline hagain' (fun e he => by rw [hnext]; exact (hagainMem e he).2) hagainNodup.1
    refine batchLegal_append hfirst (batchLegal_fresh hq (one_le_maxAttempts stream') ?_ hone)
    rwa [hend, hnext]

variable (writes : Writes)

variable (q g consumerId : String)

theorem LegalLog.consumeFrom (options : ConsumeOptions) :
    LegalLog now (consumeFrom writes q g consumerId options now stream).2 := by
  rcases consumeFrom_stream stream writes now q g consumerId options with heq | ⟨gs, hgs, heq⟩
  · rwa [heq]
  rw [heq]
  refine Chain.appendAll (fun _ _ => .append) h ?_ writes
  obtain ⟨seen, hplan⟩ := planOk_due stream gs now options.maxMessages
  refine chain_deadLetters (fun _ _ _ _ _ => trivial) Legal.deadLettersAllowed hgs hplan.dead
    (nodup_append.1 hplan.nodup).2.1 ?_
  intro stream' gs' hgs' hmessages hmessage hnext hopen
  split
  · trivial
  obtain ⟨hnodup, hbatch⟩ := h.batchLegal_planConsume hgs consumerId
    (clampI64 (now + asI64 options.visibilityTimeoutMs)) options.maxMessages hmessage
    hnext hopen
  exact ⟨⟨rfl, hnodup, gs', hgs', hmessages ▸ hbatch⟩, trivial⟩

omit h in
theorem chain_ensureGroup : Chain (Legal now) stream
    (ensureGroupEvents stream.brokerState q g now) := by
  unfold ensureGroupEvents
  cases hgs : stream.brokerState.group q g with
  | none => exact ⟨hgs, trivial⟩
  | some gs => trivial

theorem LegalLog.consume (options : ConsumeOptions) :
    LegalLog now (consume writes q g consumerId options now stream).2 := by
  have hlog := (chain_ensureGroup q g).appendAll (fun _ _ => .append) h writes
  rcases consume_eq stream writes now q g consumerId options with
    ⟨e, heq⟩ | ⟨e, heq⟩ | ⟨later, heq⟩
  · rwa [heq]
  · rwa [heq]
  · rw [heq]
    exact hlog.consumeFrom later q g consumerId options

theorem LegalLog.ack (messageId : Nat) :
    LegalLog now (ack writes q g consumerId messageId now stream).2 := by
  rcases ack_stream stream writes now q g consumerId messageId with heq | ⟨d, hdelivery, heq⟩
  · rwa [heq]
  rw [heq]
  obtain ⟨gs, hgs, hd⟩ := Option.bind_eq_some_iff.1 hdelivery
  refine Chain.appendAll (fun _ _ => .append) h ?_ writes
  exact ⟨⟨gs, d, hgs, hd, rfl⟩, trivial⟩

theorem LegalLog.nack (messageId : Nat) (options : NackOptions) :
    LegalLog now (nack writes q g consumerId messageId options now stream).2 := by
  rcases nack_stream stream writes now q g consumerId messageId options with
    heq | ⟨d, hdelivery, heq⟩
  · rwa [heq]
  rw [heq]
  obtain ⟨gs, hgs, hd⟩ := Option.bind_eq_some_iff.1 hdelivery
  refine Chain.appendAll (fun _ _ => .append) h ?_ writes
  unfold nackEvents
  dsimp only
  split
  · rw [← append_nil (deadLetterEvents stream q g now _)]
    exact chain_deadLetter (fun _ _ _ _ _ => trivial) Legal.deadLettersAllowed hgs
      ⟨d, hd, rfl⟩ fun _ _ _ _ => trivial
  · exact ⟨trivial, trivial⟩

theorem LegalLog.publishWith_stream (rewrite : Rewrite) (q : String) (payload : ν)
    (options : PublishOptions ν) :
    (publishWith writes rewrite q payload options now stream).2 = stream ∨
      (publishWith writes rewrite q payload options now stream).2 =
        (stream.appendAll writes [publishedEvent stream.brokerState q payload options now]).1 := by
  have hnotrim : publishTrimDue stream.brokerState q = false := by
    simp [publishTrimDue, h.configs]
  have happend := publishAppend_stream stream writes now none q payload options
  rw [Option.elim_none] at happend
  rw [← happend]
  unfold Broker.publishWith publishInner
  cases validateBrokerName "queue" q with
  | error e => exact .inl rfl
  | ok _ =>
    cases options.idempotencyKey.bind fun key =>
        stream.brokerState.idempotency.lookup (q, key) with
    | some found => exact .inl rfl
    | none => simp [hnotrim]

theorem LegalLog.publishWith (rewrite : Rewrite) (q : String) (payload : ν)
    (options : PublishOptions ν) :
    LegalLog now (publishWith writes rewrite q payload options now stream).2 := by
  rcases h.publishWith_stream writes rewrite q payload options with heq | heq
  · rwa [heq]
  · rw [heq]
    refine Chain.appendAll (fun _ _ => .append) h ?_ writes
    exact ⟨trivial, trivial⟩

end

theorem LegalLog.run {a : Action ν} (h : LegalLog a.now stream) (hcall : a.call.isDelivery = true) :
    LegalLog a.now (a.run stream) := by
  obtain ⟨call, now, writes, rewrites⟩ := a
  cases call with
  | publish queue payload options => exact h.publishWith writes _ queue payload options
  | consume queue group consumerId options => exact h.consume writes queue group consumerId options
  | ack queue group consumerId messageId => exact h.ack writes queue group consumerId messageId
  | nack queue group consumerId messageId options =>
    exact h.nack writes queue group consumerId messageId options
  | _ => cases hcall

/-! ## What consumers receive is what the log hands out -/

/-- The hand-out of a received message. -/
def BrokerMessage.handOut (m : BrokerMessage ν) : HandOut :=
  ⟨m.messageId, m.sequence, m.attempts, m.deliveredAt, m.visibilityDeadline⟩

/-- The hand-outs in the messages a group has received. -/
def receivedBy (messages : List (BrokerMessage ν)) (q g : String) : List HandOut :=
  (messages.filter fun m => m.queue = q ∧ m.group = g).map BrokerMessage.handOut

theorem handOuts_appendAll_of_none {events : List (BrokerEvent ν)}
    (h : ∀ e ∈ events, e.handOuts q g = []) (stream : EventStream ν) (writes : Writes) :
    handOuts (stream.appendAll writes events).1.events q g = handOuts stream.events q g := by
  induction events generalizing stream writes with
  | nil => rw [appendAll_nil]
  | cons e events ih =>
    obtain ⟨he, hrest⟩ := forall_mem_cons.1 h
    have hnext : ∀ later, handOuts ((stream.append e).appendAll later events).1.events q g =
        handOuts stream.events q g := by
      intro later
      rw [ih hrest, handOuts_append, he, append_nil]
    match writes with
    | none => exact hnext none
    | some 0 => rfl
    | some (n + 1) => exact hnext (some n)

theorem handOuts_deadLetterEvents {q' g' : String} {dead : DeadEntry} :
    ∀ e ∈ deadLetterEvents stream q g now dead, e.handOuts q' g' = [] := by
  intro e he
  rcases mem_append.1 he with he | he
  · obtain ⟨found, -, rfl⟩ := Option.map_eq_some_iff.1 (Option.mem_toList.1 he)
    rfl
  · rw [mem_singleton.1 he]
    rfl

theorem receivedBy_filterMap {q' g' : String} {visibilityDeadline : Int}
    {batch : List DeliveryEntry} (h : ∀ e ∈ batch, (stream.message e.messageId).isSome = true)
    (consumerId : String) :
    receivedBy (batch.filterMap (brokerMessage stream q g now visibilityDeadline)) q' g' =
      (BrokerEvent.delivered q g consumerId now visibilityDeadline batch :
        BrokerEvent ν).handOuts q' g' := by
  induction batch with
  | nil => simp [receivedBy, BrokerEvent.handOuts]
  | cons e batch ih =>
    obtain ⟨hhead, hrest⟩ := forall_mem_cons.1 h
    have ih := ih hrest
    obtain ⟨found, hfound⟩ := Option.isSome_iff_exists.1 hhead
    by_cases hsame : q = q' ∧ g = g'
    · simp only [BrokerEvent.handOuts, if_pos hsame] at ih ⊢
      rw [map_cons, ← ih]
      simp [receivedBy, brokerMessage, hfound, hsame, BrokerMessage.handOut]
    · simp only [BrokerEvent.handOuts, if_neg hsame] at ih ⊢
      rw [← ih]
      simp [receivedBy, brokerMessage, hfound, hsame]

theorem LegalLog.handOuts_consumeFrom (h : LegalLog now stream) (writes : Writes)
    (q g consumerId : String) (options : ConsumeOptions) (q' g' : String) :
    handOuts (Broker.consumeFrom writes q g consumerId options now stream).2.events q' g' =
      handOuts stream.events q' g' ++
        receivedBy
          ((Broker.consumeFrom writes q g consumerId options now stream).1.toOption.getD [])
          q' g' := by
  have hafter := h.consumeFrom writes q g consumerId options
  unfold Broker.consumeFrom at hafter ⊢
  by_cases hzero : options.maxMessages = 0
  · simp [hzero, receivedBy, Except.toOption]
  rw [if_neg hzero] at hafter ⊢
  cases hgs : stream.brokerState.group q g with
  | none => simp [receivedBy, Except.toOption]
  | some gs =>
    rw [hgs] at hafter
    dsimp only at hafter ⊢
    generalize clampI64 (now + asI64 options.visibilityTimeoutMs) = deadline at hafter ⊢
    generalize planConsume stream q gs options.maxMessages now = plan at hafter ⊢
    have hdead : ∀ e ∈ plan.dead.flatMap (deadLetterEvents stream q g now),
        e.handOuts q' g' = [] := by
      intro e he
      obtain ⟨x, -, hx⟩ := mem_flatMap.1 he
      exact handOuts_deadLetterEvents e hx
    have hbefore := handOuts_appendAll_of_none hdead stream writes
    unfold consumeEvents at hafter ⊢
    by_cases hempty : plan.batch.isEmpty = true
    · rw [if_pos hempty, append_nil, isEmpty_iff.1 hempty]
      split <;> rename_i heq <;> rw [heq] at hbefore <;> simp [hbefore, receivedBy, Except.toOption]
    rw [if_neg hempty] at hafter ⊢
    rcases appendAll_concat stream writes (plan.dead.flatMap (deadLetterEvents stream q g now))
      (.delivered q g consumerId now deadline plan.batch) with heq | heq
    · simp [heq, hbefore, receivedBy, Except.toOption]
    rw [heq] at hafter ⊢
    rw [handOuts_append, hbefore]
    refine congrArg _ (receivedBy_filterMap (fun e he => ?_) consumerId).symm
    -- what was handed out is in the queue, so its message is there
    have hhand : (⟨e.messageId, e.sequence, e.attempts, now, deadline⟩ : HandOut) ∈ handOuts
        ((stream.appendAll writes (plan.dead.flatMap (deadLetterEvents stream q g now))).1.append
          (.delivered q g consumerId now deadline plan.batch)).events q g := by
      rw [handOuts_append]
      refine mem_append_right _ ?_
      simp only [BrokerEvent.handOuts, and_self, if_true]
      exact mem_map_of_mem he
    have hkept := hafter.groupKept q g
    generalize (stream.appendAll writes _).1.append _ = stream' at hafter hhand hkept ⊢
    cases hgroup : stream'.brokerState.group q g with
    | none =>
      rw [(hkept.absent hgroup).1] at hhand
      cases hhand
    | some gs' =>
      exact (hafter.queueOk q).message _ ((hkept.present gs' hgroup).hand_mem _ hhand).1

/-- A call logs as handed out exactly what it returns. -/
theorem LegalLog.handOuts_run {a : Action ν} (h : LegalLog a.now stream)
    (hcall : a.call.isDelivery = true) (q g : String) :
    handOuts (a.run stream).events q g =
      handOuts stream.events q g ++ receivedBy (a.returns stream) q g := by
  obtain ⟨call, now, writes, rewrites⟩ := a
  cases call with
  | consume queue group consumerId options =>
    have hnone :
        ∀ e ∈ (ensureGroupEvents stream.brokerState queue group now : List (BrokerEvent ν)),
        e.handOuts q g = [] := by
      intro e he
      unfold ensureGroupEvents at he
      split at he
      · cases he
      · rw [mem_singleton.1 he]
        rfl
    have hlog := (chain_ensureGroup queue group).appendAll (fun _ _ => .append) h writes
    have hhand := handOuts_appendAll_of_none hnone stream writes
    simp only [Action.run, Action.returns]
    rcases consume_eq stream writes now queue group consumerId options with
      ⟨e, heq⟩ | ⟨e, heq⟩ | ⟨later, heq⟩
    · simp [heq, receivedBy]
    · simp [heq, hhand, receivedBy]
    · rw [heq, hlog.handOuts_consumeFrom later queue group consumerId options q g, hhand]
      cases (Broker.consumeFrom later queue group consumerId options now _).1 with
      | ok => rfl
      | error e => rfl
  | publish queue payload options =>
    simp only [Action.run, Action.returns, receivedBy, filter_nil, map_nil, append_nil]
    rcases h.publishWith_stream writes _ queue payload options with heq | heq
    · rw [heq]
    · rw [heq]
      exact handOuts_appendAll_of_none (forall_mem_singleton.2 rfl) stream writes
  | ack queue group consumerId messageId =>
    simp only [Action.run, Action.returns, receivedBy, filter_nil, map_nil, append_nil]
    unfold Broker.ack
    cases checkInFlight stream.brokerState queue group consumerId messageId with
    | error e => rfl
    | ok d =>
      exact handOuts_appendAll_of_none (forall_mem_singleton.2 rfl) stream writes
  | nack queue group consumerId messageId options =>
    simp only [Action.run, Action.returns, receivedBy, filter_nil, map_nil, append_nil]
    unfold Broker.nack
    cases checkInFlight stream.brokerState queue group consumerId messageId with
    | error e => rfl
    | ok d =>
      refine handOuts_appendAll_of_none ?_ stream writes
      intro e he
      unfold nackEvents at he
      dsimp only at he
      split at he
      · exact handOuts_deadLetterEvents e he
      · rw [mem_singleton.1 he]
        rfl
  | _ => cases hcall

/-! ## The result -/

/-- What every reachable state has: a legal log, and its hand-outs returned. -/
structure DeliveryInv (s : System ν) : Prop where
  legal : LegalLog s.clock s.stream
  received : ∀ q g, receivedBy s.received q g = handOuts s.stream.events q g

variable {clock : Int}

theorem deliveryInv_of_reach {s : System ν}
    (h : Reach step (fun _ a => a.call.isDelivery = true) (System.initial ν clock) s) :
    DeliveryInv s := by
  refine Reach.invariant DeliveryInv ⟨.empty _, fun _ _ => rfl⟩ ?_ h
  intro s a s' hinv hcall hstep
  unfold step at hstep
  split at hstep
  · cases hstep
  rename_i hclock
  cases hstep
  have hlog := hinv.legal.wait (Int.not_lt.1 hclock)
  refine ⟨hlog.run hcall, fun q g => ?_⟩
  rw [hlog.handOuts_run hcall, ← hinv.received q g]
  simp [receivedBy]

/-- What holds of one hand-out, given the log before it. -/
structure HandOutRules (stream : EventStream ν) (q g : String) (before : List (StoredEvent ν))
    (h : HandOut) : Prop where
  /-- The message was not settled. -/
  unsettled : h.sequence ∉ settlements before q g
  /-- It is one attempt more, up to the counter's end. -/
  counted : h.attempts =
    min ((handOuts before q g).countP (fun x => x.messageId = h.messageId) + 1) u32Max
  /-- It is never above the message's limit. -/
  bounded : ∀ m, stream.message h.messageId = some m → h.attempts ≤ m.2.maxAttempts
  /-- A limit below the counter's end is met first, so that each hand-out adds exactly one. -/
  grows : ∀ m, stream.message h.messageId = some m → m.2.maxAttempts < u32Max →
    h.attempts = (handOuts before q g).countP (fun x => x.messageId = h.messageId) + 1
  /-- An earlier hand-out has passed its deadline or was nacked. -/
  exclusive : ∀ pre stored mid, before = pre ++ stored :: mid →
    ∀ x ∈ stored.event.handOuts q g, x.messageId = h.messageId →
      x.visibilityDeadline ≤ h.deliveredAt ∨ ∃ y ∈ mid, y.event.nacks q g h.messageId = true

/-- What holds of a group in every reachable state. -/
structure GroupRules (stream : EventStream ν) (q g : String) (gs : GroupState) : Prop where
  /-- A retained message is not handed out yet, or open, or settled. -/
  partition : ∀ sequence id, (sequence, id) ∈ (stream.brokerState.messages q).entries →
    (gs.nextSequence ≤ sequence ∧ gs.deliveries.lookup id = none ∧
      sequence ∉ settlements stream.events q g) ∨
    (sequence < gs.nextSequence ∧ (∃ d, gs.deliveries.lookup id = some d ∧ d.sequence = sequence) ∧
      sequence ∉ settlements stream.events q g) ∨
    (sequence < gs.nextSequence ∧ gs.deliveries.lookup id = none ∧
      sequence ∈ settlements stream.events q g)
  /-- The floor is the least sequence that is not settled. -/
  floor : gs.settledFloor ∉ settlements stream.events q g ∧
    ∀ n < gs.settledFloor, n ∈ settlements stream.events q g
  /-- First hand-outs are in sequence order, none skipped. -/
  firsts : firstBy id ((handOuts stream.events q g).map HandOut.sequence) =
    List.range gs.nextSequence

theorem LegalLog.groupRules (h : LegalLog clock stream) {gs : GroupState}
    (hgs : stream.brokerState.group q g = some gs) :
    GroupRules stream q g gs := by
  have hq := h.queueOk q
  have hok := (h.groupKept q g).present gs hgs
  constructor
  · intro sequence id hmem
    rcases Nat.lt_or_ge sequence gs.nextSequence with hlt | hge
    · by_cases hsettled : sequence ∈ settlements stream.events q g
      · refine .inr (.inr ⟨hlt, ?_, hsettled⟩)
        cases hd : gs.deliveries.lookup id with
        | none => rfl
        | some d =>
          obtain ⟨hopen, -, hfree⟩ := hok.open_mem id d hd
          exact absurd (hq.sequence_unique hopen hmem ▸ hsettled) hfree
      · obtain ⟨d, hd⟩ := (hok.covered sequence id hmem hlt).resolve_left hsettled
        exact .inr (.inl ⟨hlt, ⟨d, hd, hq.sequence_unique (hok.open_mem id d hd).1 hmem⟩, hsettled⟩)
    · refine .inl ⟨hge, ?_, fun hsettled => ?_⟩
      · cases hd : gs.deliveries.lookup id with
        | none => rfl
        | some d =>
          obtain ⟨hopen, hlt, -⟩ := hok.open_mem id d hd
          have := hq.sequence_unique hopen hmem
          omega
      · have := hok.settled_lt sequence hsettled
        omega
  · refine ⟨fun hmem => ?_, fun n hn => ?_⟩
    · exact gs.settled.not_contains_floor ((hok.settled_iff _).2 hmem)
    · exact (hok.settled_iff n).1 (gs.settled.contains_of_lt_floor hn)
  · exact hok.firsts

/-- What a legal log hands out keeps the rules, seen from its place. -/
theorem LegalLog.handOutRules (h : LegalLog clock stream) {pre post : List (StoredEvent ν)}
    {stored : StoredEvent ν} (hsplit : stream.events = pre ++ stored :: post) :
    ((stored.event.handOuts q g).map HandOut.messageId).Nodup ∧
      ∀ x ∈ stored.event.handOuts q g, HandOutRules stream q g pre x := by
  obtain ⟨now, before, -, hbefore, rfl, hlegal, hmessage⟩ := h.split hsplit
  cases hevent : stored.event with
  | delivered q' g' =>
    by_cases hsame : q' = q ∧ g' = g
    · obtain ⟨rfl, rfl⟩ := hsame
      rw [hevent] at hlegal
      obtain ⟨rfl, hnodup, gs, hgs, hbatch⟩ := hlegal
      have hq := hbefore.queueOk q'
      have hok := (hbefore.groupKept q' g').present gs hgs
      simp only [BrokerEvent.handOuts, and_self, if_true]
      refine ⟨by simpa [map_map, Function.comp_def] using hnodup, ?_⟩
      intro x hx
      obtain ⟨entry, hentry, rfl⟩ := mem_map.1 hx
      obtain ⟨hfree, hbound, hcount, hdue⟩ := hbatch.entry hq hok hnodup hentry
      have hxentry := ((hok.deliverAll hq hbatch).hand_mem _ (mem_append_right _ hx)).1
      have hlimit : ∀ m, stream.message entry.messageId = some m →
          entry.attempts ≤ m.2.maxAttempts := by
        intro m hm
        -- the message is in the queue, hence in the log before the hand-out
        obtain ⟨m', hm'⟩ := Option.isSome_iff_exists.1 (hq.message _ hxentry)
        rw [hmessage _ m' hm'] at hm
        cases hm
        simpa [maxAttempts, hm'] using hbound
      refine ⟨hfree, hcount, hlimit, ?_, ?_⟩
      · intro m hm hbelow
        have hle := hlimit m hm
        dsimp only at hcount ⊢
        omega
      · intro pre₁ stored₁ mid hpre y hy hid
        rcases hbefore.accounted q' g' pre₁ stored₁ mid hpre y hy with
          hdl | ⟨z, hz, hnack | hsettle⟩ | ⟨d, hd, -, hstatus⟩
        · exact .inl hdl
        · exact .inr ⟨z, hz, hid ▸ hnack⟩
        · -- it was settled: then it would not be handed out again
          have hymem : y ∈ handOuts before.events q' g' := by
            rw [hpre]
            exact mem_flatMap.2 ⟨stored₁, by simp, hy⟩
          have hyentry := (hok.hand_mem y hymem).1
          rw [hid] at hyentry
          have hseq := hq.sequence_unique hyentry hxentry
          refine absurd (mem_filterMap.2 ⟨z, ?_, by rw [hsettle, hseq]⟩) hfree
          rw [hpre]
          simp [hz]
        · obtain ⟨gs', hgs', hlookup⟩ := Option.bind_eq_some_iff.1 hd
          rw [hgs] at hgs'
          cases hgs'
          rw [hid] at hlookup
          have hdue := hdue _ hlookup
          rw [hstatus] at hdue
          exact .inl (by simpa [DeliveryStatus.due] using hdue)
    · simp [BrokerEvent.handOuts, hsame]
  | _ => simp [BrokerEvent.handOuts]

/-- **Delivery discipline.** In every run of publish, consume, ack and nack every group and hand-out
keeps the rules. -/
theorem delivery_discipline {clock : Int} {s : System ν}
    (h : Reach step (fun _ a => a.call.isDelivery = true) (System.initial ν clock) s)
    (q g : String) :
    receivedBy s.received q g = handOuts s.stream.events q g ∧
      (∀ gs, s.stream.brokerState.group q g = some gs → GroupRules s.stream q g gs) ∧
      ∀ pre stored post, s.stream.events = pre ++ stored :: post →
        ((stored.event.handOuts q g).map HandOut.messageId).Nodup ∧
          ∀ x ∈ stored.event.handOuts q g, HandOutRules s.stream q g pre x := by
  have hinv := deliveryInv_of_reach h
  exact ⟨hinv.received q g, fun gs hgs => hinv.legal.groupRules hgs,
    fun pre stored post hsplit => hinv.legal.handOutRules hsplit⟩

/-! ## Runs -/

/-- One message, with no time to settle it. -/
def takeOne : ConsumeOptions := ⟨1, 0⟩

/-- The first of two messages is handed out, nacked, handed out again and acked. -/
def retriedRun : List (Action Unit) :=
  [⟨.publish "q" () ⟨none, none, none, none⟩, 0, none, []⟩,
    ⟨.publish "q" () ⟨none, none, none, some 2⟩, 1, none, []⟩,
    ⟨.consume "q" "g" "c" ⟨1, 10⟩, 2, none, []⟩,
    ⟨.nack "q" "g" "c" 0 ⟨true, none, none⟩, 3, none, []⟩,
    ⟨.consume "q" "g" "c" ⟨2, 10⟩, 4, none, []⟩, ⟨.ack "q" "g" "c" 0, 5, none, []⟩]

/-- The rules at that run. -/
theorem delivery_discipline_retriedRun :
    ∃ s : System Unit, Reach step (fun _ a => a.call.isDelivery = true) (System.initial Unit 0) s ∧
      (handOuts s.stream.events "q" "g").length = 3 ∧ settlements s.stream.events "q" "g" = [0] ∧
      receivedBy s.received "q" "g" = handOuts s.stream.events "q" "g" ∧
      (∀ gs, s.stream.brokerState.group "q" "g" = some gs → GroupRules s.stream "q" "g" gs) ∧
      ∀ pre stored post, s.stream.events = pre ++ stored :: post →
        ((stored.event.handOuts "q" "g").map HandOut.messageId).Nodup ∧
          ∀ x ∈ stored.event.handOuts "q" "g", HandOutRules s.stream "q" "g" pre x :=
  exists_reach_imp (fun s => (handOuts s.stream.events "q" "g").length = 3 ∧
    settlements s.stream.events "q" "g" = [0]) retriedRun (by decide +kernel)
    fun hreach ⟨hhand, hsettled⟩ => ⟨hhand, hsettled, delivery_discipline hreach "q" "g"⟩

/-- A message with the largest limit, after `k` hand-outs. -/
def Spun (k : Nat) (stream : EventStream Unit) : Prop :=
  stream.brokerState.messages "q" = ⟨[(0, 0)], 1⟩ ∧
    (stream.brokerState.group "q" "g").map (fun gs => (gs.nextSequence, gs.deliveries.entries)) =
      some (1, [⟨0, ⟨0, "c", .inFlight 0, min k u32Max, 0, none⟩⟩]) ∧
    stream.maxAttempts 0 = u32Max ∧
    (handOuts stream.events "q" "g").countP (fun x => x.messageId = 0) = k

instance (k : Nat) (stream : EventStream Unit) : Decidable (Spun k stream) :=
  inferInstanceAs (Decidable (_ ∧ _ ∧ _ ∧ _))

theorem Spun.consume {k : Nat} {stream : EventStream Unit} (h : Spun k stream) :
    (consume none "q" "g" "c" takeOne 0 stream).2 =
      stream.append (.delivered "q" "g" "c" 0 0 [⟨0, 0, nextAttempt (min k u32Max)⟩]) := by
  obtain ⟨hmessages, hgroup, hmax, -⟩ := h
  obtain ⟨gs, hgs, hpair⟩ := Option.map_eq_some_iff.1 hgroup
  rw [Prod.mk.injEq] at hpair
  obtain ⟨hnext, hentries⟩ := hpair
  have hlookup : gs.deliveries.lookup 0 = some ⟨0, "c", .inFlight 0, min k u32Max, 0, none⟩ :=
    AList.mem_lookup_iff.2 (by rw [hentries]; exact mem_singleton.2 rfl)
  have hdue : dueDeliveries gs 0 = [(0, 0)] := by
    rw [dueDeliveries, hentries]
    rfl
  have hfew : ¬ u32Max < nextAttempt (min k u32Max) := by
    unfold nextAttempt
    omega
  have hplan : planConsume stream "q" gs 1 0 =
      ⟨[⟨0, 0, nextAttempt (min k u32Max)⟩], []⟩ := by
    simp [planConsume, hdue, Plan.addDue, hlookup, hmax, hfew, hmessages, hnext, planFresh]
  have hname : ∀ kind, validateBrokerName kind "q" = .ok () ∧
      validateBrokerName kind "g" = .ok () ∧ validateBrokerName kind "c" = .ok () := by
    intro kind
    refine ⟨if_neg (by decide +kernel), if_neg (by decide +kernel), if_neg (by decide +kernel)⟩
  have hdeadline : clampI64 (asI64 0) = 0 := by decide +kernel
  simp [Broker.consume, (hname _).1, (hname _).2.1, (hname _).2.2, ensureGroupEvents, hgs,
    appendAll, consumeFrom, takeOne, hplan, consumeEvents, hdeadline, Writes.after]

theorem Spun.next {k : Nat} {stream : EventStream Unit} (h : Spun k stream) :
    Spun (k + 1)
      (stream.append (.delivered "q" "g" "c" 0 0 [⟨0, 0, nextAttempt (min k u32Max)⟩])) := by
  obtain ⟨hmessages, hgroup, hmax, hcount⟩ := h
  obtain ⟨gs, hgs, hpair⟩ := Option.map_eq_some_iff.1 hgroup
  rw [Prod.mk.injEq] at hpair
  obtain ⟨hnext, hentries⟩ := hpair
  have hattempt : nextAttempt (min k u32Max) = min (k + 1) u32Max := by
    unfold nextAttempt
    omega
  refine ⟨hmessages, ?_, ?_, ?_⟩
  · have hgroup' : (stream.append (.delivered "q" "g" "c" 0 0
        [⟨0, 0, nextAttempt (min k u32Max)⟩])).brokerState.group "q" "g" =
        some (gs.deliver "c" 0 0 ⟨0, 0, nextAttempt (min k u32Max)⟩) := by
      refine (BrokerState.group_updateGroup ..).trans ?_
      rw [if_pos ⟨rfl, rfl⟩, hgs]
      rfl
    rw [hgroup', hattempt]
    simp [GroupState.deliver, hnext, AList.entries_insert, hentries, kerase]
  · -- the bound is not the default, so the message is there
    have hmessage : (stream.message 0).isSome = true := by
      cases hm : stream.message 0 with
      | none => exact absurd hmax (by rw [maxAttempts, hm]; decide)
      | some m => rfl
    rw [maxAttempts_eq (fun id m hm => message_append hm _) hmessage, hmax]
  · rw [handOuts_append, countP_append, hcount]
    rfl

theorem spun_reach (n : Nat) :
    ∃ s : System Unit, Reach step (fun _ a => a.call.isDelivery = true) (System.initial Unit 0) s ∧
      s.clock = 0 ∧ Spun (n + 1) s.stream := by
  induction n with
  | zero =>
    exact exists_reach [⟨.publish "q" () ⟨none, none, none, some u32Max⟩, 0, none, []⟩,
      ⟨.consume "q" "g" "c" takeOne, 0, none, []⟩] (by decide +kernel)
  | succ n ih =>
    obtain ⟨s, hreach, hclock, hspun⟩ := ih
    refine ⟨_, hreach.next (a := ⟨.consume "q" "g" "c" takeOne, 0, none, []⟩) rfl
      (if_neg (by rw [hclock]; decide)), rfl, ?_⟩
    show Spun (n + 1 + 1) (consume none "q" "g" "c" takeOne 0 s.stream).2
    rw [hspun.consume]
    exact hspun.next

/-- After `2 ^ 32 - 1` hand-outs the attempt number stays. -/
theorem attempts_saturate :
    ∃ s : System Unit, Reach step (fun _ a => a.call.isDelivery = true) (System.initial Unit 0) s ∧
      ∃ pre stored post, s.stream.events = pre ++ stored :: post ∧
        ∃ x ∈ stored.event.handOuts "q" "g",
          x.attempts ≠ (handOuts pre "q" "g").countP (fun y => y.messageId = x.messageId) + 1 := by
  obtain ⟨s, hreach, hclock, hspun⟩ := spun_reach (u32Max - 1)
  refine ⟨_, hreach.next (a := ⟨.consume "q" "g" "c" takeOne, 0, none, []⟩) rfl
    (if_neg (by rw [hclock]; decide)), s.stream.events,
    ⟨s.stream.nextId, .delivered "q" "g" "c" 0 0 [⟨0, 0, nextAttempt (min u32Max u32Max)⟩]⟩, [],
    ?_, ⟨0, 0, nextAttempt (min u32Max u32Max), 0, 0⟩, by simp [BrokerEvent.handOuts], ?_⟩
  · show (consume none "q" "g" "c" takeOne 0 s.stream).2.events = _
    rw [hspun.consume]
    rfl
  · dsimp only
    rw [hspun.2.2.2]
    decide

end BicDb.Broker
