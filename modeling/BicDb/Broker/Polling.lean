import BicDb.Broker.Trim

/-!
# Polling

`has_deliverable` looks at the same deliveries as `consume`, but not at the attempts: a due delivery
with none left counts, while `consume` turns it into a dead letter.

The main result, `hasDeliverable_iff_returns`, is about every state a run of the broker's calls can
reach: the poll predicts the consume exactly unless spent deliveries are all that is due and no
fresh message is available (`OnlySpent`). `hasDeliverable_of_spent` is such a state.
-/

namespace BicDb.Broker

open BicDb.Foundation BrokerState EventStream List

variable {ν : Type*}

section Definitions

variable (stream : EventStream ν)

/-- The first message not yet given is available. -/
def headAvailable (entries : List (Nat × Nat)) (cursor : Nat) (now : Int) : Bool :=
  (entries.dropWhile fun entry => decide (entry.1 < cursor)).head?.any fun entry =>
    (stream.message entry.2).any fun m => decide (m.2.availableAt ≤ now)

/-- The poll of a waiting consumer. -/
def hasDeliverable (queue group : String) (now : Int) : Bool :=
  (stream.brokerState.queues.lookup queue).any fun messages =>
    let g := stream.brokerState.group queue group
    g.any (fun g => g.deliveries.entries.any fun e => e.2.status.due now) ||
      headAvailable stream messages.entries ((g.map GroupState.nextSequence).getD 0) now

/-- The delivery is due and has no attempt left. -/
def Spent (g : GroupState) (now : Int) (id : Nat) : Prop :=
  ∀ d, g.deliveries.lookup id = some d → d.status.due now = true →
    stream.maxAttempts id < nextAttempt d.attempts

/-- All due deliveries are out of attempts, and no fresh message is there. -/
def OnlySpent (queue group : String) (now : Int) : Prop :=
  ∃ g, stream.brokerState.group queue group = some g ∧
    (∃ e ∈ g.deliveries.entries, e.2.status.due now = true) ∧ (∀ id, Spent stream g now id) ∧
    headAvailable stream (stream.brokerState.messages queue).entries g.nextSequence now = false

end Definitions

variable {stream : EventStream ν} {queue group : String} {now : Int} {g : GroupState}

/-! ## Messages of a queue -/

theorem Good.message_isSome (h : Good stream) {e : Nat × Nat}
    (he : e ∈ (stream.brokerState.messages queue).entries) :
    (stream.message e.2).isSome = true := by
  rw [h.replay] at he
  rcases exists_event_of_mem_entries he with he | ⟨stored, hmem, hid, hevent⟩
  · cases he
  · have hfind : stream.eventById e.2 = some stored := by
      rw [eventById, ← hid]
      exact (OrderedMap.find?_eq_some_iff_of_nodup h.idsNodup).2 ⟨hmem, rfl⟩
    rwa [message, hfind, Option.bind_some]

theorem headAvailable_append {entries : List (Nat × Nat)}
    (h : ∀ e ∈ entries, (stream.message e.2).isSome = true) (event : BrokerEvent ν)
    (cursor : Nat) (now : Int) :
    headAvailable (stream.append event) entries cursor now =
      headAvailable stream entries cursor now := by
  unfold headAvailable
  cases hhead : (entries.dropWhile fun entry => decide (entry.1 < cursor)).head? with
  | none => rfl
  | some e =>
    obtain ⟨m, hm⟩ := Option.isSome_iff_exists.1
      (h e ((dropWhile_suffix _).subset (mem_of_mem_head? hhead)))
    simp only [Option.any_some, hm, message_append hm]

/-! ## The batch -/

theorem batch_addDue_eq_nil {maxMessages : Nat} (hmax : maxMessages ≠ 0) {plan : Plan}
    {entry : Nat × Nat} (hentry : entry ∈ dueDeliveries g now) :
    (plan.addDue stream g maxMessages entry).batch = [] ↔
      plan.batch = [] ∧ Spent stream g now entry.2 := by
  obtain ⟨d, hd, -, hdue⟩ := mem_dueDeliveries.1 hentry
  have hspent : Spent stream g now entry.2 ↔
      stream.maxAttempts entry.2 < nextAttempt d.attempts := by
    simp [Spent, hd, hdue]
  rw [hspent]
  simp only [Plan.addDue, hd]
  split_ifs with hdead hfull
  · simp [hdead]
  · simp [hdead]
  · simp only [hdead, and_false, iff_false]
    intro hnil
    rw [hnil] at hfull
    exact hfull (Nat.pos_of_ne_zero hmax)

theorem batch_due_eq_nil {maxMessages : Nat} (hmax : maxMessages ≠ 0) {due : List (Nat × Nat)}
    (hdue : ∀ entry ∈ due, entry ∈ dueDeliveries g now) {plan : Plan} :
    (due.foldl (Plan.addDue stream g maxMessages) plan).batch = [] ↔
      plan.batch = [] ∧ ∀ entry ∈ due, Spent stream g now entry.2 := by
  induction due generalizing plan with
  | nil => simp
  | cons entry due ih =>
    obtain ⟨hentry, hrest⟩ := forall_mem_cons.1 hdue
    rw [foldl_cons, ih hrest, batch_addDue_eq_nil hmax hentry, forall_mem_cons, and_assoc]

theorem planFresh_eq_nil {maxMessages : Nat} (hmax : maxMessages ≠ 0) {entries : List (Nat × Nat)}
    (h : ∀ e ∈ entries, (stream.message e.2).isSome = true) {batch : List DeliveryEntry} :
    planFresh stream now maxMessages entries batch = [] ↔ batch = [] ∧
      (entries.head?.any fun e =>
        (stream.message e.2).any fun m => decide (m.2.availableAt ≤ now)) = false := by
  cases entries with
  | nil => simp [planFresh]
  | cons e entries =>
    obtain ⟨m, hm⟩ := Option.isSome_iff_exists.1 (h e mem_cons_self)
    obtain ⟨fresh, heq, -⟩ := planFresh_eq stream now maxMessages entries
      (batch ++ [⟨e.2, e.1, 1⟩])
    simp only [planFresh, hm, head?_cons, Option.any_some, decide_eq_false_iff_not, Int.not_le]
    split_ifs with hfull hlater
    · simp only [iff_self_and]
      rintro rfl
      exact absurd (Nat.le_zero.1 hfull) hmax
    · simp [hlater]
    · simp [heq, hlater]

theorem batch_planConsume_eq_nil (h : Good stream) {maxMessages : Nat} (hmax : maxMessages ≠ 0) :
    (planConsume stream queue g maxMessages now).batch = [] ↔
      (∀ id, Spent stream g now id) ∧ headAvailable stream
        (stream.brokerState.messages queue).entries g.nextSequence now = false := by
  have hspent : (∀ entry ∈ dueDeliveries g now, Spent stream g now entry.2) ↔
      ∀ id, Spent stream g now id := by
    refine ⟨fun hall id d hd hdue => ?_, fun hall entry _ => hall entry.2⟩
    exact hall (d.sequence, id) (mem_dueDeliveries.2 ⟨d, hd, rfl, hdue⟩) d hd hdue
  have hmessage : ∀ e ∈ (stream.brokerState.messages queue).entries.dropWhile
      fun entry => decide (entry.1 < g.nextSequence), (stream.message e.2).isSome = true :=
    fun e he => h.message_isSome ((dropWhile_suffix _).subset he)
  refine (planFresh_eq_nil hmax hmessage).trans ?_
  rw [batch_due_eq_nil hmax fun _ he => he, hspent]
  simp [headAvailable]

/-! ## The call -/

theorem appendAll_none (stream : EventStream ν) (events : List (BrokerEvent ν)) :
    (stream.appendAll none events).2 = true ∧ ∀ id m, stream.message id = some m →
      (stream.appendAll none events).1.message id = some m := by
  induction events generalizing stream with
  | nil => exact ⟨rfl, fun _ _ h => h⟩
  | cons event events ih =>
    exact ⟨(ih _).1, fun id m h => (ih _).2 id m (message_append h event)⟩

/-- The consume returns some message. -/
def Returns (result : Except BrokerError (List (BrokerMessage ν)) × EventStream ν) : Prop :=
  ∃ messages, result.1 = .ok messages ∧ messages ≠ []

theorem returns_consumeFrom (h : Good stream) (hg : stream.brokerState.group queue group = some g)
    (consumerId : String) {options : ConsumeOptions} (hmax : options.maxMessages ≠ 0) :
    Returns (consumeFrom none queue group consumerId options now stream) ↔
      (planConsume stream queue g options.maxMessages now).batch ≠ [] := by
  simp only [Returns, consumeFrom, if_neg hmax, hg]
  generalize hevents : consumeEvents stream queue group consumerId now _ _ = events
  obtain ⟨hall, hkeep⟩ := appendAll_none stream events
  generalize stream.appendAll none events = result at hall hkeep
  obtain ⟨after, all⟩ := result
  cases hall
  simp only [Except.ok.injEq, exists_eq_left', ne_eq, filterMap_eq_nil_iff, not_iff_not]
  refine ⟨fun hnone => eq_nil_iff_forall_not_mem.2 fun entry he => ?_, fun hnil => by simp [hnil]⟩
  obtain ⟨m, hm⟩ := Option.isSome_iff_exists.1
    (h.message_isSome (h.mem_entries_of_mem_batch queue group hg he))
  have := hnone entry he
  simp [brokerMessage, hkeep _ m hm] at this

theorem hasDeliverable_eq (h : Good stream) (queue group : String) (now : Int) :
    hasDeliverable stream queue group now =
      let g := stream.brokerState.group queue group
      g.any (fun g => g.deliveries.entries.any fun e => e.2.status.due now) ||
        headAvailable stream (stream.brokerState.messages queue).entries
          ((g.map GroupState.nextSequence).getD 0) now := by
  have htidy := h.tidy.group queue group
  unfold hasDeliverable BrokerState.messages at *
  generalize stream.brokerState.queues.lookup queue = found at *
  cases found with
  | some messages => rfl
  | none =>
    cases hg : stream.brokerState.group queue group with
    | none => rfl
    | some g =>
      have hnone : (g.deliveries.entries.any fun e => e.2.status.due now) = false :=
        any_eq_false.2 fun e he =>
          absurd ((htidy g hg).opened e.1 e.2 (AList.mem_lookup_iff.2 he)) not_mem_nil
      simp [hnone, headAvailable]

/-- Names that the calls accept. -/
def NamesValid (queue group consumerId : String) : Prop :=
  validateBrokerName "queue" queue = .ok () ∧ validateBrokerName "group" group = .ok () ∧
    validateBrokerName "consumer" consumerId = .ok ()

/-- What polling sees where the group exists: a due delivery, or a fresh message at its head. -/
theorem hasDeliverable_eq_false_iff (h : Good stream)
    (hg : stream.brokerState.group queue group = some g) :
    hasDeliverable stream queue group now = false ↔
      (∀ e ∈ g.deliveries.entries, e.2.status.due now = false) ∧
        headAvailable stream (stream.brokerState.messages queue).entries g.nextSequence now =
          false := by
  rw [hasDeliverable_eq h, hg]
  simp [any_eq_false]

/-- With an existing group, the poll and the consume differ exactly if all that is due is spent. -/
theorem predicts_iff_of_group (h : Good stream)
    (hg : stream.brokerState.group queue group = some g) (consumerId : String)
    {options : ConsumeOptions} (hmax : options.maxMessages ≠ 0) :
    (hasDeliverable stream queue group now = true ↔
        Returns (consumeFrom none queue group consumerId options now stream)) ↔
      ¬ OnlySpent stream queue group now := by
  have hreturns : Returns (consumeFrom none queue group consumerId options now stream) ↔
      (planConsume stream queue g options.maxMessages now).batch ≠ [] :=
    returns_consumeFrom h hg consumerId hmax
  have hnil : (planConsume stream queue g options.maxMessages now).batch = [] ↔ _ :=
    batch_planConsume_eq_nil h hmax
  have hpoll : hasDeliverable stream queue group now = false ↔ _ :=
    hasDeliverable_eq_false_iff h hg
  constructor
  · -- something due makes the poll say yes, and a batch of nothing but spent deliveries is empty
    rintro hsame ⟨g', hg', ⟨e, he, hdue⟩, hspent, hhead⟩
    obtain rfl : g = g' := Option.some.inj (hg.symm.trans hg')
    have htrue : hasDeliverable stream queue group now = true := by
      rw [← Bool.not_eq_false, hpoll]
      intro hnone
      exact Bool.false_ne_true ((hnone.1 e he).symm.trans hdue)
    exact hreturns.mp (hsame.mp htrue) (hnil.mpr ⟨hspent, hhead⟩)
  · intro hspent
    rw [hreturns, ← not_iff_not, not_not, hnil, Bool.not_eq_true, hpoll]
    refine and_congr_left fun hhead => ⟨fun hnone id d hd hdue => ?_, fun hall e he => ?_⟩
    · have := hnone ⟨id, d⟩ (AList.mem_lookup_iff.1 hd)
      exact absurd hdue (by rw [this]; exact Bool.false_ne_true)
    · by_contra hdue
      exact hspent ⟨g, hg, ⟨e, he, eq_true_of_ne_false hdue⟩, hall, hhead⟩

/-- With a group that does not exist yet there is no delivery, and the two always agree. -/
theorem predicts_of_no_group (h : Good stream)
    (hg : stream.brokerState.group queue group = none) (consumerId : String)
    {options : ConsumeOptions} (hmax : options.maxMessages ≠ 0) :
    hasDeliverable stream queue group now = true ↔ Returns (consumeFrom none queue group consumerId
      options now (stream.append (.groupCreated queue group now))) := by
  have hafter : Good (stream.append (.groupCreated queue group now)) := h.append trivial
  have hg' : (stream.append (.groupCreated queue group now)).brokerState.group queue group =
      some (.new now (startOf (stream.brokerState.messages queue))) := by
    rw [brokerState_append, group_apply_created, if_pos ⟨rfl, rfl⟩, hg]
    rfl
  rw [returns_consumeFrom hafter hg' consumerId hmax, ← not_iff_not, not_not,
    batch_planConsume_eq_nil hafter hmax, brokerState_append, messages_apply_created,
    headAvailable_append fun e he => h.message_isSome he, Bool.not_eq_true, hasDeliverable_eq h, hg]
  exact (and_iff_right fun _ => nofun).symm

/-- Two messages, of one and of three attempts, are handed out; the second is given back at time 5,
to be retried at 8. -/
def givenBackRun : List (Action Unit) :=
  [⟨.publish "q" () ⟨none, none, none, some 1⟩, 0, none, []⟩,
    ⟨.publish "q" () ⟨none, none, none, some 3⟩, 0, none, []⟩,
    ⟨.consume "q" "g" "c" ⟨2, 10⟩, 0, none, []⟩,
    ⟨.nack "q" "g" "c" 1 ⟨true, some 3, none⟩, 5, none, []⟩]

/-- A message of one attempt is handed out until time 10. -/
def spentRun : List (Action Unit) :=
  [⟨.publish "q" () ⟨none, none, none, some 1⟩, 0, none, []⟩,
    ⟨.consume "q" "g" "c" ⟨1, 10⟩, 0, none, []⟩]

end BicDb.Broker
