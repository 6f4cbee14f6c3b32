import BicDb.Broker.Grounded

/-!
# The replay of a trimmed log

The replays of the rewritten log and of the old one are related by `Trimmed`: the same state without
the messages up to the bound. Up to the marker the two states are equal.
-/

namespace BicDb.Broker

open BicDb.Foundation BrokerState Watermark List GroupState Table Delivery BrokerEvent

open scoped List

variable {ν : Type*}

/-! ## Two states -/

/-- A group before and after; one made after the marker has handed out nothing. -/
structure GroupTrimmed (through : Nat) (gs gs' : GroupState) : Prop where
  createdAt : gs'.createdAt = gs.createdAt
  redriven : gs'.redriven = gs.redriven
  settled : gs'.settled = gs.settled.raise through
  deliveries : ∀ id, gs'.deliveries.lookup id =
    (gs.deliveries.lookup id).filter fun d => decide (through < d.sequence)
  next : max gs'.nextSequence (through + 1) = max gs.nextSequence (through + 1)

/-- The second state is the first without the messages up to `through`. -/
structure Trimmed (q : String) (through : Nat) (s s' : BrokerState) : Prop where
  messages : s'.messages q =
    ⟨(s.messages q).entries.filter fun entry => decide (through < entry.1),
      max (s.messages q).nextSequence (through + 1)⟩
  otherMessages : ∀ q', q' ≠ q → s'.messages q' = s.messages q'
  absent : ∀ g, s.group q g = none → s'.group q g = none
  present : ∀ g gs, s.group q g = some gs →
    ∃ gs', s'.group q g = some gs' ∧ GroupTrimmed through gs gs'
  otherGroups : ∀ q', q' ≠ q → ∀ g, s'.group q' g = s.group q' g
  otherIdempotency : ∀ q', q' ≠ q → ∀ key,
    s'.idempotency.lookup (q', key) = s.idempotency.lookup (q', key)
  configs : s'.configs = s.configs

/-! ## Bounds -/

variable {through : Nat}

theorem filter_above {α : Type} (f : α → Nat) {a : α} (h : through < f a) :
    (some a).filter (fun x => decide (through < f x)) = some a :=
  Option.filter_some_pos (decide_eq_true h)

theorem filter_upto {α : Type} (f : α → Nat) {a : α} (h : f a ≤ through) :
    (some a).filter (fun x => decide (through < f x)) = none :=
  Option.filter_some_neg (decide_eq_false (Nat.not_lt.2 h))

/-! ## Groups -/

namespace GroupTrimmed

variable {through : Nat} {gs gs' : GroupState}

theorem applyTrim (gs : GroupState) (through : Nat) :
    GroupTrimmed through gs (gs.applyTrim through) where
  createdAt := rfl
  redriven := rfl
  settled := rfl
  deliveries id := Table.lookup_retain ..
  next := by
    dsimp only [GroupState.applyTrim]
    omega

variable (h : GroupTrimmed through gs gs')

include h

theorem deliverAll {removed : List Nat} (consumerId : String)
    (deliveredAt deadline : Int) {batch : List DeliveryEntry}
    (hbatch : ∀ entry ∈ batch, entry.messageId ∈ removed ↔ entry.sequence ≤ through)
    (hopen : ∀ id d, gs.deliveries.lookup id = some d → (id ∈ removed ↔ d.sequence ≤ through)) :
    GroupTrimmed through (batch.foldl (deliver consumerId deliveredAt deadline) gs)
      ((batch.filter fun entry => !removed.contains entry.messageId).foldl
        (deliver consumerId deliveredAt deadline) gs') := by
  induction batch generalizing gs gs' with
  | nil => exact h
  | cons entry batch ih =>
    obtain ⟨hentry, hrest⟩ := forall_mem_cons.1 hbatch
    have hopen' : ∀ id d, (gs.deliver consumerId deliveredAt deadline entry).deliveries.lookup id =
        some d → (id ∈ removed ↔ d.sequence ≤ through) := by
      intro id d hd
      rw [deliver, lookup_insert_eq] at hd
      split_ifs at hd with hid
      · cases hd
        rwa [hid]
      · exact hopen id d hd
    by_cases hmem : entry.messageId ∈ removed
    · -- the line goes, and the delivery that it opens is not counted
      have hle := hentry.1 hmem
      rw [filter_cons_of_neg (by simpa using hmem)]
      refine ih { h with deliveries := fun id => ?_, next := ?_ } hrest hopen'
      · rw [h.deliveries, deliver, lookup_insert_eq]
        split_ifs with hid
        · subst hid
          refine Eq.trans ?_ (filter_upto sequence hle).symm
          cases hd : gs.deliveries.lookup entry.messageId with
          | none => rfl
          | some d => exact filter_upto sequence ((hopen _ d hd).1 hmem)
        · rfl
      · have := h.next
        dsimp only [deliver]
        omega
    · have hlt : through < entry.sequence := Nat.lt_of_not_le fun hle => hmem (hentry.2 hle)
      rw [filter_cons_of_pos (by simpa using hmem)]
      refine ih { h with deliveries := fun id => ?_, next := ?_ } hrest hopen'
      · rw [deliver, deliver, lookup_insert_eq, lookup_insert_eq]
        split
        · exact (filter_above sequence hlt).symm
        · exact h.deliveries id
      · have := h.next
        dsimp only [deliver]
        omega

section

variable {id : Nat} {d : Delivery} (hd : gs.deliveries.lookup id = some d)

include hd

theorem settleMessage_removed (hle : d.sequence ≤ through) (sequence : Option Nat) :
    GroupTrimmed through (gs.settleMessage id sequence) gs' := by
  rw [settleMessage_of_lookup hd]
  refine { h with settled := ?_, deliveries := fun id' => ?_ }
  · rw [h.settled]
    exact ext_contains fun m => by grind [contains_raise, contains_add]
  · rw [h.deliveries]
    rw [lookup_erase_eq]
    split_ifs with hid
    · rw [hid, hd]
      simpa using hle
    · rfl

theorem settleMessage_kept (hlt : through < d.sequence) (sequence : Option Nat) :
    GroupTrimmed through (gs.settleMessage id sequence) (gs'.settleMessage id sequence) := by
  have hd' : gs'.deliveries.lookup id = some d := by simp [h.deliveries, hd, hlt]
  rw [settleMessage_of_lookup hd, settleMessage_of_lookup hd']
  refine { h with settled := ?_, deliveries := fun id' => ?_ }
  · dsimp only
    rw [h.settled]
    exact ext_contains fun m => by grind [contains_raise, contains_add]
  · dsimp only
    rw [lookup_erase_eq, lookup_erase_eq]
    split
    · rfl
    · exact h.deliveries id'

theorem release_removed (hle : d.sequence ≤ through) (availableAt : Int) (error : Option String) :
    GroupTrimmed through (gs.release id availableAt error) gs' := by
  refine { h with deliveries := fun id' => ?_ }
  rw [h.deliveries, release, lookup_modify]
  split_ifs with hid
  · rw [hid, hd]
    exact (filter_upto sequence hle).trans (filter_upto sequence
      (a := { d with status := .available availableAt, lastError := error }) hle).symm
  · rfl

end

theorem release_kept (id : Nat) (availableAt : Int) (error : Option String) :
    GroupTrimmed through (gs.release id availableAt error) (gs'.release id availableAt error) := by
  refine { h with deliveries := fun id' => ?_ }
  rw [release, release, lookup_modify, lookup_modify]
  split
  · rw [h.deliveries, Option.filter_map]
    rfl
  · exact h.deliveries id'

theorem applyTrim_older {old : Nat} (hle : old ≤ through) :
    GroupTrimmed through (gs.applyTrim old) gs' := by
  refine { h with settled := ?_, deliveries := fun id => ?_, next := ?_ }
  · dsimp only [GroupState.applyTrim]
    rw [h.settled]
    exact ext_contains fun m => by grind [contains_raise]
  · rw [h.deliveries, GroupState.applyTrim, lookup_retain, Option.filter_filter]
    congr 1
    funext d
    rw [← Bool.decide_and, decide_eq_decide]
    omega
  · have := h.next
    dsimp only [GroupState.applyTrim]
    omega

theorem applyTrim_later (later : Nat) :
    GroupTrimmed through (gs.applyTrim later) (gs'.applyTrim later) := by
  refine { h with settled := ?_, deliveries := fun id => ?_, next := ?_ }
  · dsimp only [GroupState.applyTrim]
    rw [h.settled]
    exact ext_contains fun m => by grind [contains_raise]
  · rw [GroupState.applyTrim, GroupState.applyTrim, lookup_retain, lookup_retain,
      h.deliveries, Option.filter_filter, Option.filter_filter]
    congr 1
    funext d
    exact Bool.and_comm _ _
  · have := h.next
    dsimp only [GroupState.applyTrim]
    omega

end GroupTrimmed

/-! ## New groups -/

theorem filter_eq_drop {entries : List (Nat × Nat)} {start : Nat}
    (h : entries.map Prod.fst = List.range' start entries.length) :
    (entries.filter fun entry => decide (through < entry.1)) =
      entries.drop (through + 1 - start) := by
  induction entries generalizing start with
  | nil => simp
  | cons e entries ih =>
    rw [map_cons, length_cons, range'_succ, cons.injEq] at h
    have hrest := ih h.2
    by_cases hlt : through < e.1
    · rw [filter_cons_of_pos (by simpa using hlt), hrest,
        show through + 1 - (start + 1) = 0 by omega, show through + 1 - start = 0 by omega]
      rfl
    · rw [filter_cons_of_neg (by simpa using hlt), hrest,
        show through + 1 - start = through + 1 - (start + 1) + 1 by omega, drop_succ_cons]

theorem startOf_trimmed {m : QueueMessages} (h : QueueTidy m) (through : Nat) :
    startOf ⟨m.entries.filter fun entry => decide (through < entry.1),
        max m.nextSequence (through + 1)⟩ =
      max (startOf m) (through + 1) := by
  -- the sequence at a position
  have hget : ∀ i, (m.entries[i]?).map Prod.fst =
      if i < m.entries.length then some (m.nextSequence - m.entries.length + i) else none := by
    intro i
    rw [← getElem?_map, h.sequences]
    split_ifs with hi
    · rw [getElem?_range' (by simpa using hi), Nat.one_mul]
    · exact getElem?_eq_none (by simpa using hi)
  have hstart : startOf m = m.nextSequence - m.entries.length := by
    rw [startOf, head?_eq_getElem?, hget]
    split
    · simp
    · simp only [Option.getD_none]
      omega
  rw [hstart, startOf, filter_eq_drop h.sequences, head?_drop, hget]
  split
  · simp only [Option.getD_some]
    omega
  · simp only [Option.getD_none]
    omega

theorem GroupTrimmed.new {m m' : QueueMessages} (h : QueueTidy m)
    (hm : m' = ⟨m.entries.filter fun entry => decide (through < entry.1),
      max m.nextSequence (through + 1)⟩) (createdAt : Int) :
    GroupTrimmed through (GroupState.new createdAt (startOf m))
      (GroupState.new createdAt (startOf m')) where
  createdAt := rfl
  redriven := rfl
  settled := by
    dsimp only [GroupState.new]
    rw [hm, startOf_trimmed h]
    exact ext_contains fun m => by grind [contains_raise, contains_below]
  deliveries _ := rfl
  next := rfl

/-! ## Events that stay and events that go -/

theorem retainEvent_of_other {q q₁ : String} (through : Nat) (removed : List Nat)
    {stored : StoredEvent ν} (hqueue : stored.event.groupQueue = some q₁) (hne : q₁ ≠ q) :
    retainEvent q through removed stored = some stored := by
  obtain ⟨id, event⟩ := stored
  rw [retainEvent, if_neg (by simpa [hqueue] using hne)]
  cases event with
  | queueMessage => cases hqueue
  | queueTrimmed => cases hqueue
  | _ => rfl

theorem retainEvent_of_untouched {q q₁ : String} (through : Nat) {removed : List Nat}
    {stored : StoredEvent ν} (hqueue : stored.event.groupQueue = some q₁)
    (h : retainTrimmedControlEvent removed stored.event = some stored.event) :
    retainEvent q through removed stored = some stored := by
  by_cases hq : q₁ = q
  · rw [retainEvent, if_pos (hqueue.trans (congrArg some hq)), h]
    rfl
  · exact retainEvent_of_other through removed hqueue hq

namespace Trimmed

variable {q : String} {through : Nat} {s s' : BrokerState}

/-- The removed ids are those of the messages up to the bound. -/
def Removes (q : String) (through : Nat) (removed : List Nat) (s : BrokerState) : Prop :=
  ∀ sequence id, (sequence, id) ∈ (s.messages q).entries → (id ∈ removed ↔ sequence ≤ through)

variable {g : String}

/-! ### Groups that change -/

/-- Every group changes as `change` says, and the rest stays. -/
structure Regrouped (s t : BrokerState) (change : String → String → GroupState → GroupState) :
    Prop where
  group : ∀ q g, t.group q g = (s.group q g).map (change q g)
  idempotency : t.idempotency = s.idempotency
  configs : t.configs = s.configs

theorem Regrouped.refl (s : BrokerState) : Regrouped s s fun _ _ => id :=
  ⟨fun _ _ => Option.map_id'.symm, rfl, rfl⟩

theorem Regrouped.updateGroup (s : BrokerState) (q g : String) (f : GroupState → GroupState) :
    Regrouped s (s.updateGroup q g f) fun q' g' => if q' = q ∧ g' = g then f else id := by
  refine ⟨fun q' g' => ?_, rfl, rfl⟩
  rw [group_updateGroup]
  split
  · rfl
  · exact Option.map_id'.symm

theorem Regrouped.marker (s : BrokerState) (id : Nat) (q : String) (bound : Nat) (atMs : Int) :
    Regrouped s (s.apply (⟨id, .queueTrimmed q bound atMs⟩ : StoredEvent ν))
      fun q' _ gs => if q' = q then gs.applyTrim bound else gs :=
  ⟨fun q' g => group_apply_trimmed s id q q' g bound atMs, rfl, rfl⟩

variable (h : Trimmed q through s s')

include h

theorem regroup {t t' : BrokerState}
    {change change' : String → String → GroupState → GroupState} (ht : Regrouped s t change)
    (ht' : Regrouped s' t' change')
    (hmessages :
      t'.messages q = ⟨(t.messages q).entries.filter fun entry => decide (through < entry.1),
      max (t.messages q).nextSequence (through + 1)⟩)
    (hother : ∀ q', q' ≠ q → t'.messages q' = t.messages q')
    (hsame : ∀ q', q' ≠ q → ∀ g, change' q' g = change q' g)
    (hrel : ∀ g gs gs', s.group q g = some gs → GroupTrimmed through gs gs' →
      GroupTrimmed through (change q g gs) (change' q g gs')) : Trimmed q through t t' where
  messages := hmessages
  otherMessages := hother
  absent g hnone := by
    rw [ht.group, Option.map_eq_none_iff] at hnone
    rw [ht'.group, h.absent g hnone, Option.map_none]
  present g gs hgs := by
    rw [ht.group, Option.map_eq_some_iff] at hgs
    obtain ⟨gs₀, hgs₀, rfl⟩ := hgs
    obtain ⟨gs', hgs', hgroup⟩ := h.present g gs₀ hgs₀
    exact ⟨_, by rw [ht'.group, hgs', Option.map_some], hrel g gs₀ gs' hgs₀ hgroup⟩
  otherGroups q' hne g := by rw [ht.group, ht'.group, h.otherGroups q' hne, hsame q' hne]
  otherIdempotency := by rw [ht.idempotency, ht'.idempotency]; exact h.otherIdempotency
  configs := by rw [ht.configs, ht'.configs, h.configs]

theorem updateGroup {f f' : GroupState → GroupState}
    (hf : ∀ gs gs', s.group q g = some gs → GroupTrimmed through gs gs' →
      GroupTrimmed through (f gs) (f' gs')) :
    Trimmed q through (s.updateGroup q g f) (s'.updateGroup q g f') := by
  refine h.regroup (.updateGroup s q g f) (.updateGroup s' q g f') h.messages h.otherMessages
    (fun q' hne g' => by simp [hne]) fun g' gs gs' hgs hrel => ?_
  by_cases hkey : g' = g
  · subst hkey
    simpa using hf gs gs' hgs hrel
  · simpa [hkey] using hrel

theorem updateGroup_left {f : GroupState → GroupState}
    (hf : ∀ gs gs', s.group q g = some gs → GroupTrimmed through gs gs' →
      GroupTrimmed through (f gs) gs') : Trimmed q through (s.updateGroup q g f) s' := by
  have hboth : Trimmed q through (s.updateGroup q g f) (s'.updateGroup q g id) := h.updateGroup hf
  exact hboth.regroup (.refl _) ⟨fun q' g' => by simp [group_updateGroup], rfl, rfl⟩ h.messages
    h.otherMessages (fun _ _ _ => rfl) fun _ _ _ _ hrel => hrel

omit h

variable {q₁ : String}

theorem updateGroup_other (h : Trimmed q through s s') (hne : q₁ ≠ q) (g : String)
    (f : GroupState → GroupState) :
    Trimmed q through (s.updateGroup q₁ g f) (s'.updateGroup q₁ g f) :=
  h.regroup (.updateGroup s q₁ g f) (.updateGroup s' q₁ g f) h.messages h.otherMessages
    (fun _ _ _ => rfl) fun g' gs gs' _ hrel => by simpa [hne.symm] using hrel

/-! ### Messages -/

variable {id : Nat} {timestamp : Int} {payload : ν} {metadata : Option (MessageMeta ν)}

variable (h : Trimmed q through s s')

include h

theorem grounded_message (hg : Grounded s ⟨id, .queueMessage q₁ timestamp payload metadata⟩) :
    Grounded s' ⟨id, .queueMessage q₁ timestamp payload metadata⟩ := by
  intro e he
  by_cases hq : q₁ = q
  · subst hq
    rw [h.messages] at he
    exact hg e (mem_filter.1 he).1
  · rw [h.otherMessages q₁ hq] at he
    exact hg e he

theorem message_kept
    (hlt : q₁ = q → through < (s.messages q₁).nextSequence) :
    Trimmed q through (s.apply ⟨id, .queueMessage q₁ timestamp payload metadata⟩)
      (s'.apply ⟨id, .queueMessage q₁ timestamp payload metadata⟩) := by
  have hnext : (s'.messages q₁).nextSequence = (s.messages q₁).nextSequence := by
    by_cases hq : q₁ = q
    · subst hq
      rw [h.messages]
      exact Nat.max_eq_left (hlt rfl)
    · rw [h.otherMessages q₁ hq]
  refine { h with
    messages := ?_, otherMessages := fun q' hq' => ?_, otherIdempotency := fun q' hq' key => ?_ }
  · rw [messages_apply_message, messages_apply_message, hnext]
    split_ifs with hq
    · subst hq
      simp only [h.messages, filter_append, filter_cons, hlt rfl, decide_true, if_true,
        filter_nil, QueueMessages.mk.injEq, true_and]
      have := hlt rfl
      omega
    · exact h.messages
  · rw [messages_apply_message, messages_apply_message, h.otherMessages q' hq']
    split_ifs with hq
    · rw [← hq, h.otherMessages q' hq']
    · rfl
  · rw [idempotency_apply_message, idempotency_apply_message, hnext, h.otherIdempotency q' hq']

theorem message_removed
    (hle : (s.messages q).nextSequence ≤ through) :
    Trimmed q through (s.apply ⟨id, .queueMessage q timestamp payload metadata⟩) s' := by
  have hgone : ¬ through < (s.messages q).nextSequence := Nat.not_lt.2 hle
  refine { h with
    messages := ?_, otherMessages := fun q' hq' => ?_, otherIdempotency := fun q' hq' key => ?_ }
  · rw [messages_apply_message, if_pos rfl, h.messages]
    simp only [filter_append, filter_cons, hgone, decide_false, filter_nil, QueueMessages.mk.injEq]
    exact ⟨by simp, by omega⟩
  · rw [messages_apply_message, if_neg hq', h.otherMessages q' hq']
  · rw [idempotency_apply_message, if_neg fun hkey => hq' hkey.1, Option.or_none]
    exact h.otherIdempotency q' hq' key

omit h

theorem marker (s : BrokerState) (q : String) (through : Nat) (id : Nat) (atMs : Int) :
    Trimmed q through s (s.apply (⟨id, .queueTrimmed q through atMs⟩ : StoredEvent ν)) := by
  have hgroup := (Regrouped.marker (ν := ν) s id q through atMs).group
  refine ⟨?_, fun q' hq' => ?_, fun g hnone => ?_, fun g gs hgs => ?_, fun q' hq' g => ?_,
    fun _ _ _ => rfl, rfl⟩
  · rw [messages_apply_trimmed, if_pos rfl]
  · rw [messages_apply_trimmed, if_neg hq']
  · rw [hgroup, hnone, Option.map_none]
  · rw [hgroup, hgs]
    simp only [Option.map_some, if_true]
    exact ⟨_, rfl, GroupTrimmed.applyTrim gs through⟩
  · rw [hgroup]
    simp [hq']

/-! ### Groups -/

theorem created (h : Trimmed q through s s') (ht : Tidy s) (id : Nat) (q₁ g : String)
    (createdAt : Int) :
    Trimmed q through (s.apply (⟨id, .groupCreated q₁ g createdAt⟩ : StoredEvent ν))
      (s'.apply (⟨id, .groupCreated q₁ g createdAt⟩ : StoredEvent ν)) := by
  constructor
  · simpa only [messages_apply_created] using h.messages
  · simpa only [messages_apply_created] using h.otherMessages
  · intro g' hnone
    rw [group_apply_created] at hnone ⊢
    split at hnone
    · cases hnone
    · rename_i hkey
      rw [if_neg hkey]
      exact h.absent g' hnone
  · intro g' gs hgs
    rw [group_apply_created] at hgs ⊢
    split_ifs at hgs with hkey
    · obtain ⟨rfl, rfl⟩ := hkey
      rw [if_pos ⟨rfl, rfl⟩]
      cases hgs
      cases hgs₀ : s.group q g' with
      | none =>
        rw [h.absent g' hgs₀]
        exact ⟨_, rfl, GroupTrimmed.new (ht.queue q) h.messages createdAt⟩
      | some gs₀ =>
        obtain ⟨gs', hgs', hrel⟩ := h.present g' gs₀ hgs₀
        rw [hgs']
        exact ⟨gs', rfl, hrel⟩
    · rw [if_neg hkey]
      exact h.present g' gs hgs
  · intro q' hq' g'
    rw [group_apply_created, group_apply_created, h.otherGroups q' hq' g']
    split_ifs with hkey
    · have hne : q₁ ≠ q := fun hq => hq' (hkey.1.trans hq)
      rw [h.otherGroups q₁ hne, h.otherMessages q₁ hne]
    · rfl
  · simpa only [idempotency_apply_created] using h.otherIdempotency
  · simpa only [configs_apply_created] using h.configs

/-! ### One event -/

section Event

variable {removed : List Nat} {messageId : Nat} {f : GroupState → GroupState}

theorem sequence_le_iff (ht : Tidy s) (hrem : Removes q through removed s) {gs : GroupState}
    (hgs : s.group q g = some gs) {id : Nat} {d : Delivery}
    (hd : gs.deliveries.lookup id = some d) : id ∈ removed ↔ d.sequence ≤ through :=
  hrem d.sequence id ((ht.group q g gs hgs).opened id d hd)

/-- The two states after an event that is dropped, or kept and still grounded. -/
def Goes (q : String) (through : Nat) (s s' : BrokerState) (stored : StoredEvent ν) :
    Option (StoredEvent ν) → Prop
  | none => Trimmed q through (s.apply stored) s'
  | some kept => Trimmed q through (s.apply stored) (s'.apply kept) ∧ Grounded s' kept

theorem goes_opened (h : Trimmed q through s s') (ht : Tidy s) (hrem : Removes q through removed s)
    {stored : StoredEvent ν} (hqueue : stored.event.groupQueue = some q₁)
    (happly : ∀ s : BrokerState, s.apply stored = s.updateGroup q₁ g f)
    (hground : ∀ s, Grounded s stored ↔ (s.delivery q₁ g messageId).isSome = true)
    (hretain : retainTrimmedControlEvent removed stored.event =
      if removed.contains messageId then none else some stored.event) (hg : Grounded s stored)
    (hremoved : ∀ gs gs' d, GroupTrimmed through gs gs' → gs.deliveries.lookup messageId = some d →
      d.sequence ≤ through → GroupTrimmed through (f gs) gs')
    (hkept : ∀ gs gs' d, GroupTrimmed through gs gs' → gs.deliveries.lookup messageId = some d →
      through < d.sequence → GroupTrimmed through (f gs) (f gs')) :
    Goes q through s s' stored (retainEvent q through removed stored) := by
  by_cases hq : q₁ = q
  · subst hq
    obtain ⟨gs, d, hgs, hd⟩ := exists_of_delivery_isSome ((hground s).1 hg)
    have hbound := sequence_le_iff ht hrem hgs hd
    rw [retainEvent, if_pos hqueue, hretain]
    split_ifs with hmem
    · show Trimmed q₁ through (s.apply stored) s'
      rw [happly]
      refine h.updateGroup_left fun gs₁ gs' hgs₁ hrel => ?_
      cases hgs.symm.trans hgs₁
      exact hremoved gs gs' d hrel hd (hbound.1 (contains_iff_mem.1 hmem))
    · have hlt : through < d.sequence :=
        Nat.lt_of_not_le fun hle => hmem (contains_iff_mem.2 (hbound.2 hle))
      refine ⟨?_, (hground s').2 ?_⟩
      · rw [happly, happly]
        refine h.updateGroup fun gs₁ gs' hgs₁ hrel => ?_
        cases hgs.symm.trans hgs₁
        exact hkept gs gs' d hrel hd hlt
      · obtain ⟨gs', hgs', hrel⟩ := h.present g gs hgs
        rw [delivery, hgs', Option.bind_some, hrel.deliveries, hd]
        exact congrArg Option.isSome (filter_above sequence hlt)
  · rw [retainEvent_of_other through removed hqueue hq]
    refine ⟨by rw [happly, happly]; exact h.updateGroup_other hq g f, (hground s').2 ?_⟩
    rw [delivery, h.otherGroups q₁ hq]
    exact (hground s).1 hg

theorem goes_message (h : Trimmed q through s s') {id : Nat} {timestamp : Int} {payload : ν}
    {metadata : Option (MessageMeta ν)}
    (hg : Grounded s ⟨id, .queueMessage q₁ timestamp payload metadata⟩)
    (hrem' : Removes q through removed
      (s.apply ⟨id, .queueMessage q₁ timestamp payload metadata⟩)) :
    Goes q through s s' ⟨id, .queueMessage q₁ timestamp payload metadata⟩
      (retainEvent q through removed ⟨id, .queueMessage q₁ timestamp payload metadata⟩) := by
  have hentry : ((s.messages q₁).nextSequence, id) ∈
      ((s.apply ⟨id, .queueMessage q₁ timestamp payload metadata⟩).messages q₁).entries := by
    rw [messages_apply_message, if_pos rfl]
    exact mem_append_right _ (mem_singleton.2 rfl)
  simp only [retainEvent, groupQueue, reduceCtorEq, if_false]
  split_ifs with hgone
  · obtain ⟨rfl, hmem⟩ := hgone
    exact h.message_removed ((hrem' _ id hentry).1 (contains_iff_mem.1 hmem))
  · refine ⟨h.message_kept ?_, h.grounded_message hg⟩
    rintro rfl
    exact Nat.lt_of_not_le fun hle =>
      hgone ⟨rfl, contains_iff_mem.2 ((hrem' _ id hentry).2 hle)⟩

/-- An earlier trim's marker: the rewrite drops it once this trim covers it. -/
theorem goes_marker (h : Trimmed q through s s') {id old : Nat} {atMs : Int}
    (hempty : (s.messages q₁).entries = []) :
    Goes q through s s' (⟨id, .queueTrimmed q₁ old atMs⟩ : StoredEvent ν)
      (retainEvent q through removed ⟨id, .queueTrimmed q₁ old atMs⟩) := by
  simp only [retainEvent, groupQueue, reduceCtorEq, if_false]
  split_ifs with hgone
  · obtain ⟨rfl, hle⟩ := hgone
    refine h.regroup (.marker s id q₁ old atMs) (.refl s') ?_ (fun q' hq' => ?_)
      (fun q' hne g => by funext gs; simp [hne]) fun g gs gs' _ hrel => by
        simpa using hrel.applyTrim_older hle
    · rw [messages_apply_trimmed, if_pos rfl, h.messages, hempty]
      simp only [filter_nil, QueueMessages.mk.injEq, true_and]
      omega
    · rw [messages_apply_trimmed, if_neg hq', h.otherMessages q' hq']
  · refine ⟨h.regroup (.marker s id q₁ old atMs) (.marker s' id q₁ old atMs) ?_ (fun q' hq' => ?_)
      (fun _ _ _ => rfl) fun g gs gs' _ hrel => ?_, ?_⟩
    · rw [messages_apply_trimmed, messages_apply_trimmed]
      split_ifs with hq
      · subst hq
        simp only [h.messages, hempty, filter_nil, QueueMessages.mk.injEq, true_and]
        omega
      · exact h.messages
    · rw [messages_apply_trimmed, messages_apply_trimmed, h.otherMessages q' hq']
      split_ifs with hq
      · rw [← hq, h.otherMessages q' hq']
      · rfl
    · split
      · exact hrel.applyTrim_later old
      · exact hrel
    show (s'.messages q₁).entries = []
    by_cases hq : q₁ = q
    · subst hq
      rw [h.messages, hempty]
      rfl
    · rw [h.otherMessages q₁ hq, hempty]

theorem goes_delivered (h : Trimmed q through s s') (ht : Tidy s)
    (hrem : Removes q through removed s) {stored : StoredEvent ν} {consumerId : String}
    {deliveredAt deadline : Int} {batch : List DeliveryEntry}
    (hevent : stored.event = .delivered q₁ g consumerId deliveredAt deadline batch)
    (hg : Grounded s stored) :
    Goes q through s s' stored (retainEvent q through removed stored) := by
  obtain ⟨id, event⟩ := stored
  subst hevent
  by_cases hq : q₁ = q
  · subst hq
    simp only [retainEvent, groupQueue, if_true, retainTrimmedControlEvent]
    have hstep :=
      fun gs gs' (hgs : s.group q₁ g = some gs) (hrel : GroupTrimmed through gs gs') =>
      hrel.deliverAll consumerId deliveredAt deadline (fun entry he => hrem _ _ (hg.2 entry he))
        fun _ _ hd => sequence_le_iff ht hrem hgs hd
    split
    · rename_i hnone
      refine h.updateGroup_left fun gs gs' hgs hrel => ?_
      have hrest := hstep gs gs' hgs hrel
      rwa [isEmpty_iff.1 hnone] at hrest
    · rename_i hne
      refine ⟨h.updateGroup hstep, by simpa using hne, fun entry he => ?_⟩
      obtain ⟨hmem, hkeep⟩ := mem_filter.1 he
      have hentry := hg.2 entry hmem
      rw [h.messages]
      refine mem_filter.2 ⟨hentry, decide_eq_true (Nat.lt_of_not_le fun hle => ?_)⟩
      simp [(hrem _ _ hentry).2 hle] at hkeep
  · rw [retainEvent_of_other through removed rfl hq]
    refine ⟨h.updateGroup_other hq g _, hg.1, ?_⟩
    rw [h.otherMessages q₁ hq]
    exact hg.2

/-- **Every event keeps the relation**, dropped or kept. -/
theorem goes (h : Trimmed q through s s') (ht : Tidy s) {stored : StoredEvent ν}
    (hg : Grounded s stored) (hrem : Removes q through removed s)
    (hrem' : Removes q through removed (s.apply stored)) :
    Goes q through s s' stored (retainEvent q through removed stored) := by
  obtain ⟨id, event⟩ := stored
  cases event with
  | queueMessage q₁ timestamp payload metadata =>
    exact h.goes_message hg hrem'
  | queueTrimmed q₁ old atMs =>
    exact h.goes_marker hg
  | delivered => exact h.goes_delivered ht hrem rfl hg
  | acked q₁ g consumerId messageId sequence ackedAt =>
    exact h.goes_opened ht hrem rfl (fun _ => rfl) (fun _ => Iff.rfl) rfl hg
      (fun _ _ _ hrel hd hle => hrel.settleMessage_removed hd hle sequence)
      fun _ _ _ hrel hd hlt => hrel.settleMessage_kept hd hlt sequence
  | nacked q₁ g consumerId messageId _ availableAt error =>
    exact h.goes_opened ht hrem rfl (fun _ => rfl) (fun _ => Iff.rfl) rfl hg
      (fun _ _ _ hrel hd hle => hrel.release_removed hd hle availableAt error)
      fun _ _ _ hrel _ _ => hrel.release_kept messageId availableAt error
  | deadLettered q₁ g messageId sequence =>
    exact h.goes_opened ht hrem rfl (fun _ => rfl) (fun _ => Iff.rfl) rfl hg
      (fun _ _ _ hrel hd hle => hrel.settleMessage_removed hd hle (some sequence))
      fun _ _ _ hrel hd hlt => hrel.settleMessage_kept hd hlt (some sequence)
  | groupCreated q₁ g createdAt =>
    rw [retainEvent_of_untouched through rfl rfl]
    exact ⟨h.created ht id q₁ g createdAt, trivial⟩
  | redriven q₁ g =>
    rw [retainEvent_of_untouched through rfl rfl]
    refine ⟨?_, trivial⟩
    by_cases hq : q₁ = q
    · subst hq
      refine h.updateGroup fun gs gs' _ hrel => { hrel with redriven := ?_ }
      rw [hrel.redriven]
    · exact h.updateGroup_other hq g _
  | queueConfigured =>
    refine ⟨{ h with configs := ?_ }, trivial⟩
    simp only [apply, h.configs]
  | deadLetteredMessage => exact ⟨h, trivial⟩
  | other stream => exact ⟨h, trivial⟩

end Event

/-! ### Before the marker -/

theorem retained_of_empty {removed : List Nat} (ht : Tidy s) {stored stored' : StoredEvent ν}
    (hg : Grounded s stored) (hempty : (s.messages q).entries = [])
    (hsome : retainEvent q through removed stored = some stored') : stored' = stored := by
  -- the queue has no open delivery
  have hclosed : ∀ {g messageId}, (s.delivery q g messageId).isSome = true → False := by
    intro g messageId hopen
    obtain ⟨gs, d, hgs, hd⟩ := exists_of_delivery_isSome hopen
    have hmem := (ht.group q g gs hgs).opened messageId d hd
    rw [hempty] at hmem
    cases hmem
  rw [retainEvent] at hsome
  split_ifs at hsome with hqueue
  · obtain ⟨event', hevent, rfl⟩ := Option.map_eq_some_iff.1 hsome
    obtain ⟨id, event⟩ := stored
    cases event with
    | queueMessage | queueTrimmed | queueConfigured | deadLetteredMessage | other => cases hqueue
    | delivered =>
      cases hqueue
      obtain ⟨entry, he⟩ := exists_mem_of_ne_nil _ hg.1
      have hmem := hg.2 entry he
      rw [hempty] at hmem
      cases hmem
    | acked | nacked | deadLettered =>
      cases hqueue
      exact (hclosed hg).elim
    | groupCreated | redriven =>
      cases hevent
      rfl
  · split at hsome
    · split_ifs at hsome
      exact (Option.some.inj hsome).symm
    · split_ifs at hsome
      exact (Option.some.inj hsome).symm
    · exact (Option.some.inj hsome).symm

end Trimmed

/-! ## Whole logs -/

section Log

variable {q : String} {through : Nat} {removed : List Nat}

open Trimmed

variable {s : BrokerState}

theorem Trimmed.Removes.anti {final : BrokerState}
    (hpre : (s.messages q).entries <+: (final.messages q).entries)
    (h : Removes q through removed final) : Removes q through removed s :=
  fun sequence id hmem => h sequence id (hpre.subset hmem)

theorem Trimmed.foldl {s' : BrokerState} {events : List (StoredEvent ν)} (marker : StoredEvent ν)
    (h : Trimmed q through s s') (ht : Tidy s) (hg : GroundedFrom s events)
    (hrem : Removes q through removed (events.foldl apply s)) :
    Trimmed q through (events.foldl apply s)
        ((rewriteTrimmed q through removed marker true events).foldl apply s') ∧
      GroundedFrom s' (rewriteTrimmed q through removed marker true events) := by
  induction events generalizing s s' with
  | nil => exact ⟨h, trivial⟩
  | cons stored events ih =>
    have hgoes := h.goes ht hg.1 (hrem.anti (entries_prefix_foldl hg q))
      (hrem.anti (entries_prefix_foldl hg.2 q))
    have ht' := ht.apply hg.1
    cases hretain : retainEvent q through removed stored with
    | none =>
      rw [hretain] at hgoes
      simp only [rewriteTrimmed, hretain, if_true]
      exact ih hgoes ht' hg.2 hrem
    | some kept =>
      rw [hretain] at hgoes
      obtain ⟨hstep, hground⟩ := hgoes
      obtain ⟨hrel, hrest⟩ := ih hstep ht' hg.2 hrem
      simp only [rewriteTrimmed, hretain]
      exact ⟨hrel, hground, hrest⟩

/-- The first message left is one of the removed. -/
def FirstRemoved (q : String) (removed : List Nat) (final : BrokerState) : Prop :=
  ∃ e rest, (final.messages q).entries = e :: rest ∧ e.2 ∈ removed

/-- **The replay of the rewritten log is the trimmed state.** -/
theorem trimmed_rewriteTrimmed {events : List (StoredEvent ν)} (markerId : Nat) (atMs : Int)
    (ht : Tidy s) (hempty : (s.messages q).entries = []) (hg : GroundedFrom s events)
    (hrem : Removes q through removed (events.foldl apply s))
    (hfirst : FirstRemoved q removed (events.foldl apply s)) :
    Trimmed q through (events.foldl apply s)
        ((rewriteTrimmed q through removed ⟨markerId, .queueTrimmed q through atMs⟩ false
          events).foldl apply s) ∧
      GroundedFrom s
        (rewriteTrimmed q through removed ⟨markerId, .queueTrimmed q through atMs⟩ false
          events) := by
  induction events generalizing s with
  | nil =>
    obtain ⟨e, rest, hentries, -⟩ := hfirst
    rw [foldl_nil, hempty] at hentries
    cases hentries
  | cons stored events ih =>
    have ht' := ht.apply hg.1
    have hpre := entries_prefix_foldl hg q
    have hpre' := entries_prefix_foldl hg.2 q
    cases hretain : retainEvent q through removed stored with
    | none =>
      have hmarker : Trimmed q through s
          (s.apply (⟨markerId, .queueTrimmed q through atMs⟩ : StoredEvent ν)) :=
        Trimmed.marker s q through markerId atMs
      have hgoes := hmarker.goes ht hg.1 (hrem.anti hpre) (hrem.anti hpre')
      rw [hretain] at hgoes
      obtain ⟨hrel, hrest⟩ := Trimmed.foldl ⟨markerId, .queueTrimmed q through atMs⟩ hgoes ht' hg.2
        hrem
      simp only [rewriteTrimmed, hretain, Bool.false_eq_true, if_false]
      exact ⟨hrel, hempty, hrest⟩
    | some kept =>
      have hsame := retained_of_empty ht hg.1 hempty hretain
      subst hsame
      -- a message of the queue that stays would be the first one
      have hempty' : ((s.apply kept).messages q).entries = [] := by
        by_contra hne
        obtain ⟨e, rest, hentries, hmem⟩ := hfirst
        obtain ⟨id, event⟩ := kept
        cases event with
        | queueMessage =>
          rw [messages_apply_message] at hne
          split_ifs at hne with hq
          · subst hq
            rw [messages_apply_message, if_pos rfl, hempty, nil_append] at hpre'
            simp only [foldl_cons] at hentries
            rw [hentries] at hpre'
            obtain ⟨rfl, -⟩ := cons_prefix_cons.1 hpre'
            simp [retainEvent, groupQueue, hmem] at hretain
          · exact hne hempty
        | queueTrimmed =>
          rw [messages_apply_trimmed] at hne
          split_ifs at hne with hq
          · subst hq
            simp [hempty] at hne
          · exact hne hempty
        | groupCreated =>
          rw [messages_apply_created] at hne
          exact hne hempty
        | _ => exact hne hempty
      obtain ⟨hrel, hrest⟩ := ih ht' hempty' hg.2 hrem hfirst
      simp only [rewriteTrimmed, hretain]
      exact ⟨hrel, hg.1, hrest⟩

end Log

end BicDb.Broker
