import BicDb.RangeWrites.Store

/-!
# The log of one range

What every log looks like (`LogOk`) and how one log follows another (`LogEvolves`). Each edit of a
call keeps the first and gives the second.
-/

namespace BicDb.RangeWrites

open BicDb.Foundation WriteLog Table

variable {ρ : Type*}

/-- The moves of a command. -/
inductive Moves : WriteState → WriteState → Prop where
  | commit : Moves .prepared .committed
  | certify : Moves .committed .quorumCommitted
  | apply : Moves .quorumCommitted .applied
  | abortPrepared : Moves .prepared .aborted
  | abortCommitted : Moves .committed .aborted

/-! ## Logs -/

/-- The watermarks are ordered and the entries lie between them. -/
structure LogCore (digests : Digests ρ) (log : WriteLog ρ) : Prop where
  compacted_lt : log.compactedThrough < u64Max
  compacted_le : log.compactedThrough ≤ log.resolvedThrough
  resolved_le : log.resolvedThrough ≤ log.lastIndex
  last_le : log.lastIndex ≤ u64Max
  retained : ∀ i, (log.entries.lookup i).isSome = true ↔
    log.compactedThrough < i ∧ i ≤ log.lastIndex
  resolved : ∀ i entry, log.entries.lookup i = some entry → i ≤ log.resolvedThrough →
    entry.state.resolved = true
  indexed : ∀ i entry, log.entries.lookup i = some entry → entry.command.index = i
  valid : ∀ i entry, log.entries.lookup i = some entry → entry.command.validate digests = .ok ()
  epochs : ∀ i j entry entry', log.entries.lookup i = some entry →
    log.entries.lookup j = some entry' → i ≤ j →
    entry.command.rangeEpoch ≤ entry'.command.rangeEpoch
  epoch_le : ∀ i entry, log.entries.lookup i = some entry →
    entry.command.rangeEpoch ≤ log.currentEpoch

/-- The resolved watermark is as far as it goes. -/
structure LogOk (digests : Digests ρ) (log : WriteLog ρ) : Prop extends LogCore digests log where
  unresolved : log.resolvedAt (log.resolvedThrough + 1) = false

/-- Nothing is lost but by compaction, and states only move. -/
structure LogEvolves (log log' : WriteLog ρ) : Prop where
  epoch_le : log.currentEpoch ≤ log'.currentEpoch
  last_le : log.lastIndex ≤ log'.lastIndex
  resolved_le : log.resolvedThrough ≤ log'.resolvedThrough
  compacted_le : log.compactedThrough ≤ log'.compactedThrough
  entry : ∀ i entry, log.entries.lookup i = some entry →
    i ≤ log'.compactedThrough ∨
      ∃ entry', log'.entries.lookup i = some entry' ∧ entry'.command = entry.command ∧
        Relation.ReflTransGen Moves entry.state entry'.state

theorem LogEvolves.refl (log : WriteLog ρ) : LogEvolves log log where
  epoch_le := Nat.le_refl _
  last_le := Nat.le_refl _
  resolved_le := Nat.le_refl _
  compacted_le := Nat.le_refl _
  entry _ entry h := .inr ⟨entry, h, rfl, .refl⟩

theorem LogEvolves.trans {log log' log'' : WriteLog ρ} (h : LogEvolves log log')
    (h' : LogEvolves log' log'') : LogEvolves log log'' where
  epoch_le := Nat.le_trans h.epoch_le h'.epoch_le
  last_le := Nat.le_trans h.last_le h'.last_le
  resolved_le := Nat.le_trans h.resolved_le h'.resolved_le
  compacted_le := Nat.le_trans h.compacted_le h'.compacted_le
  entry i entry hentry := by
    rcases h.entry i entry hentry with hgone | ⟨entry', hentry', hcommand, hmoves⟩
    · exact .inl (Nat.le_trans hgone h'.compacted_le)
    · rcases h'.entry i entry' hentry' with hgone | ⟨entry'', hentry'', hcommand', hmoves'⟩
      · exact .inl hgone
      · exact .inr ⟨entry'', hentry'', hcommand'.trans hcommand, hmoves.trans hmoves'⟩

/-! ## New states -/

variable {digests : Digests ρ} {log : WriteLog ρ} {entries : Table Nat (LogEntry ρ)}

/-- The entries are the same up to their states, and each state stays or moves. -/
def Restates (log : WriteLog ρ) (entries : Table Nat (LogEntry ρ)) : Prop :=
  ∀ i, (log.entries.lookup i = none ∧ entries.lookup i = none) ∨
    ∃ entry state, log.entries.lookup i = some entry ∧
      entries.lookup i = some { entry with state := state } ∧
      (state = entry.state ∨ Moves entry.state state)

theorem Restates.of_some (h : Restates log entries) {i : Nat} {entry' : LogEntry ρ}
    (hentry : entries.lookup i = some entry') :
    ∃ entry, log.entries.lookup i = some entry ∧ entry'.command = entry.command ∧
      (entry'.state = entry.state ∨ Moves entry.state entry'.state) := by
  rcases h i with ⟨-, hnone⟩ | ⟨entry, state, hold, hnew, hmove⟩
  · rw [hnone] at hentry
    cases hentry
  · rw [hnew] at hentry
    cases hentry
    exact ⟨entry, hold, rfl, hmove⟩

theorem LogCore.restate (h : LogCore digests log) (hre : Restates log entries) :
    LogCore digests { log with entries := entries } := by
  -- what is known of the old commands
  have hcases : ∀ {P : Nat → Command ρ → Prop},
      (∀ i entry, log.entries.lookup i = some entry → P i entry.command) →
      ∀ i entry', entries.lookup i = some entry' → P i entry'.command := by
    intro P hold i entry' hentry'
    obtain ⟨entry, hentry, hcommand, -⟩ := hre.of_some hentry'
    rw [hcommand]
    exact hold i entry hentry
  refine
    { h with
      retained := fun i => ?_
      resolved := fun i entry' hentry' hle => ?_
      indexed := hcases (P := fun i command => command.index = i) h.indexed
      valid := hcases (P := fun _ command => command.validate digests = .ok ()) h.valid
      epochs := fun i j entry₁ entry₂ hentry₁ hentry₂ hle => ?_
      epoch_le := hcases (P := fun _ command => command.rangeEpoch ≤ log.currentEpoch) h.epoch_le }
  · rw [← h.retained i]
    rcases hre i with ⟨hold, hnew⟩ | ⟨entry, state, hold, hnew, -⟩ <;> simp [hold, hnew]
  · obtain ⟨entry, hentry, -, hstate | hmove⟩ := hre.of_some hentry'
    · rw [hstate]
      exact h.resolved i entry hentry hle
    · -- a final state would not have moved
      have hfinal := h.resolved i entry hentry hle
      generalize entry.state = state, entry'.state = state' at hmove hfinal
      cases hmove <;> cases hfinal
  · obtain ⟨old₁, hold₁, hcommand₁, -⟩ := hre.of_some hentry₁
    obtain ⟨old₂, hold₂, hcommand₂, -⟩ := hre.of_some hentry₂
    rw [hcommand₁, hcommand₂]
    exact h.epochs i j old₁ old₂ hold₁ hold₂ hle

theorem Restates.evolves (hre : Restates log entries) :
    LogEvolves log { log with entries := entries } := by
  refine { LogEvolves.refl log with entry := fun i entry hentry => ?_ }
  rcases hre i with ⟨hold, -⟩ | ⟨entry', state, hold, hnew, hmove⟩ <;>
    rw [hold] at hentry <;> cases hentry
  refine .inr ⟨_, hnew, rfl, ?_⟩
  rcases hmove with rfl | hmove
  · exact .refl
  · exact .single hmove

theorem restates_setState {index : Nat} {entry : LogEntry ρ} {state : WriteState}
    (hentry : log.entries.lookup index = some entry)
    (hmove : state = entry.state ∨ Moves entry.state state) :
    Restates log (log.setState index state).entries := by
  intro i
  simp only [setState, lookup_modify]
  by_cases hi : i = index
  · subst hi
    exact .inr ⟨entry, state, hentry, by rw [if_pos rfl, hentry]; rfl, hmove⟩
  · rw [if_neg hi]
    cases hold : log.entries.lookup i with
    | none => exact .inl ⟨rfl, rfl⟩
    | some old => exact .inr ⟨old, old.state, rfl, rfl, .inl rfl⟩

theorem restates_abortProvisional (log : WriteLog ρ) :
    Restates log log.abortProvisional.entries := by
  intro i
  simp only [abortProvisional, lookup_mapValues]
  cases hold : log.entries.lookup i with
  | none => exact .inl ⟨rfl, rfl⟩
  | some entry =>
    by_cases hprovisional : entry.state.provisional = true
    · refine .inr ⟨entry, .aborted, rfl, by simp [hprovisional], .inr ?_⟩
      cases hstate : entry.state with
      | prepared => exact .abortPrepared
      | committed => exact .abortCommitted
      | _ => simp [hstate, WriteState.provisional] at hprovisional
    · exact .inr ⟨entry, entry.state, rfl, by simp [hprovisional], .inl rfl⟩

/-! ## The watermarks -/

variable {log' : WriteLog ρ}

/-- Where the loop ends, everything it passed is final and the next index is not. -/
theorem WriteLog.advanceFrom_eq_some {fuel start resolved : Nat}
    (h : log.advanceFrom fuel start = some resolved) (hstart : start ≤ u64Max) :
    start ≤ resolved ∧ (∀ i, start < i → i ≤ resolved → log.resolvedAt i = true) ∧
      log.resolvedAt (satSucc resolved) = false := by
  induction fuel generalizing start with
  | zero => cases h
  | succ fuel ih =>
    rw [advanceFrom] at h
    split_ifs at h with hnext
    · have hle : satSucc start ≤ u64Max := Nat.min_le_right _ _
      obtain ⟨hge, hall, hend⟩ := ih h hle
      have hstep : satSucc start ≤ start + 1 := Nat.min_le_left _ _
      have hup : start ≤ satSucc start := Nat.le_min.2 ⟨Nat.le_succ _, hstart⟩
      refine ⟨Nat.le_trans hup hge, fun i hlt hi => ?_, hend⟩
      rcases Nat.lt_or_ge (satSucc start) i with hbeyond | hwithin
      · exact hall i hbeyond hi
      · -- the index that this round passed
        have heq : i = satSucc start := by omega
        rwa [heq]
    · cases h
      exact ⟨Nat.le_refl _, fun i hlt hi => by omega, by simpa using hnext⟩

/-- The loop goes on for ever only where the largest index is final. -/
theorem WriteLog.advanceFrom_eq_none {fuel start : Nat} (hfuel : u64Max < start + fuel)
    (h : log.advanceFrom fuel start = none) (hstart : start ≤ u64Max) :
    log.resolvedAt u64Max = true := by
  induction fuel generalizing start with
  | zero => omega
  | succ fuel ih =>
    rw [advanceFrom] at h
    split at h
    · rename_i hnext
      rcases Nat.lt_or_ge start u64Max with hlt | hge
      · rw [satSucc_of_lt hlt] at h
        exact ih (by omega) h hlt
      · have hmax : satSucc start = u64Max := by
          unfold satSucc
          omega
        rwa [hmax] at hnext
    · cases h

theorem WriteLog.resolvedAt_eq_true {i : Nat} (h : log.resolvedAt i = true) :
    ∃ entry, log.entries.lookup i = some entry ∧ entry.state.resolved = true := by
  unfold resolvedAt at h
  cases hentry : log.entries.lookup i with
  | none => simp [hentry] at h
  | some entry => exact ⟨entry, rfl, by simpa [hentry] using h⟩

theorem WriteLog.resolvedAt_of_lookup {i : Nat} {entry : LogEntry ρ}
    (h : log.entries.lookup i = some entry) : log.resolvedAt i = entry.state.resolved := by
  simp [resolvedAt, h]

theorem LogCore.last_eq_of_stuck (h : LogCore digests log)
    (hstuck : log.advanceResolved = none) : log.lastIndex = u64Max := by
  have hstart : log.resolvedThrough ≤ u64Max := Nat.le_trans h.resolved_le h.last_le
  have hfinal := advanceFrom_eq_none (by omega) (Option.map_eq_none_iff.1 hstuck) hstart
  obtain ⟨entry, hentry, -⟩ := resolvedAt_eq_true hfinal
  have hretained := (h.retained u64Max).1 (Option.isSome_of_eq_some hentry)
  exact Nat.le_antisymm h.last_le hretained.2

theorem LogCore.advance (h : LogCore digests log) (hadvance : log.advanceResolved = some log') :
    LogOk digests log' ∧ LogEvolves log log' ∧ log'.currentEpoch = log.currentEpoch ∧
      log'.lastIndex = log.lastIndex := by
  obtain ⟨resolved, hloop, rfl⟩ := Option.map_eq_some_iff.1 hadvance
  have hstart : log.resolvedThrough ≤ u64Max := Nat.le_trans h.resolved_le h.last_le
  obtain ⟨hge, hall, hend⟩ := advanceFrom_eq_some hloop hstart
  have hle : resolved ≤ log.lastIndex := by
    rcases Nat.lt_or_ge log.resolvedThrough resolved with hlt | hback
    · obtain ⟨entry, hentry, -⟩ := resolvedAt_eq_true (hall resolved hlt (Nat.le_refl _))
      exact ((h.retained resolved).1 (Option.isSome_of_eq_some hentry)).2
    · exact Nat.le_trans hback h.resolved_le
  refine ⟨⟨{ h with
    compacted_le := Nat.le_trans h.compacted_le hge, resolved_le := hle
    resolved := fun i entry hentry hi => ?_ }, ?_⟩, ?_, rfl, rfl⟩
  · rcases Nat.lt_or_ge log.resolvedThrough i with hlt | hback
    · exact (resolvedAt_of_lookup hentry).symm.trans (hall i hlt hi)
    · exact h.resolved i entry hentry hback
  · -- behind the last index there is no entry, before it the successor does not saturate
    show log.resolvedAt (resolved + 1) = false
    rcases Nat.lt_or_ge resolved u64Max with hlt | hmax
    · rwa [satSucc_of_lt hlt] at hend
    cases hfinal : log.resolvedAt (resolved + 1) with
    | false => rfl
    | true =>
      obtain ⟨entry, hentry, -⟩ := resolvedAt_eq_true hfinal
      have hretained := ((h.retained _).1 (Option.isSome_of_eq_some hentry)).2
      have := h.last_le
      omega
  · exact { LogEvolves.refl log with resolved_le := hge }

/-- Compaction keeps a log in order. -/
theorem LogOk.compact (h : LogOk digests log) :
    LogOk digests log.compactResolved ∧ LogEvolves log log.compactResolved ∧
      log.compactResolved.currentEpoch = log.currentEpoch ∧
      log.compactResolved.lastIndex = log.lastIndex := by
  unfold compactResolved
  dsimp only
  split_ifs with hmove
  · exact ⟨h, .refl log, rfl, rfl⟩
  -- an entry stays exactly where it lies above the new watermark
  have hlookup : ∀ i, AList.lookup i (retain (fun index (entry : LogEntry ρ) =>
      decide (log.resolvedThrough - retainAppliedCommandsPerRange < index) ||
        !entry.state.resolved) log.entries) =
      if log.resolvedThrough - retainAppliedCommandsPerRange < i then log.entries.lookup i
      else none := by
    intro i
    rw [lookup_retain]
    cases hentry : log.entries.lookup i with
    | none => simp
    | some entry =>
      split
      · rename_i hlt
        simp [Option.filter, hlt]
      · rename_i hle
        simp [Option.filter, hle, h.resolved i entry hentry (by omega)]
  generalize retain _ log.entries = entries at hlookup ⊢
  have hold : ∀ i entry, entries.lookup i = some entry → log.entries.lookup i = some entry := by
    intro i entry hentry
    rw [hlookup] at hentry
    split at hentry
    · exact hentry
    · cases hentry
  have hlt := h.resolved_le
  have hmax := h.last_le
  have hretain : retainAppliedCommandsPerRange = 1024 := rfl
  refine ⟨⟨⟨?_, Nat.sub_le _ _, h.resolved_le, h.last_le, fun i => ?_,
    fun i _ hentry => h.resolved i _ (hold i _ hentry),
    fun i _ hentry => h.indexed i _ (hold i _ hentry),
    fun i _ hentry => h.valid i _ (hold i _ hentry),
    fun i j _ _ hentry hentry' => h.epochs i j _ _ (hold i _ hentry) (hold j _ hentry'),
    fun i _ hentry => h.epoch_le i _ (hold i _ hentry)⟩, ?_⟩, ?_, rfl, rfl⟩
  · dsimp only
    omega
  · dsimp only
    rw [hlookup]
    split
    · rename_i hkeep
      rw [h.retained i]
      omega
    · rename_i hgone
      exact ⟨fun hi => (by cases hi), fun hi => absurd hi.1 hgone⟩
  · -- the index behind the resolved ones is above the new watermark
    have hend := h.unresolved
    unfold resolvedAt at hend ⊢
    dsimp only
    rwa [hlookup, if_pos (by omega)]
  · refine ⟨Nat.le_refl _, Nat.le_refl _, Nat.le_refl _, by dsimp only; omega,
      fun i entry hentry => ?_⟩
    rcases Nat.lt_or_ge (log.resolvedThrough - retainAppliedCommandsPerRange) i with hkeep | hgone
    · exact .inr ⟨entry, by rw [hlookup, if_pos hkeep, hentry], rfl, .refl⟩
    · exact .inl hgone

/-! ## New commands -/

variable {command : Command ρ}

theorem LogOk.enterEpoch (h : LogOk digests log) {rangeEpoch : Nat}
    (hle : log.currentEpoch ≤ rangeEpoch) (henter : log.enterEpoch rangeEpoch = some log') :
    LogOk digests log' ∧ LogEvolves log log' ∧ log'.currentEpoch = rangeEpoch ∧
      log'.lastIndex = log.lastIndex := by
  unfold WriteLog.enterEpoch at henter
  split at henter
  · rename_i hlt
    obtain ⟨advanced, hadvanced, rfl⟩ := Option.map_eq_some_iff.1 henter
    have hre := restates_abortProvisional log
    obtain ⟨hok, hevolves, hsame, hlast⟩ := (h.toLogCore.restate hre).advance hadvanced
    refine ⟨{ hok with epoch_le := fun i entry hentry => ?_ },
      { hre.evolves.trans hevolves with epoch_le := hle }, rfl, hlast⟩
    exact (hok.epoch_le i entry hentry).trans (hsame.le.trans hle)
  · rename_i hnot
    cases henter
    exact ⟨h, .refl _, Nat.le_antisymm hle (Nat.le_of_not_lt hnot), rfl⟩

/-- A command at the next index keeps a log in order. -/
theorem LogOk.add (h : LogOk digests log) (hvalid : command.validate digests = .ok ())
    (hindex : command.index = log.lastIndex + 1)
    (hepoch : log.currentEpoch = command.rangeEpoch) :
    LogOk digests (log.add command) ∧ LogEvolves log (log.add command) := by
  have hlookup : ∀ i, (log.add command).entries.lookup i =
      if i = command.index then some ⟨command, .prepared⟩ else log.entries.lookup i :=
    fun i => lookup_insert_eq ..
  have hle := h.resolved_le
  have hcompacted := h.compacted_le
  -- what is known of the old entries, and of the new one
  have hcases : ∀ {P : Nat → LogEntry ρ → Prop}, P command.index ⟨command, .prepared⟩ →
      (∀ i entry, log.entries.lookup i = some entry → P i entry) →
      ∀ i entry, (log.add command).entries.lookup i = some entry → P i entry := by
    intro P hnew hold i entry hentry
    rw [hlookup] at hentry
    split_ifs at hentry with hi
    · cases hentry
      rwa [hi]
    · exact hold i entry hentry
  have hbelow : ∀ i entry, log.entries.lookup i = some entry → i ≤ log.lastIndex :=
    fun i entry hentry => ((h.retained i).1 (Option.isSome_of_eq_some hentry)).2
  refine ⟨⟨⟨h.compacted_lt, hcompacted, ?_, command.index_le, fun i => ?_, ?_, ?_, ?_, ?_, ?_⟩,
    ?_⟩, ⟨Nat.le_refl _, ?_, Nat.le_refl _, Nat.le_refl _, fun i entry hentry => ?_⟩⟩
  · show log.resolvedThrough ≤ command.index
    omega
  · rw [hlookup]
    show _ ↔ log.compactedThrough < i ∧ i ≤ command.index
    split_ifs with hi
    · refine ⟨fun _ => ⟨by omega, by omega⟩, fun _ => rfl⟩
    · rw [h.retained i]
      omega
  · refine hcases (fun hback => ?_) h.resolved
    have hback : command.index ≤ log.resolvedThrough := hback
    omega
  · exact hcases rfl h.indexed
  · exact hcases hvalid h.valid
  · intro i j entry entry' hentry hentry' hij
    rw [hlookup] at hentry hentry'
    split_ifs at hentry with hi
    · split at hentry'
      · cases hentry
        cases hentry'
        exact Nat.le_refl _
      · have := hbelow j entry' hentry'
        omega
    · split at hentry'
      · cases hentry'
        have := h.epoch_le i entry hentry
        show _ ≤ command.rangeEpoch
        omega
      · exact h.epochs i j entry entry' hentry hentry' hij
  · refine hcases ?_ h.epoch_le
    show command.rangeEpoch ≤ log.currentEpoch
    omega
  · show (log.add command).resolvedAt (log.resolvedThrough + 1) = false
    unfold resolvedAt
    rw [hlookup]
    split
    · rfl
    · rename_i entry hsome
      split at hsome
      · cases hsome
        rfl
      · have hend := h.unresolved
        rwa [resolvedAt_of_lookup hsome] at hend
  · show log.lastIndex ≤ command.index
    omega
  · refine .inr ⟨entry, ?_, rfl, .refl⟩
    have := hbelow i entry hentry
    rw [hlookup, if_neg (by omega), hentry]

theorem logOk_blank (digests : Digests ρ) (epoch start : Nat) (hstart : start < u64Max) :
    LogOk digests (⟨epoch, start, start, start, ∅⟩ : WriteLog ρ) where
  compacted_lt := hstart
  compacted_le := Nat.le_refl _
  resolved_le := Nat.le_refl _
  last_le := Nat.le_of_lt hstart
  retained _ := ⟨nofun, fun ⟨hlt, hle⟩ => absurd hlt (Nat.not_lt.2 hle)⟩
  resolved := nofun
  indexed := nofun
  valid := nofun
  epochs := nofun
  epoch_le := nofun
  unresolved := rfl

end BicDb.RangeWrites
