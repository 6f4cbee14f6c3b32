import BicDb.RangeWrites.Logs

/-!
# The catalog of a store

A catalog is in order (`CatalogOk`) when all its logs are and every fence agrees with its log. A
decision that writes gives a catalog in order that succeeds the one before (`Decision.Sound`) and
passes `verify`.
-/

namespace BicDb.RangeWrites

open BicDb.Foundation List Table

universe u v

variable {ρ : Type u}

/-! ## Catalogs -/

/-- A fence stands at the end of a log that is resolved throughout. -/
structure FenceOk (catalog : Catalog ρ) (rangeId : Nat) (fence : BackupFence) : Prop where
  valid : fence.validate = .ok ()
  range : fence.rangeId = rangeId
  log : ∃ log, catalog.ranges.lookup rangeId = some log ∧
    fence.rangeEpoch = log.currentEpoch ∧ fence.resolvedThrough = log.resolvedThrough ∧
    log.lastIndex = log.resolvedThrough

/-- Every log and fence is sound. -/
structure CatalogOk (digests : Digests ρ) (clusterId nodeId : String) (catalog : Catalog ρ) :
    Prop where
  format : catalog.formatVersion = logFormatVersion
  cluster : catalog.clusterId = clusterId
  node : catalog.nodeId = nodeId
  logs : ∀ rangeId log, catalog.ranges.lookup rangeId = some log → LogOk digests log
  fences : ∀ rangeId fence, catalog.backupFences.lookup rangeId = some fence →
    FenceOk catalog rangeId fence
  fenceCount : catalog.backupFences.entries.length ≤ maxRangeBackupFences

/-- Every log evolves. -/
def CatalogEvolves (catalog catalog' : Catalog ρ) : Prop :=
  ∀ rangeId log, catalog.ranges.lookup rangeId = some log →
    ∃ log', catalog'.ranges.lookup rangeId = some log' ∧ LogEvolves log log'

/-- Where there was a fence, the log ends at its cut, and the fence is the same or gone. -/
def FencesHold (catalog catalog' : Catalog ρ) : Prop :=
  ∀ rangeId fence, catalog.backupFences.lookup rangeId = some fence →
    (catalog'.backupFences.lookup rangeId = some fence ∨
      catalog'.backupFences.lookup rangeId = none) ∧
    ∃ log', catalog'.ranges.lookup rangeId = some log' ∧ log'.lastIndex = fence.resolvedThrough

theorem CatalogEvolves.refl (catalog : Catalog ρ) : CatalogEvolves catalog catalog :=
  fun _ log h => ⟨log, h, .refl log⟩

theorem CatalogEvolves.trans {c c' c'' : Catalog ρ} (h : CatalogEvolves c c')
    (h' : CatalogEvolves c' c'') : CatalogEvolves c c'' := by
  intro rangeId log hlog
  obtain ⟨log', hlog', hevolves⟩ := h rangeId log hlog
  obtain ⟨log'', hlog'', hevolves'⟩ := h' rangeId log' hlog'
  exact ⟨log'', hlog'', hevolves.trans hevolves'⟩

section

variable {digests : Digests ρ} {clusterId nodeId : String} {catalog catalog' : Catalog ρ}

theorem CatalogOk.fencesHold_refl (h : CatalogOk digests clusterId nodeId catalog) :
    FencesHold catalog catalog := by
  intro rangeId fence hfence
  obtain ⟨log, hlog, -, hcut, hlast⟩ := (h.fences rangeId fence hfence).log
  exact ⟨.inl hfence, log, hlog, by rw [hlast, hcut]⟩

/-! ## Verification -/

theorem checkAll_eq_ok {υ : Type v} {check : Nat → υ → Except RangeWriteError Unit}
    {entries : List (Sigma fun _ : Nat => υ)}
    (h : ∀ entry ∈ entries, check entry.1 entry.2 = .ok ()) : checkAll check entries = .ok () := by
  induction entries with
  | nil => rfl
  | cons entry entries ih =>
    rw [checkAll, h entry mem_cons_self]
    exact ih fun e he => h e (mem_cons_of_mem _ he)

variable {log : WriteLog ρ}

theorem LogOk.validateLog (h : LogOk digests log) :
    validateLog digests log = .ok () := by
  have hmarks : ¬ (log.lastIndex < log.resolvedThrough ∨
      log.resolvedThrough < log.compactedThrough) := by
    have := h.resolved_le
    have := h.compacted_le
    omega
  rw [RangeWrites.validateLog, if_neg hmarks]
  refine checkAll_eq_ok ?_
  rintro ⟨i, entry⟩ hmem
  have hentry : log.entries.lookup i = some entry := AList.mem_lookup_iff.2 hmem
  have hrange := (h.retained i).1 (Option.isSome_of_eq_some hentry)
  have hindex := h.indexed i entry hentry
  show validateEntry digests log i entry = .ok ()
  rw [validateEntry, if_neg (by omega)]
  exact h.valid i entry hentry

variable {rangeId : Nat}

theorem FenceOk.validateFence {fence : BackupFence} (h : FenceOk catalog rangeId fence) :
    validateFence catalog rangeId fence = .ok () := by
  obtain ⟨log, hlog, hepoch, hcut, hlast⟩ := h.log
  simp [RangeWrites.validateFence, h.valid, hlog, h.range, hepoch, hcut, hlast]

/-- **A catalog in order is accepted.** -/
theorem CatalogOk.verify (h : CatalogOk digests clusterId nodeId catalog) {checksum : String}
    (hdigest : digests.catalog catalog = some checksum) :
    Envelope.verify digests ⟨catalog, checksum⟩ = .ok catalog := by
  have hlogs : checkAll (fun _ => validateLog digests) catalog.ranges.entries = .ok () :=
    checkAll_eq_ok fun entry hmem =>
      (h.logs entry.1 entry.2 (AList.mem_lookup_iff.2 hmem)).validateLog
  have hfences : checkAll (validateFence catalog) catalog.backupFences.entries = .ok () :=
    checkAll_eq_ok fun entry hmem =>
      (h.fences entry.1 entry.2 (AList.mem_lookup_iff.2 hmem)).validateFence
  have hcount := Nat.not_lt.2 h.fenceCount
  simp [Envelope.verify, hdigest, h.format, hlogs, hfences, hcount]

/-! ## Decisions -/

/-- What is written is sound and evolves. -/
def Decision.Sound {α : Type} (digests : Digests ρ) (clusterId nodeId : String)
    (catalog : Catalog ρ) : Decision ρ α → Prop
  | .refuse _ => True
  | .answer _ => True
  | .write catalog' _ =>
    CatalogOk digests clusterId nodeId catalog' ∧ CatalogEvolves catalog catalog' ∧
      FencesHold catalog catalog'
  | .stuck => ∃ rangeId log, catalog.ranges.lookup rangeId = some log ∧ log.lastIndex = u64Max

theorem lookup_setLog (catalog : Catalog ρ) (rangeId : Nat) (log : WriteLog ρ) (r : Nat) :
    (catalog.setLog rangeId log).ranges.lookup r =
      if r = rangeId then some log else catalog.ranges.lookup r :=
  lookup_insert_eq ..

variable {α : Type}

section

variable (h : CatalogOk digests clusterId nodeId catalog)

include h

/-- A new log for a range; if the range is fenced, of the same epoch and end. -/
theorem CatalogOk.putLog {log' : WriteLog ρ}
    (hok : LogOk digests log')
    (hevolves : ∀ log, catalog.ranges.lookup rangeId = some log → LogEvolves log log')
    (hfenced : ∀ fence log, catalog.backupFences.lookup rangeId = some fence →
      catalog.ranges.lookup rangeId = some log →
      log'.currentEpoch = log.currentEpoch ∧ log'.lastIndex = log.lastIndex) (value : α) :
    Decision.Sound digests clusterId nodeId catalog
      (.write (catalog.setLog rangeId log') value) := by
  refine ⟨⟨h.format, h.cluster, h.node, fun r l hl => ?_, fun r fence hfence => ?_, h.fenceCount⟩,
    fun r l hl => ?_, fun r fence hfence => ⟨.inl hfence, ?_⟩⟩
  · rw [lookup_setLog] at hl
    split at hl
    · cases hl
      exact hok
    · exact h.logs r l hl
  · have hold := h.fences r fence hfence
    refine ⟨hold.valid, hold.range, ?_⟩
    obtain ⟨l, hl, hfenceEpoch, hcut, hend⟩ := hold.log
    rw [lookup_setLog]
    split_ifs with hr
    · subst hr
      obtain ⟨hepoch, hlast⟩ := hfenced fence l hfence hl
      -- the log was resolved to its end, and the end is the same
      have hge := (hevolves l hl).resolved_le
      have hle := hok.resolved_le
      exact ⟨log', rfl, by rw [hepoch, hfenceEpoch], by omega, by omega⟩
    · exact ⟨l, hl, hfenceEpoch, hcut, hend⟩
  · rw [lookup_setLog]
    split_ifs with hr
    · subst hr
      exact ⟨log', rfl, hevolves l hl⟩
    · exact ⟨l, hl, .refl l⟩
  · obtain ⟨l, hl, -, hcut, hend⟩ := (h.fences r fence hfence).log
    rw [lookup_setLog]
    split_ifs with hr
    · subst hr
      exact ⟨log', rfl, by rw [(hfenced fence l hfence hl).2, hend, hcut]⟩
    · exact ⟨l, hl, by rw [hend, hcut]⟩

theorem CatalogOk.setLog {log' : WriteLog ρ}
    (hlog : catalog.ranges.lookup rangeId = some log) (hok : LogOk digests log')
    (hevolves : LogEvolves log log') (hepoch : log'.currentEpoch = log.currentEpoch)
    (hlast : log'.lastIndex = log.lastIndex) (value : α) :
    Decision.Sound digests clusterId nodeId catalog
      (.write (catalog.setLog rangeId log') value) := by
  refine h.putLog hok (fun l hl => ?_) (fun _ l _ hl => ?_) value
  all_goals cases hlog.symm.trans hl
  · exact hevolves
  · exact ⟨hepoch, hlast⟩

/-! ### Prepare -/

variable {command : Command ρ}

omit h in
theorem Command.index_ne_zero (h : command.validate digests = .ok ()) :
    command.index ≠ 0 := by
  intro hzero
  unfold Command.validate at h
  split at h
  · cases h
  · rw [if_pos (.inr (.inl hzero))] at h
    cases h

theorem CatalogOk.prepareInto
    (hvalid : command.validate digests = .ok ())
    (hfree : catalog.backupFences.lookup command.rangeId = none) (hok : LogOk digests log)
    (hindex : command.index = log.lastIndex + 1) (hepoch : log.currentEpoch ≤ command.rangeEpoch)
    (hlog : ∀ l, catalog.ranges.lookup command.rangeId = some l → l = log) :
    (prepareInto catalog command log).Sound digests clusterId nodeId catalog := by
  unfold RangeWrites.prepareInto
  cases henter : log.enterEpoch command.rangeEpoch with
  | none =>
    unfold WriteLog.enterEpoch at henter
    split at henter
    · -- the loop stands at the largest index, and the command would be behind it
      have hlast := (hok.toLogCore.restate (restates_abortProvisional log)).last_eq_of_stuck
        (Option.map_eq_none_iff.1 henter)
      have hend : log.lastIndex = u64Max := hlast
      have := command.index_le
      omega
    · cases henter
  | some entered =>
    obtain ⟨hentered, hevolves, hepoch', hlast⟩ := hok.enterEpoch hepoch henter
    obtain ⟨hadded, hevolves'⟩ := hentered.add hvalid (by omega) hepoch'
    refine h.putLog hadded (fun l hl => ?_)
      (fun _ _ hfence => absurd (hfree.symm.trans hfence) nofun) _
    rw [hlog l hl]
    exact hevolves.trans hevolves'

/-- Preparing is sound. -/
theorem CatalogOk.prepare (command : Command ρ) :
    (prepare digests command catalog).Sound digests clusterId nodeId catalog := by
  unfold RangeWrites.prepare
  cases hvalid : command.validate digests with
  | error e => trivial
  | ok _ =>
    dsimp only
    split
    · trivial
    have hpos := Command.index_ne_zero hvalid
    cases hfence : catalog.backupFences.lookup command.rangeId with
    | none =>
      dsimp only
      cases hlog : catalog.ranges.lookup command.rangeId with
      | none =>
        have hmax := command.index_le
        have hlast : command.index = command.newLog.lastIndex + 1 := by
          show command.index = command.index - 1 + 1
          omega
        refine h.prepareInto hvalid hfence (logOk_blank digests _ _ (by omega)) hlast
          (Nat.le_refl _) fun l hl => ?_
        rw [hlog] at hl
        cases hl
      | some log =>
        have hok := h.logs _ log hlog
        dsimp only
        split
        · trivial
        rename_i hepoch
        split
        · trivial
        rename_i hcompacted
        cases hentry : log.entries.lookup command.index with
        | some =>
          dsimp only
          split <;> trivial
        | none =>
          split_ifs with hnext
          · trivial
          -- nothing is stored at the index, so the log does not end at the largest
          have hlt : log.lastIndex < u64Max := by
            by_contra hge
            have hlast := hok.last_le
            have hmin : satSucc log.lastIndex = u64Max := by
              unfold satSucc
              omega
            have hretained := (hok.retained command.index).2 ⟨by omega, by omega⟩
            rw [hentry] at hretained
            cases hretained
          have hindex : command.index = log.lastIndex + 1 := by
            rw [← satSucc_of_lt hlt]
            exact not_not.1 hnext
          exact h.prepareInto hvalid hfence hok hindex (Nat.le_of_not_lt hepoch)
            fun l hl => Option.some.inj (hl.symm.trans hlog)
    | some fence =>
      dsimp only
      split_ifs with hbelow
      · trivial
      -- the cut is the end of the log: whatever the index, nothing is added
      obtain ⟨log, hlog, -, hcut, hend⟩ := (h.fences _ fence hfence).log
      have hok := h.logs _ log hlog
      simp only [hlog]
      split
      · trivial
      split
      · trivial
      · rename_i hcompacted
        have hretained := (hok.retained command.index).2 ⟨by omega, by omega⟩
        obtain ⟨existing, hentry⟩ := Option.isSome_iff_exists.1 hretained
        simp only [hentry]
        split <;> trivial

end

/-! ### Decisions about a command -/

variable {entry : LogEntry ρ}

theorem matchEntry_eq_ok (h : matchEntry digests command catalog = .ok (log, entry)) :
    catalog.ranges.lookup command.rangeId = some log ∧
      log.entries.lookup command.index = some entry := by
  unfold matchEntry at h
  split at h
  · cases h
  split at h
  · cases h
  rename_i hlog
  split at h
  · cases h
  rename_i hentry
  split_ifs at h
  cases h
  exact ⟨hlog, hentry⟩

section

variable (h : CatalogOk digests clusterId nodeId catalog)

include h

theorem CatalogOk.setState {index : Nat} {state : WriteState}
    (hlog : catalog.ranges.lookup rangeId = some log)
    (hentry : log.entries.lookup index = some entry) (hmove : Moves entry.state state)
    (hopen : state.resolved = false) (value : α) : Decision.Sound digests clusterId nodeId catalog
      (.write (catalog.setLog rangeId (log.setState index state)) value) := by
  have hok := h.logs rangeId log hlog
  have hre := restates_setState hentry (.inr hmove)
  refine h.setLog hlog ⟨hok.toLogCore.restate hre, ?_⟩ hre.evolves rfl rfl value
  show (log.setState index state).resolvedAt (log.resolvedThrough + 1) = false
  unfold WriteLog.resolvedAt WriteLog.setState
  rw [lookup_modify]
  by_cases hi : log.resolvedThrough + 1 = index
  · rwa [if_pos hi, hi, hentry]
  · rw [if_neg hi]
    exact hok.unresolved

theorem CatalogOk.resolveEntry {state : WriteState}
    (hlog : catalog.ranges.lookup command.rangeId = some log)
    (hentry : log.entries.lookup command.index = some entry)
    (hmove : state = entry.state ∨ Moves entry.state state) (value : α) :
    (resolveEntry catalog command log state value).Sound digests clusterId nodeId catalog := by
  have hok := h.logs command.rangeId log hlog
  have hre := restates_setState hentry hmove
  have hcore := hok.toLogCore.restate hre
  unfold RangeWrites.resolveEntry
  cases hadvance : (log.setState command.index state).advanceResolved with
  | none => exact ⟨command.rangeId, log, hlog, hcore.last_eq_of_stuck hadvance⟩
  | some =>
    obtain ⟨hadvanced, hevolves, hepoch, hlast⟩ := hcore.advance hadvance
    obtain ⟨hcompact, hevolves', hepoch', hlast'⟩ := hadvanced.compact
    exact h.setLog hlog hcompact ((hre.evolves.trans hevolves).trans hevolves')
      (hepoch'.trans hepoch) (hlast'.trans hlast) value

variable (command : Command ρ)

omit h in
theorem sound_of_matchEntry {decision : WriteLog ρ → LogEntry ρ → Decision ρ α}
    (hsound : ∀ {log entry}, catalog.ranges.lookup command.rangeId = some log →
      log.entries.lookup command.index = some entry →
      (decision log entry).Sound digests clusterId nodeId catalog) :
    Decision.Sound digests clusterId nodeId catalog
      (match matchEntry digests command catalog with
      | .error e => .refuse e
      | .ok (log, entry) => decision log entry) := by
  cases hmatch : matchEntry digests command catalog with
  | error => trivial
  | ok found => exact hsound (matchEntry_eq_ok hmatch).1 (matchEntry_eq_ok hmatch).2

theorem CatalogOk.commit :
    (commit digests command catalog).Sound digests clusterId nodeId catalog := by
  refine sound_of_matchEntry command fun {log entry} hlog hentry => ?_
  cases hstate : entry.state with
  | prepared => exact h.setState hlog hentry (by rw [hstate]; exact .commit) rfl _
  | _ => trivial

theorem CatalogOk.certify :
    (certify digests command catalog).Sound digests clusterId nodeId catalog := by
  refine sound_of_matchEntry command fun {log entry} hlog hentry => ?_
  cases hstate : entry.state with
  | committed => exact h.setState hlog hentry (by rw [hstate]; exact .certify) rfl _
  | _ => trivial

theorem CatalogOk.markApplied :
    (markApplied digests command catalog).Sound digests clusterId nodeId catalog := by
  refine sound_of_matchEntry command fun {log entry} hlog hentry => ?_
  cases hstate : entry.state with
  | quorumCommitted => exact h.resolveEntry hlog hentry (by rw [hstate]; exact .inr .apply) _
  | applied => exact h.resolveEntry hlog hentry (.inl hstate.symm) _
  | _ => trivial

theorem CatalogOk.abort :
    (abort digests command catalog).Sound digests clusterId nodeId catalog := by
  refine sound_of_matchEntry command fun {log entry} hlog hentry => ?_
  cases hstate : entry.state with
  | prepared => exact h.resolveEntry hlog hentry (by rw [hstate]; exact .inr .abortPrepared) _
  | committed => exact h.resolveEntry hlog hentry (by rw [hstate]; exact .inr .abortCommitted) _
  | _ => trivial

end

/-! ### Fences -/

variable (h : CatalogOk digests clusterId nodeId catalog)

include h

/-- A new fence is sound where all is resolved. -/
theorem CatalogOk.installFence {candidate : BackupFence} (hvalid : candidate.validate = .ok ())
    (hfree : catalog.backupFences.lookup candidate.rangeId = none)
    (hroom : catalog.backupFences.entries.length < maxRangeBackupFences)
    (hlog : ∀ log, catalog.ranges.lookup candidate.rangeId = some log →
      log.currentEpoch ≤ candidate.rangeEpoch ∧ log.lastIndex = log.resolvedThrough) :
    (installFence candidate catalog).Sound digests clusterId nodeId catalog := by
  -- the log that the fence finds
  set found := catalog.logForFence candidate.rangeId candidate.rangeEpoch with hfound
  obtain ⟨hok, hend, hevolves⟩ : LogOk digests found ∧ found.lastIndex = found.resolvedThrough ∧
      ∀ log, catalog.ranges.lookup candidate.rangeId = some log → LogEvolves log found := by
    rw [hfound, Catalog.logForFence]
    cases hl : catalog.ranges.lookup candidate.rangeId with
    | none =>
      exact ⟨logOk_blank digests candidate.rangeEpoch 0 (by decide), rfl, nofun⟩
    | some log =>
      obtain ⟨hepoch, hend⟩ := hlog log hl
      have hok := h.logs _ log hl
      refine ⟨{ hok with
        epoch_le := fun i entry hentry => Nat.le_trans (hok.epoch_le i entry hentry) hepoch },
        hend, ?_⟩
      rintro _ ⟨⟩
      exact { LogEvolves.refl log with epoch_le := hepoch }
  have hset : Decision.Sound digests clusterId nodeId catalog
      (.write (catalog.setLog candidate.rangeId found) ()) :=
    h.putLog hok hevolves (fun _ _ hfence => absurd (hfree.symm.trans hfence) nofun) ()
  obtain ⟨hokset, hevolvesset, hholdset⟩ := hset
  refine ⟨⟨h.format, h.cluster, h.node, hokset.logs, fun r fence hfence => ?_, ?_⟩, hevolvesset,
    fun r fence hfence => ⟨.inl ?_, (hholdset r fence hfence).2⟩⟩
  · have hfence := (lookup_insert_eq _ _ _ _).symm.trans hfence
    split_ifs at hfence with hr
    · cases hfence
      refine ⟨hvalid, hr.symm, _, ?_, rfl, rfl, hend⟩
      exact (lookup_setLog ..).trans (if_pos hr)
    · exact { hokset.fences r fence hfence with }
  · show (catalog.backupFences.insert candidate.rangeId _).entries.length ≤ _
    rw [AList.entries_insert]
    have hlen := (kerase_sublist candidate.rangeId catalog.backupFences.entries).length_le
    rw [length_cons]
    omega
  · refine (lookup_insert_eq ..).trans (Eq.trans (if_neg ?_) hfence)
    rintro rfl
    cases hfree.symm.trans hfence

theorem CatalogOk.installBackupFence (planId rangeId rangeEpoch installedAtMs expiresAtMs : Nat) :
    (installBackupFence planId rangeId rangeEpoch installedAtMs expiresAtMs catalog).Sound
      digests clusterId nodeId catalog := by
  unfold RangeWrites.installBackupFence
  dsimp only
  split
  · trivial
  rename_i hvalid
  split
  · trivial
  split
  · split <;> trivial
  · rename_i hfree
    split_ifs with hroom
    · trivial
    split
    · rename_i hnone
      refine h.installFence hvalid hfree (Nat.lt_of_not_le hroom) fun log hlog => ?_
      rw [hnone] at hlog
      cases hlog
    · rename_i log hlog
      split
      · trivial
      rename_i hepoch
      split_ifs with hend
      · trivial
      refine h.installFence hvalid hfree (Nat.lt_of_not_le hroom) fun log' hlog' => ?_
      cases hlog.symm.trans hlog'
      exact ⟨Nat.le_of_not_lt hepoch, not_not.1 hend⟩

theorem CatalogOk.dropFences {fences : Table Nat BackupFence}
    (hsub : ∀ r, fences.lookup r = catalog.backupFences.lookup r ∨ fences.lookup r = none)
    (hlen : fences.entries.length ≤ catalog.backupFences.entries.length) (value : α) :
    Decision.Sound digests clusterId nodeId catalog
      (.write { catalog with backupFences := fences } value) := by
  refine ⟨⟨h.format, h.cluster, h.node, h.logs, fun r fence hfence => ?_,
    Nat.le_trans hlen h.fenceCount⟩, .refl catalog, fun r fence hfence => ⟨?_, ?_⟩⟩
  · have hfence : fences.lookup r = some fence := hfence
    rcases hsub r with hsame | hnone
    · exact { h.fences r fence (hsame.symm.trans hfence) with }
    · rw [hnone] at hfence
      cases hfence
  · rcases hsub r with hsame | hnone
    · exact .inl (hsame.trans hfence)
    · exact .inr hnone
  · exact (h.fencesHold_refl r fence hfence).2

theorem CatalogOk.releaseBackupFence (planId rangeId rangeEpoch : Nat) :
    (releaseBackupFence planId rangeId rangeEpoch catalog).Sound digests clusterId nodeId
      catalog := by
  unfold RangeWrites.releaseBackupFence
  split
  · trivial
  split
  · trivial
  · split
    · trivial
    · refine h.dropFences (fun r => ?_) (kerase_sublist _ _).length_le _
      rw [lookup_erase_eq]
      split
      · exact .inr rfl
      · exact .inl rfl

theorem CatalogOk.releaseExpiredBackupFences (nowMs : Nat) :
    (releaseExpiredBackupFences nowMs catalog).Sound digests clusterId nodeId catalog := by
  unfold RangeWrites.releaseExpiredBackupFences
  dsimp only
  split
  · trivial
  refine h.dropFences (fun r => ?_) (length_filter_le _ _) _
  rw [lookup_retain]
  cases hfence : catalog.backupFences.lookup r with
  | none => exact .inl rfl
  | some fence =>
    by_cases hlive : nowMs < fence.expiresAtMs
    · exact .inl (Option.filter_some_pos (decide_eq_true hlive))
    · exact .inr (Option.filter_some_neg (decide_eq_false hlive))

end

end BicDb.RangeWrites
