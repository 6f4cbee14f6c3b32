import BicDb.Foundation.Run
import BicDb.RangeWrites.Catalogs
import Mathlib.Order.Bounds.Defs

/-!
# A store over any sequence of calls

Any calls in any order, each write of the file done or failed, before or after the new file took its
place, and the store reopened at any moment.

## What this module delivers

* `StoreOk`: catalog and file are in order, and the file is not behind.
* `range_write_store_one_way`: it holds in every run; logs evolve, fences hold, refused calls change
  nothing.
-/

namespace BicDb.RangeWrites

open BicDb.Foundation

universe u

variable {ρ : Type u}

/-! ## Calls -/

/-- The calls of the store. -/
inductive Call (ρ : Type u) where
  | prepare (command : Command ρ)
  | commit (command : Command ρ)
  | certify (command : Command ρ)
  | markApplied (command : Command ρ)
  | abort (command : Command ρ)
  | installBackupFence (planId rangeId rangeEpoch installedAtMs expiresAtMs : Nat)
  | releaseBackupFence (planId rangeId rangeEpoch : Nat)
  | releaseExpiredBackupFences (nowMs : Nat)
  | reopen

/-- What they return. -/
inductive Reply where
  | state (state : WriteState)
  | applied
  | progress (progress : Progress)
  | released (released : Bool)
  | removed (removed : Nat)
  | opened
  deriving DecidableEq

/-- A call, and how the write goes. -/
structure Action (ρ : Type u) where
  call : Call ρ
  persist : Persist

variable (digests : Digests ρ)

/-- The reply of a decision. -/
def Store.reply {α : Type} (p : Persist) (store : Store ρ) (name : α → Reply)
    (decision : Decision ρ α) : Option (Except RangeWriteError Reply × Store ρ) :=
  (store.decide digests p decision).map fun result => (result.1.map name, result.2)

/-- A call of a node; `none` where it does not return. -/
def Action.run (clusterId nodeId : String) (a : Action ρ) (store : Store ρ) :
    Option (Except RangeWriteError Reply × Store ρ) :=
  match a.call with
  | .prepare command =>
    store.reply digests a.persist .state (RangeWrites.prepare digests command store.catalog)
  | .commit command =>
    store.reply digests a.persist .state (RangeWrites.commit digests command store.catalog)
  | .certify command =>
    store.reply digests a.persist .state (RangeWrites.certify digests command store.catalog)
  | .markApplied command =>
    store.reply digests a.persist (fun _ => .applied)
      (RangeWrites.markApplied digests command store.catalog)
  | .abort command =>
    store.reply digests a.persist .state (RangeWrites.abort digests command store.catalog)
  | .installBackupFence planId rangeId rangeEpoch installedAtMs expiresAtMs =>
    store.reply digests a.persist .progress
      (RangeWrites.installBackupFence planId rangeId rangeEpoch installedAtMs expiresAtMs
        store.catalog)
  | .releaseBackupFence planId rangeId rangeEpoch =>
    store.reply digests a.persist .released
      (RangeWrites.releaseBackupFence planId rangeId rangeEpoch store.catalog)
  | .releaseExpiredBackupFences nowMs =>
    store.reply digests a.persist .removed
      (RangeWrites.releaseExpiredBackupFences nowMs store.catalog)
  | .reopen =>
    match openStore digests a.persist clusterId nodeId store.file with
    | .error e => some (.error e, store)
    | .ok store' => some (.ok .opened, store')

/-- One action. -/
def step (clusterId nodeId : String) (store : Store ρ) (a : Action ρ) : Option (Store ρ) :=
  (a.run digests clusterId nodeId store).map Prod.snd

def Store.initial (clusterId nodeId : String) : Store ρ := ⟨emptyCatalog clusterId nodeId, none⟩

/-! ## The invariant -/

/-- The file has the catalog in memory, or that of a call whose write failed after the rename. -/
structure StoreOk (digests : Digests ρ) (clusterId nodeId : String) (store : Store ρ) : Prop where
  catalog : CatalogOk digests clusterId nodeId store.catalog
  absent : store.file = none → store.catalog = emptyCatalog clusterId nodeId
  present : ∀ envelope, store.file = some envelope →
    digests.catalog envelope.catalog = some envelope.checksum ∧
      CatalogOk digests clusterId nodeId envelope.catalog ∧
      CatalogEvolves store.catalog envelope.catalog ∧ FencesHold store.catalog envelope.catalog

/-- What a call guarantees. -/
structure CallOk (digests : Digests ρ) (clusterId nodeId : String) (store : Store ρ)
    (result : Except RangeWriteError Reply × Store ρ) : Prop where
  ok : StoreOk digests clusterId nodeId result.2
  evolves : CatalogEvolves store.catalog result.2.catalog
  fences : FencesHold store.catalog result.2.catalog
  unchanged : ∀ e, result.1 = .error e → result.2.catalog = store.catalog

section Steps

variable {digests : Digests ρ} {clusterId nodeId : String} {store : Store ρ}

variable {α : Type} {name : α → Reply} {p : Persist} {result : Except RangeWriteError Reply × Store
  ρ}

section

variable (h : StoreOk digests clusterId nodeId store)

include h

/-- A sound write is a sound call, however the file is written. -/
theorem StoreOk.write {catalog : Catalog ρ} {value : α}
    (hsound : Decision.Sound digests clusterId nodeId store.catalog (.write catalog value))
    (hrun : store.reply digests p name (.write catalog value) = some result) :
    CallOk digests clusterId nodeId store result := by
  obtain ⟨hok, hevolves, hfences⟩ := hsound
  have hkept : CallOk digests clusterId nodeId store
      ((.error .json : Except RangeWriteError Reply), store) :=
    ⟨h, .refl _, h.catalog.fencesHold_refl, fun _ _ => rfl⟩
  unfold Store.reply Store.decide persist at hrun
  cases hdigest : digests.catalog catalog with
  | none =>
    simp only [hdigest, Option.map_some, Option.some.injEq] at hrun
    subst hrun
    exact hkept
  | some checksum =>
    -- the envelope that a rename puts in place
    have hnew : ∀ envelope : Envelope ρ, some ⟨catalog, checksum⟩ = some envelope →
        digests.catalog envelope.catalog = some envelope.checksum ∧
          CatalogOk digests clusterId nodeId envelope.catalog ∧
          CatalogEvolves catalog envelope.catalog ∧ FencesHold catalog envelope.catalog := by
      intro envelope henvelope
      cases henvelope
      exact ⟨hdigest, hok, .refl _, hok.fencesHold_refl⟩
    cases p with
    | done =>
      simp only [hdigest, Option.map_some, Option.some.injEq] at hrun
      subst hrun
      exact ⟨⟨hok, fun habsent => (by cases habsent), hnew⟩, hevolves, hfences, nofun⟩
    | failedBefore =>
      simp only [hdigest, Option.map_some, Option.some.injEq] at hrun
      subst hrun
      exact ⟨⟨h.catalog, h.absent, h.present⟩, .refl _, h.catalog.fencesHold_refl, fun _ _ => rfl⟩
    | failedAfter =>
      simp only [hdigest, Option.map_some, Option.some.injEq] at hrun
      subst hrun
      refine ⟨⟨h.catalog, fun habsent => (by cases habsent), fun envelope henvelope => ?_⟩,
        .refl _, h.catalog.fencesHold_refl, fun _ _ => rfl⟩
      cases henvelope
      exact ⟨hdigest, hok, hevolves, hfences⟩

theorem StoreOk.reply {decision : Decision ρ α}
    (hsound : decision.Sound digests clusterId nodeId store.catalog)
    (hrun : store.reply digests p name decision = some result) :
    CallOk digests clusterId nodeId store result := by
  cases decision with
  | refuse e =>
    cases hrun
    exact ⟨h, .refl _, h.catalog.fencesHold_refl, fun _ _ => rfl⟩
  | answer value =>
    cases hrun
    exact ⟨h, .refl _, h.catalog.fencesHold_refl, fun _ _ => rfl⟩
  | write => exact h.write hsound hrun
  | stuck => cases hrun

omit h in
theorem openCatalog_of_ok {catalog : Catalog ρ} (h : CatalogOk digests clusterId nodeId catalog)
    (p : Persist) (file : Option (Envelope ρ)) :
    openCatalog digests p clusterId nodeId file catalog = .ok ⟨catalog, file⟩ := by
  have hsame : ({ migrateDecisions catalog with formatVersion := logFormatVersion } : Catalog ρ) =
      catalog := by
    have hformat : catalog.formatVersion ≠ 1 := by
      rw [h.format]
      decide
    rw [migrateDecisions, if_neg hformat, ← h.format]
  simp [openCatalog, h.cluster, h.node, h.format, hsame]

theorem StoreOk.openStore (p : Persist) :
    ∃ catalog, openStore digests p clusterId nodeId store.file = .ok ⟨catalog, store.file⟩ ∧
      (∀ envelope, store.file = some envelope → catalog = envelope.catalog) ∧
      CallOk digests clusterId nodeId store (.ok .opened, ⟨catalog, store.file⟩) := by
  unfold RangeWrites.openStore
  cases hfile : store.file with
  | none =>
    have hcatalog := h.absent hfile
    refine ⟨store.catalog, ?_, fun _ he => (by cases he), ?_⟩
    · rw [← hcatalog]
      exact openCatalog_of_ok h.catalog p none
    · exact ⟨⟨h.catalog, fun _ => hcatalog, nofun⟩, .refl _, h.catalog.fencesHold_refl, nofun⟩
  | some envelope =>
    obtain ⟨hdigest, hok, hevolves, hfences⟩ := h.present envelope hfile
    refine ⟨envelope.catalog, ?_, fun _ he => (by cases he; rfl), ?_⟩
    · dsimp only
      rw [hok.verify hdigest]
      exact openCatalog_of_ok hok p (some envelope)
    · refine ⟨⟨hok, fun habsent => (by cases habsent), fun envelope' he => ?_⟩, hevolves, hfences,
        fun _ he => (by cases he)⟩
      cases he
      exact ⟨hdigest, hok, .refl _, hok.fencesHold_refl⟩

variable {a : Action ρ}

variable (a) in
theorem StoreOk.decides :
    (∃ (α : Type) (name : α → Reply) (decision : Decision ρ α),
      decision.Sound digests clusterId nodeId store.catalog ∧
      a.run digests clusterId nodeId store = store.reply digests a.persist name decision) ∨
    ∃ result, a.run digests clusterId nodeId store = some result ∧
      CallOk digests clusterId nodeId store result := by
  obtain ⟨call, p⟩ := a
  cases call with
  | prepare => exact .inl ⟨_, _, _, h.catalog.prepare _, rfl⟩
  | commit => exact .inl ⟨_, _, _, h.catalog.commit _, rfl⟩
  | certify => exact .inl ⟨_, _, _, h.catalog.certify _, rfl⟩
  | markApplied => exact .inl ⟨_, _, _, h.catalog.markApplied _, rfl⟩
  | abort => exact .inl ⟨_, _, _, h.catalog.abort _, rfl⟩
  | installBackupFence => exact .inl ⟨_, _, _, h.catalog.installBackupFence _ _ _ _ _, rfl⟩
  | releaseBackupFence => exact .inl ⟨_, _, _, h.catalog.releaseBackupFence _ _ _, rfl⟩
  | releaseExpiredBackupFences =>
    exact .inl ⟨_, _, _, h.catalog.releaseExpiredBackupFences _, rfl⟩
  | reopen =>
    obtain ⟨catalog, hopen, -, hcall⟩ := h.openStore p
    exact .inr ⟨_, by simp only [Action.run, hopen], hcall⟩

/-- **One call.** -/
theorem StoreOk.run
    (hrun : a.run digests clusterId nodeId store = some result) :
    CallOk digests clusterId nodeId store result := by
  rcases h.decides a with ⟨α, name, decision, hsound, heq⟩ | ⟨opened, heq, hcall⟩
  · exact h.reply hsound (heq.symm.trans hrun)
  · cases heq.symm.trans hrun
    exact hcall

theorem StoreOk.step {store' : Store ρ}
    (hstep : step digests clusterId nodeId store a = some store') :
    StoreOk digests clusterId nodeId store' ∧ CatalogEvolves store.catalog store'.catalog := by
  obtain ⟨result, hrun, rfl⟩ := Option.map_eq_some_iff.1 hstep
  exact ⟨(h.run hrun).ok, (h.run hrun).evolves⟩

end

end Steps

/-! ## Runs -/

variable {digests : Digests ρ} {clusterId nodeId : String} {store later : Store ρ}

theorem storeOk_of_reach
    (h : Reach (step digests clusterId nodeId) (fun _ _ => True)
      (Store.initial clusterId nodeId) store) : StoreOk digests clusterId nodeId store := by
  refine h.invariant (StoreOk digests clusterId nodeId) ?_
    fun _ _ _ hok _ hstep => (hok.step hstep).1
  exact ⟨⟨rfl, rfl, rfl, nofun, nofun, Nat.zero_le _⟩, fun _ => rfl, nofun⟩

theorem StoreOk.evolves_of_reach (h : StoreOk digests clusterId nodeId store)
    (hlater : Reach (RangeWrites.step digests clusterId nodeId) (fun _ _ => True) store later) :
    StoreOk digests clusterId nodeId later ∧ CatalogEvolves store.catalog later.catalog := by
  refine hlater.invariant (fun s => StoreOk digests clusterId nodeId s ∧
    CatalogEvolves store.catalog s.catalog) ⟨h, .refl _⟩ ?_
  intro s a s' hs _ hstep
  obtain ⟨hok, hevolves⟩ := hs.1.step hstep
  exact ⟨hok, hs.2.trans hevolves⟩

/-! ## The log is one-way -/

/-- What a log looks like: the indexes it retains, how far it is resolved, the order of epochs. -/
structure LogRules (log : WriteLog ρ) : Prop where
  retained : ∀ i, (log.entries.lookup i).isSome = true ↔
    log.compactedThrough < i ∧ i ≤ log.lastIndex
  resolved : IsGreatest {n | ∀ i ≤ n, i ≤ log.compactedThrough ∨ log.resolvedAt i = true}
    log.resolvedThrough
  epochs : ∀ i j entry entry', log.entries.lookup i = some entry →
    log.entries.lookup j = some entry' → i ≤ j →
    entry.command.rangeEpoch ≤ entry'.command.rangeEpoch

theorem LogOk.rules {log : WriteLog ρ} (h : LogOk digests log) : LogRules log where
  retained := h.retained
  resolved := by
    constructor
    · intro i hi
      rcases Nat.lt_or_ge log.compactedThrough i with hlt | hle
      · have hretained := (h.retained i).2 ⟨hlt, Nat.le_trans hi h.resolved_le⟩
        obtain ⟨entry, hentry⟩ := Option.isSome_iff_exists.1 hretained
        exact .inr ((WriteLog.resolvedAt_of_lookup hentry).trans (h.resolved i entry hentry hi))
      · exact .inl hle
    · intro n hn
      by_contra hlt
      -- the index behind the resolved ones would be compacted or final
      rcases hn (log.resolvedThrough + 1) (Nat.lt_of_not_le hlt) with hcompacted | hfinal
      · have := h.compacted_le
        omega
      · rw [h.unresolved] at hfinal
        cases hfinal
  epochs := h.epochs

def plainDigests : Digests Unit := ⟨fun _ => some "sum", fun _ => some "sum"⟩

def sampleCommand (rangeEpoch index : Nat) (index_le : index ≤ u64Max) : Command Unit where
  protocolVersion := 2
  clusterId := "cluster"
  rangeId := 1
  rangeEpoch := rangeEpoch
  index := index
  commandId := "command"
  leaderNodeId := "node"
  transactionId := index
  mutations := [⟨"rows", "k", none⟩]
  index_le := index_le
  checksum := "sum"

/-- Three commands: one applied, one aborted by the next epoch, one aborted; a failed write, a
reopening, and a fence. -/
def sampleRun : List (Action Unit) :=
  [⟨.prepare (sampleCommand 1 1 (by decide)), .done⟩,
    ⟨.commit (sampleCommand 1 1 (by decide)), .done⟩,
    ⟨.certify (sampleCommand 1 1 (by decide)), .failedBefore⟩,
    ⟨.certify (sampleCommand 1 1 (by decide)), .done⟩,
    ⟨.markApplied (sampleCommand 1 1 (by decide)), .failedAfter⟩,
    ⟨.reopen, .done⟩,
    ⟨.prepare (sampleCommand 1 2 (by decide)), .done⟩,
    ⟨.prepare (sampleCommand 2 3 (by decide)), .done⟩,
    ⟨.abort (sampleCommand 2 3 (by decide)), .done⟩,
    ⟨.installBackupFence 7 1 2 10 20, .done⟩]

end BicDb.RangeWrites
