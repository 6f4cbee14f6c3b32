import BicDb.Paged.Mvcc

/-!
# The watermark repair

`advance_transaction_floor` freezes what it can, asks for obstacles, raises the allocator and jumps
the watermark, on a recovered table. `jump_frozen_to` looks at the front of the recovered outcomes
only and never at the spill, `watermark_jump_obstacle` at neither.

The main result, `watermark_repair_keeps_outcomes`, says exactly when the jump keeps every outcome
below the target, when the preflight predicts it, and when a repair that fails has not touched the
allocator. `watermark_repair_flips_aborts` runs the three cases in which they do not.
-/

namespace BicDb.Paged

def TxStatus.debug : TxStatus → String
  | .inProgress => "InProgress"
  | .committed => "Committed"
  | .aborted => "Aborted"

/-- A table with the outcomes that recovery found. -/
structure RecoveredTable extends TransactionTable where
  recovered : List (Nat × TxStatus)

structure TransactionFloorRefused where
  target : Nat
  reason : String
  deriving DecidableEq

namespace RecoveredTable

variable (t : RecoveredTable)

def recoveredStatus (xid : Nat) : Option TxStatus :=
  (t.recovered.find? fun outcome => outcome.1 = xid).map Prod.snd

/-- Lookups: the resident map, the recovered vector, the spill. -/
def view : TransactionTable :=
  { t.toTransactionTable with resident := fun xid => (t.resident xid).or (t.recoveredStatus xid) }

def status (xid : Nat) : TxStatus := t.view.status xid

/-- Raises the next id. -/
def ensureNextXidAtLeast (candidate : Nat) : RecoveredTable :=
  { t with nextXid := max (max t.nextXid candidate) 1 }

/-- The first outcome below the target that is not a commit. -/
def unfrozenBelow (target : Nat) : Option (Nat × TxStatus) :=
  (List.range target).findSome? fun xid =>
    (t.resident xid).bind fun status => if status = .committed then none else some (xid, status)

/-- The checks of `watermark_jump_obstacle` and `jump_frozen_to`. -/
def unfinishedBelow (target : Nat) : Option String :=
  match t.inProgress.find? fun xid => xid < target with
  | some active => some s!"transaction {active} is still in progress below the target"
  | none => (t.unfrozenBelow target).map fun (xid, status) =>
      let status := status.debug
      s!"transaction {xid} below the target holds an unfrozen {status} outcome"

/-- Why the watermark cannot jump. -/
def watermarkJumpObstacle (target : Nat) : Option String :=
  if target ≤ t.frozenXid then none else t.unfinishedBelow target

/-- Moves the watermark to the target. -/
def jumpFrozenTo (target : Nat) : Except TransactionFloorRefused (Nat × RecoveredTable) :=
  if target ≤ t.frozenXid then .ok (t.frozenXid, t)
  else if t.nextXid < target then
    let next := t.nextXid
    .error ⟨target, s!"the allocator has only issued ids below {next}; advance it first"⟩
  else
    match t.unfinishedBelow target with
    | some reason => .error ⟨target, reason⟩
    | none =>
      match t.recovered.head?.filter fun outcome =>
          outcome.1 < target && outcome.2 != .committed with
      | some (xid, _) =>
        .error ⟨target, s!"recovered transaction {xid} below the target is not committed"⟩
      | none => .ok (target, { t with
          resident := fun xid => if target ≤ xid then t.resident xid else none
          recovered := t.recovered.dropWhile fun outcome => outcome.1 < target
          frozenXid := target })

/-- Moves the watermark over one transaction. -/
def passWatermark (exceptions : List Nat) : RecoveredTable :=
  let passed := { t with abortExceptions := exceptions, frozenXid := t.frozenXid + 1 }
  if t.recovered.head?.any fun outcome => outcome.1 = t.frozenXid then
    { passed with recovered := t.recovered.tail }
  else { passed with resident := Function.update t.resident t.frozenXid none }

/-- The loop of `freeze_below`, at most `rounds` rounds. -/
def freezeBelow (oldestActive : Nat) : Nat → RecoveredTable → RecoveredTable
  | 0, t => t
  | rounds + 1, t =>
    if t.frozenXid < oldestActive then
      match t.view.terminalStatus t.frozenXid with
      | some .inProgress => t
      | some .committed => freezeBelow oldestActive rounds (t.passWatermark t.abortExceptions)
      | some .aborted | none =>
        if t.abortExceptionCapacity ≤ t.abortExceptions.length then t
        else freezeBelow oldestActive rounds
          (t.passWatermark (t.abortExceptions.insert t.frozenXid))
    else t

/-- What `advance_transaction_floor` freezes first. -/
def freezeAllocated : RecoveredTable :=
  let oldest := min t.nextXid t.oldestInProgressOrNext
  freezeBelow oldest (oldest - t.frozenXid) t

/-- `advance_transaction_floor`, up to its checkpoint. -/
def advanceTransactionFloor (beyond : Nat) :
    Except TransactionFloorRefused Nat × RecoveredTable :=
  let frozen := t.freezeAllocated
  match frozen.watermarkJumpObstacle beyond with
  | some reason => (.error ⟨beyond, reason⟩, frozen)
  | none =>
    let raised := frozen.ensureNextXidAtLeast beyond
    match raised.jumpFrozenTo beyond with
    | .error refused => (.error refused, raised)
    | .ok (watermark, jumped) => (.ok watermark, jumped)

/-- The front of the recovered outcomes, all that `jump_frozen_to` looks at, does not stop it. -/
def FrontCommitted (target : Nat) : Prop :=
  ∀ outcome ∈ t.recovered.head?, outcome.1 < target → outcome.2 = .committed

/-- Every outcome that lookups find from the watermark up to the target is the one the rule below
the watermark would give: an exception is an abort, anything else a commit. -/
def Agreed (target : Nat) : Prop :=
  ∀ xid status, xid ≠ 0 → t.frozenXid ≤ xid → xid < target →
    t.view.terminalStatus xid = some status → status = t.view.frozenStatus xid

variable {t} {target : Nat}

/-- A jump that succeeds moves nothing, or passes all its checks and moves the watermark alone. -/
theorem jumpFrozenTo_ok {r : Nat × RecoveredTable} (h : t.jumpFrozenTo target = .ok r) :
    r.2.frozenXid = target ∧ r.2.abortExceptions = t.abortExceptions ∨
      target ≤ t.frozenXid ∧ r.2 = t := by
  unfold jumpFrozenTo at h
  split at h
  · cases h
    exact .inr ⟨‹_›, rfl⟩
  split at h
  · cases h
  split at h
  · cases h
  split at h
  · cases h
  · cases h
    exact .inl ⟨rfl, rfl⟩

/-- **When the jump succeeds**: there is nothing to do, or each of the four checks passes. -/
theorem exists_jumpFrozenTo_iff : (∃ r, t.jumpFrozenTo target = .ok r) ↔
    target ≤ t.frozenXid ∨
      target ≤ t.nextXid ∧ t.unfinishedBelow target = none ∧ t.FrontCommitted target := by
  have hfront : t.recovered.head?.filter (fun outcome =>
      outcome.1 < target && outcome.2 != .committed) = none ↔ t.FrontCommitted target := by
    simp [Option.filter_eq_none_iff, FrontCommitted]
  unfold jumpFrozenTo
  by_cases hdone : target ≤ t.frozenXid
  · simp [hdone]
  by_cases hnext : t.nextXid < target
  · simp [hdone, hnext]
  cases hfree : t.unfinishedBelow target with
  | some reason => simp [hdone, hnext]
  | none =>
    simp only [hdone, hnext, if_false, false_or, ← hfront]
    split <;> simp_all

/-- The raise before the jump leaves its other checks as they were. -/
theorem exists_raised_jump_iff :
    (∃ r, (t.ensureNextXidAtLeast target).jumpFrozenTo target = .ok r) ↔
      target ≤ t.frozenXid ∨ t.unfinishedBelow target = none ∧ t.FrontCommitted target := by
  have hnext : target ≤ (t.ensureNextXidAtLeast target).nextXid := by
    simp only [ensureNextXidAtLeast]
    omega
  rw [exists_jumpFrozenTo_iff]
  exact or_congr_right ⟨fun h => h.2, fun h => ⟨hnext, h⟩⟩

/-- Where the watermark moves, the statuses below the target are kept exactly if `Agreed`. -/
theorem statuses_kept_iff {t' : RecoveredTable} (hfrozen : t'.frozenXid = target)
    (hexceptions : t'.abortExceptions = t.abortExceptions) :
    (∀ xid < target, t.view.terminalStatus xid ≠ none → t'.status xid = t.status xid) ↔
      t.Agreed target := by
  have hafter : ∀ xid < target, xid ≠ 0 → t'.status xid = t.view.frozenStatus xid := by
    intro xid hlt hne
    have hbelow : xid < t'.view.frozenXid := hfrozen.symm ▸ hlt
    have hexc : t'.view.abortExceptions = t.view.abortExceptions := hexceptions
    rw [status, TransactionTable.status, if_neg hne, if_pos hbelow, TransactionTable.frozenStatus,
      TransactionTable.frozenStatus, hexc]
  have hbefore : ∀ xid status, xid ≠ 0 → t.frozenXid ≤ xid →
      t.view.terminalStatus xid = some status → t.status xid = status := by
    intro xid status hne hge hs
    have hnot : ¬ xid < t.view.frozenXid := Nat.not_lt.mpr hge
    rw [RecoveredTable.status, TransactionTable.status, if_neg hne, if_neg hnot, hs,
      Option.getD_some]
  constructor
  · intro h xid status hne hge hlt hs
    rw [← hbefore xid status hne hge hs, ← hafter xid hlt hne]
    exact (h xid hlt (by rw [hs]; exact Option.some_ne_none _)).symm
  · intro h xid hlt hrecorded
    by_cases hne : xid = 0
    · simp [status, TransactionTable.status, hne]
    rw [hafter xid hlt hne]
    by_cases hold : xid < t.frozenXid
    · rw [status, TransactionTable.status, if_neg hne,
        if_pos (show xid < t.view.frozenXid from hold)]
    · obtain ⟨status, hs⟩ := Option.ne_none_iff_exists'.mp hrecorded
      rw [hbefore xid status hne (by omega) hs]
      exact (h xid status hne (by omega) hlt hs).symm

theorem nextXid_freezeBelow {oldest : Nat} (rounds : Nat) (t : RecoveredTable) :
    (freezeBelow oldest rounds t).nextXid = t.nextXid := by
  induction rounds generalizing t with
  | zero => rfl
  | succ rounds ih =>
    have hpass : ∀ exceptions,
        (freezeBelow oldest rounds (t.passWatermark exceptions)).nextXid = t.nextXid := by
      intro exceptions
      rw [ih, passWatermark]
      split <;> rfl
    unfold freezeBelow
    repeat' split
    all_goals first | rfl | exact hpass _

/-- A failed repair has raised the allocator exactly where the jump, and not the preflight, refuses
and the target lies beyond the allocator. -/
theorem allocator_kept_iff (t : RecoveredTable) (beyond : Nat) :
    (∀ refused t', t.advanceTransactionFloor beyond = (.error refused, t') →
        t'.nextXid = t.nextXid) ↔
      beyond ≤ t.freezeAllocated.frozenXid ∨ t.freezeAllocated.unfinishedBelow beyond ≠ none ∨
        t.freezeAllocated.FrontCommitted beyond ∨ max beyond 1 ≤ t.nextXid := by
  have hkept : t.freezeAllocated.nextXid = t.nextXid := nextXid_freezeBelow _ t
  have hjump := @exists_raised_jump_iff t.freezeAllocated beyond
  unfold advanceTransactionFloor
  dsimp only
  by_cases hdone : beyond ≤ t.freezeAllocated.frozenXid
  · obtain ⟨r, hr⟩ := hjump.mpr (.inl hdone)
    simp [watermarkJumpObstacle, hdone, hr]
  cases hfree : t.freezeAllocated.unfinishedBelow beyond with
  | some reason => simp [watermarkJumpObstacle, hdone, hfree, hkept]
  | none =>
    by_cases hfront : t.freezeAllocated.FrontCommitted beyond
    · obtain ⟨r, hr⟩ := hjump.mpr (.inr ⟨hfree, hfront⟩)
      simp [watermarkJumpObstacle, hdone, hfree, hr, hfront]
    · -- the jump refuses after the raise, so the allocator is the raised one
      cases hrun : (t.freezeAllocated.ensureNextXidAtLeast beyond).jumpFrozenTo beyond with
      | ok r => exact absurd (hjump.mp ⟨r, hrun⟩) (by simp [hdone, hfront])
      | error refused =>
        have hraised : (t.freezeAllocated.ensureNextXidAtLeast beyond).nextXid =
            max (max t.nextXid beyond) 1 := by
          rw [ensureNextXidAtLeast, hkept]
        simp only [watermarkJumpObstacle, hdone, if_false, hfree, Prod.mk.injEq, hfront, ne_eq,
          not_true, false_or]
        constructor
        · intro h
          have := h refused _ ⟨rfl, rfl⟩
          omega
        · rintro h _ _ ⟨-, rfl⟩
          omega

/-- **When the watermark repair keeps every outcome and never fails half-way.** The jump flips no
outcome exactly if it does not run, or every outcome it passes agrees with the rule below the
watermark; the preflight predicts it exactly if it finds an obstacle itself or the front is
committed; and a repair that fails has not raised the allocator exactly if the same holds of the
table that `freeze_below` leaves, or there was nothing to raise. -/
theorem watermark_repair_keeps_outcomes (t : RecoveredTable) (target : Nat) :
    ((∀ r, t.jumpFrozenTo target = .ok r → ∀ xid < target,
        t.view.terminalStatus xid ≠ none → r.2.status xid = t.status xid) ↔
      target ≤ t.frozenXid ∨ t.nextXid < target ∨ t.unfinishedBelow target ≠ none ∨
        ¬ t.FrontCommitted target ∨ t.Agreed target) ∧
    ((t.watermarkJumpObstacle target = none →
        ∃ r, (t.ensureNextXidAtLeast target).jumpFrozenTo target = .ok r) ↔
      target ≤ t.frozenXid ∨ t.unfinishedBelow target ≠ none ∨ t.FrontCommitted target) ∧
    ((∀ refused t', t.advanceTransactionFloor target = (.error refused, t') →
        t'.nextXid = t.nextXid) ↔
      target ≤ t.freezeAllocated.frozenXid ∨ t.freezeAllocated.unfinishedBelow target ≠ none ∨
        t.freezeAllocated.FrontCommitted target ∨ max target 1 ≤ t.nextXid) := by
  refine ⟨?_, ?_, allocator_kept_iff t target⟩
  · by_cases hdone : target ≤ t.frozenXid
    · refine iff_of_true (fun r hjump => ?_) (.inl hdone)
      rcases jumpFrozenTo_ok hjump with ⟨hfrozen, hexceptions⟩ | ⟨-, hsame⟩
      · exact (statuses_kept_iff hfrozen hexceptions).mpr fun xid status _ hge hlt =>
          absurd hlt (by omega)
      · rw [hsame]
        exact fun xid _ _ => rfl
    by_cases hrun : ∃ r, t.jumpFrozenTo target = .ok r
    · obtain ⟨r, hr⟩ := hrun
      obtain ⟨hnext, hfree, hfront⟩ :=
        (exists_jumpFrozenTo_iff.mp ⟨r, hr⟩).resolve_left hdone
      obtain ⟨hfrozen, hexceptions⟩ :=
        (jumpFrozenTo_ok hr).resolve_right fun h => hdone h.1
      simp only [hr, Except.ok.injEq, forall_eq', statuses_kept_iff hfrozen hexceptions, hdone,
        Nat.not_lt.mpr hnext, hfree, hfront, ne_eq, not_true, false_or]
    · refine iff_of_true (fun r hr => absurd ⟨r, hr⟩ hrun) ?_
      rw [exists_jumpFrozenTo_iff] at hrun
      simp only [not_or, not_and] at hrun
      by_cases hnext : t.nextXid < target
      · exact .inr (.inl hnext)
      by_cases hfree : t.unfinishedBelow target = none
      · exact .inr (.inr (.inr (.inl (hrun.2 (by omega) hfree))))
      · exact .inr (.inr (.inl hfree))
  · rw [exists_raised_jump_iff]
    by_cases hdone : target ≤ t.frozenXid
    · simp [hdone]
    · simp only [watermarkJumpObstacle, hdone, if_false, false_or]
      tauto

/-- Ids 1 to 3 were issued; the log decided 1 and the rest given. -/
def restarted (rest : List (Nat × TxStatus)) (spill : Nat → Option TxStatus) : RecoveredTable :=
  { TransactionTable.withExceptionCapacity 0 with
    nextXid := 4, spill := spill, recovered := (1, .committed) :: rest, openHorizon := 4 }

/-- An abort behind the front, or in the spill, turns into a commit; one at the front is refused too
late. -/
theorem watermark_repair_flips_aborts :
    (∃ r, (restarted [(2, .aborted)] fun _ => none).jumpFrozenTo 4 = .ok r ∧
      (restarted [(2, .aborted)] fun _ => none).status 2 = .aborted ∧ r.2.status 2 = .committed) ∧
    (∃ r, (restarted [] fun xid => if xid = 2 then some .aborted else none).jumpFrozenTo 4 = .ok r ∧
      (restarted [] fun xid => if xid = 2 then some .aborted else none).status 2 = .aborted ∧
      r.2.status 2 = .committed) ∧
    (restarted [(2, .aborted)] fun _ => none).watermarkJumpObstacle 9 = none ∧
    ((restarted [(2, .aborted)] fun _ => none).advanceTransactionFloor 9).1 =
      .error ⟨9, "recovered transaction 2 below the target is not committed"⟩ ∧
    ((restarted [(2, .aborted)] fun _ => none).advanceTransactionFloor 9).2.nextXid = 9 :=
  ⟨⟨_, rfl, by decide, by decide⟩, ⟨_, rfl, by decide, by decide⟩, by decide, by decide, by decide⟩

end RecoveredTable

end BicDb.Paged
