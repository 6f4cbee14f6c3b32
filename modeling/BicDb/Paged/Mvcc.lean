import Mathlib.Data.List.Range

/-!
# Transactions and snapshots

The transaction table of `mvcc.rs`, opened on a new store: a finished transaction keeps its outcome
in the resident map, in the spill of a checkpoint, or below the watermark `frozen_xid`, where
everything committed but for the exceptions. Maps are functions, `in_progress` is an ascending list,
the spill always answers.
-/

namespace BicDb.Paged


/-- The outcomes of a transaction. -/
inductive TxStatus where
  | inProgress
  | committed
  | aborted
  deriving DecidableEq

/-- What a reader takes for finished. -/
structure Snapshot where
  xid : Nat
  xmax : Nat
  inFlight : List Nat
  deriving DecidableEq

/-- Finished when the snapshot was taken. -/
def Snapshot.beganBefore (s : Snapshot) (xid : Nat) : Bool :=
  decide (xid < s.xmax) && !decide (xid ∈ s.inFlight)

/-- The transactions: resident outcomes, the spill, and the watermark with its exceptions. -/
structure TransactionTable where
  nextXid : Nat
  resident : Nat → Option TxStatus
  inProgress : List Nat
  frozenXid : Nat
  abortExceptions : List Nat
  abortExceptionCapacity : Nat
  spill : Nat → Option TxStatus
  openHorizon : Nat

namespace TransactionTable

/-- `with_exception_capacity`, sealed by `open`. -/
def withExceptionCapacity (capacity : Nat) : TransactionTable where
  nextXid := 1
  resident := fun _ => none
  inProgress := []
  frozenXid := 1
  abortExceptions := []
  abortExceptionCapacity := capacity
  spill := fun _ => none
  openHorizon := 1

variable (t : TransactionTable)

/-- The snapshot comes first. -/
def begin : (Nat × Snapshot) × TransactionTable :=
  let xid := t.nextXid
  ((xid, ⟨xid, xid, t.inProgress⟩), { t with
      nextXid := xid + 1
      resident := Function.update t.resident xid (some .inProgress)
      inProgress := t.inProgress ++ [xid] })

/-- A snapshot that is of no transaction. -/
def latestSnapshot : Snapshot := ⟨0, t.nextXid, t.inProgress⟩

/-- Records a commit. -/
def commit (xid : Nat) : TransactionTable :=
  { t with
    resident := Function.update t.resident xid (some .committed)
    inProgress := t.inProgress.filter (fun x => decide (x ≠ xid)) }

/-- A recorded commit wins. -/
def abort (xid : Nat) : TransactionTable :=
  if t.resident xid = some .committed then t
  else
    { t with
      resident := Function.update t.resident xid (some .aborted)
      inProgress := t.inProgress.filter (fun x => decide (x ≠ xid)) }

/-- The resident outcome, or the spill's. -/
def terminalStatus (xid : Nat) : Option TxStatus :=
  (t.resident xid).or (t.spill xid)

/-- What holds below the watermark. -/
def frozenStatus (xid : Nat) : TxStatus :=
  if xid ∈ t.abortExceptions then .aborted else .committed

/-- The outcome of a transaction; the unknown below the open horizon aborted. -/
def status (xid : Nat) : TxStatus :=
  if xid = 0 then .committed
  else if xid < t.frozenXid then t.frozenStatus xid
  else (t.terminalStatus xid).getD (if xid < t.openHorizon then .aborted else .inProgress)

def oldestInProgressOrNext : Nat := t.inProgress.head?.getD t.nextXid

/-- Moves the watermark over one transaction. -/
def passWatermark (exceptions : List Nat) : TransactionTable :=
  { t with
    resident := Function.update t.resident t.frozenXid none
    abortExceptions := exceptions
    frozenXid := t.frozenXid + 1 }

/-- The loop of `freeze_below_bounded`, to the first running transaction or until the exceptions are
full. -/
def freezeBelowBounded (oldestActive : Nat) : Nat → TransactionTable → TransactionTable
  | 0, t => t
  | maxXids + 1, t =>
    if t.frozenXid < oldestActive then
      match t.terminalStatus t.frozenXid with
      | some .inProgress => t
      | some .committed =>
        freezeBelowBounded oldestActive maxXids (t.passWatermark t.abortExceptions)
      | some .aborted | none =>
        if t.abortExceptionCapacity ≤ t.abortExceptions.length then t
        else freezeBelowBounded oldestActive maxXids
          (t.passWatermark (t.frozenXid :: t.abortExceptions))
    else t

/-- Outcomes move to the spill, without those below the watermark. -/
def persistStatusSpill : TransactionTable :=
  { t with
    resident := fun x => if t.resident x = some .inProgress then some .inProgress else none
    spill := fun x =>
      match t.resident x with
      | some .committed => some .committed
      | some .aborted => some .aborted
      | some .inProgress => none
      | none => if t.frozenXid ≤ x then t.spill x else none }

/-- Whether what a transaction wrote is visible. -/
def xidVisible (xid : Nat) (snapshot : Snapshot) : Bool :=
  decide (xid = 0) || decide (xid = snapshot.xid) ||
    snapshot.beganBefore xid && decide (t.status xid = .committed)

/-- Neither visible to the snapshot nor aborted. -/
def isConcurrent (xid : Nat) (snapshot : Snapshot) : Bool :=
  if xid = 0 ∨ xid = snapshot.xid then false
  else if t.status xid = .aborted then false
  else !snapshot.beganBefore xid || decide (t.status xid = .inProgress)

end TransactionTable

/-! ## Tables in order -/

/-- Ids are issued in order, and every finished one has an outcome. -/
structure TableOk (t : TransactionTable) : Prop where
  horizon : t.openHorizon ≤ t.frozenXid
  positive : 0 < t.frozenXid
  frozen_le : t.frozenXid ≤ t.nextXid
  sorted : t.inProgress.Pairwise (· < ·)
  running : ∀ x, x ∈ t.inProgress ↔ t.resident x = some .inProgress
  issued : ∀ x s, t.resident x = some s → t.frozenXid ≤ x ∧ x < t.nextXid
  spilled : ∀ x s, t.spill x = some s → s ≠ .inProgress ∧ x < t.nextXid
  decided : ∀ x, t.frozenXid ≤ x → x < t.nextXid → t.terminalStatus x ≠ none
  exceptions : ∀ x ∈ t.abortExceptions, x < t.frozenXid

namespace TableOk

open TransactionTable List

variable {t : TransactionTable}

theorem new (capacity : Nat) : TableOk (withExceptionCapacity capacity) := by
  constructor <;> simp [withExceptionCapacity]
  intro x hx hlt
  omega

variable {x : Nat}

section

variable (h : TableOk t)

include h

theorem of_running (hx : x ∈ t.inProgress) :
    t.resident x = some .inProgress ∧ t.frozenXid ≤ x ∧ x < t.nextXid :=
  have hres := (h.running x).mp hx
  ⟨hres, h.issued x _ hres⟩

theorem status_running (hx : x ∈ t.inProgress) : t.status x = .inProgress := by
  obtain ⟨hres, hfrozen, -⟩ := h.of_running hx
  have hpos := h.positive
  simp [status, terminalStatus, hres, show ¬ x < t.frozenXid by omega, show x ≠ 0 by omega]

theorem status_unissued (hx : t.nextXid ≤ x) : t.status x = .inProgress := by
  have hfrozen := h.frozen_le
  have hpos := h.positive
  have hhorizon := h.horizon
  have hres : t.resident x = none := by
    by_contra hne
    obtain ⟨s, hs⟩ := Option.ne_none_iff_exists'.mp hne
    have hlt := (h.issued x s hs).2
    omega
  have hspill : t.spill x = none := by
    by_contra hne
    obtain ⟨s, hs⟩ := Option.ne_none_iff_exists'.mp hne
    have hlt := (h.spilled x s hs).2
    omega
  simp [status, terminalStatus, hres, hspill, show ¬ x < t.frozenXid by omega,
    show x ≠ 0 by omega, show ¬ x < t.openHorizon by omega]

theorem oldest_le (hx : x ∈ t.inProgress) : t.oldestInProgressOrNext ≤ x := by
  unfold oldestInProgressOrNext
  have hsorted := h.sorted
  cases hp : t.inProgress with
  | nil => simp [hp] at hx
  | cons y ys =>
    rw [hp, pairwise_cons] at hsorted
    rw [hp, mem_cons] at hx
    rcases hx with rfl | hx
    · exact le_rfl
    · exact (hsorted.1 x hx).le

theorem oldest_le_next : t.oldestInProgressOrNext ≤ t.nextXid := by
  unfold oldestInProgressOrNext
  cases hp : t.inProgress with
  | nil => exact le_rfl
  | cons y ys => exact (h.of_running (by simp [hp])).2.2.le

end

theorem mem_begin (t : TransactionTable) (x : Nat) :
    x ∈ (begin t).2.inProgress ↔ x ∈ t.inProgress ∨ x = t.nextXid := by
  simp [begin]

/-! ### Operations keep the table in order -/

variable (h : TableOk t)

include h

theorem begin_ok : TableOk (begin t).2 := by
  have hfrozen := h.frozen_le
  refine ⟨h.horizon, h.positive, ?_, ?_, ?_, ?_, ?_, ?_, h.exceptions⟩
  · show t.frozenXid ≤ t.nextXid + 1
    omega
  · show (t.inProgress ++ [t.nextXid]).Pairwise (· < ·)
    rw [pairwise_append]
    refine ⟨h.sorted, pairwise_singleton _ _, ?_⟩
    intro x hx y hy
    rw [mem_singleton] at hy
    exact hy ▸ (h.of_running hx).2.2
  · intro x
    by_cases hx : x = t.nextXid
    · simp [begin, hx]
    · simp [begin, hx, h.running]
  · intro x s hs
    show t.frozenXid ≤ x ∧ x < t.nextXid + 1
    by_cases hx : x = t.nextXid
    · omega
    · have hs' : t.resident x = some s := by simpa [begin, hx] using hs
      have hissued := h.issued x s hs'
      omega
  · intro x s hs
    have hspilled := h.spilled x s hs
    exact ⟨hspilled.1, Nat.lt_succ_of_lt hspilled.2⟩
  · intro x hfx hlt
    have hlt' : x < t.nextXid + 1 := hlt
    by_cases hx : x = t.nextXid
    · simp [terminalStatus, begin, hx]
    · simpa [terminalStatus, begin, hx] using h.decided x hfx (by omega)

section

variable (hx : x ∈ t.inProgress)

include hx

theorem finish_ok {s : TxStatus} (hs : s ≠ .inProgress) : TableOk { t with
      resident := Function.update t.resident x (some s)
      inProgress := t.inProgress.filter (fun y => decide (y ≠ x)) } := by
  obtain ⟨hres, hfrozen, hlt⟩ := h.of_running hx
  refine ⟨h.horizon, h.positive, h.frozen_le, ?_, ?_, ?_, h.spilled, ?_, h.exceptions⟩
  · exact h.sorted.sublist filter_sublist
  · intro y
    by_cases hy : y = x
    · simp [hy, hs]
    · simp [hy, h.running]
  · intro y s' hs'
    by_cases hy : y = x
    · subst hy
      exact ⟨hfrozen, hlt⟩
    · exact h.issued y s' (by simpa [hy] using hs')
  · intro y hfy hly
    by_cases hy : y = x
    · simp [terminalStatus, hy]
    · simpa [terminalStatus, hy] using h.decided y hfy hly

theorem commit_ok : TableOk (t.commit x) :=
  h.finish_ok hx (by simp)

theorem abort_eq : t.abort x = { t with
      resident := Function.update t.resident x (some .aborted)
      inProgress := t.inProgress.filter (fun y => decide (y ≠ x)) } := by
  simp [abort, (h.of_running hx).1]

theorem abort_ok : TableOk (t.abort x) := by
  rw [h.abort_eq hx]
  exact h.finish_ok hx (by simp)

end

theorem passWatermark_ok {exceptions : List Nat} (hlt : t.frozenXid < t.nextXid)
    (hres : t.resident t.frozenXid ≠ some .inProgress) (hexc : ∀ x ∈ exceptions, x ≤ t.frozenXid) :
    TableOk (t.passWatermark exceptions) := by
  refine ⟨?_, Nat.succ_pos _, hlt, h.sorted, ?_, ?_, h.spilled, ?_, ?_⟩
  · exact h.horizon.trans (Nat.le_succ _)
  · intro x
    by_cases hx : x = t.frozenXid
    · simp [passWatermark, hx, h.running, hres]
    · simp [passWatermark, hx, h.running]
  · intro x s hs
    show t.frozenXid + 1 ≤ x ∧ x < t.nextXid
    by_cases hx : x = t.frozenXid
    · simp [passWatermark, hx] at hs
    · have hissued := h.issued x s (by simpa [passWatermark, hx] using hs)
      omega
  · intro x hfx hlx
    have hfx' : t.frozenXid + 1 ≤ x := hfx
    simpa [passWatermark, terminalStatus, show x ≠ t.frozenXid by omega] using
      h.decided x (by omega) hlx
  · exact fun x hx => Nat.lt_succ_of_le (hexc x hx)

theorem persistStatusSpill_ok : TableOk t.persistStatusSpill := by
  refine ⟨h.horizon, h.positive, h.frozen_le, h.sorted, ?_, ?_, ?_, ?_, h.exceptions⟩
  · intro x
    simp [persistStatusSpill, h.running]
  · intro x s hs
    by_cases hx : t.resident x = some .inProgress
    · exact h.issued x _ hx
    · simp [persistStatusSpill, hx] at hs
  · intro x s hs
    simp only [persistStatusSpill] at hs
    split at hs
    · next hr =>
        cases hs
        exact ⟨by simp, (h.issued x _ hr).2⟩
    · next hr =>
        cases hs
        exact ⟨by simp, (h.issued x _ hr).2⟩
    · cases hs
    · split at hs
      · exact h.spilled x s hs
      · cases hs
  · intro x hfx hlx
    have hdecided := h.decided x hfx hlx
    have hfx' : t.frozenXid ≤ x := hfx
    cases hr : t.resident x with
    | none => simpa [terminalStatus, persistStatusSpill, hr, hfx'] using hdecided
    | some s => cases s <;> simp [terminalStatus, persistStatusSpill, hr]

end TableOk

/-! ## What operations do to statuses -/

namespace TransactionTable

variable {t : TransactionTable}

theorem status_begin (h : TableOk t) (x : Nat) : (begin t).2.status x = t.status x := by
  by_cases hx : x = t.nextXid
  · have hold := h.status_unissued hx.ge
    rw [hold, h.begin_ok.status_running]
    rw [TableOk.mem_begin]
    exact .inr hx
  · have hterm : (begin t).2.terminalStatus x = t.terminalStatus x := by
      simp [terminalStatus, begin, hx]
    unfold status
    rewrite [hterm]
    rfl

variable {x : Nat}

theorem status_finish (h : TableOk t) (hx : x ∈ t.inProgress) (s : TxStatus) (running : List Nat)
    (y : Nat) :
    ({ t with
        resident := Function.update t.resident x (some s)
        inProgress := running } : TransactionTable).status y =
      if y = x then s else t.status y := by
  obtain ⟨-, hfrozen, -⟩ := h.of_running hx
  have hpos := h.positive
  by_cases hy : y = x
  · simp [status, terminalStatus, hy, show x ≠ 0 by omega, show ¬ x < t.frozenXid by omega]
  · simp [status, frozenStatus, terminalStatus, hy]

theorem status_commit (h : TableOk t) (hx : x ∈ t.inProgress) (y : Nat) :
    (t.commit x).status y = if y = x then .committed else t.status y :=
  status_finish h hx _ _ y

theorem status_abort (h : TableOk t) (hx : x ∈ t.inProgress) (y : Nat) :
    (t.abort x).status y = if y = x then .aborted else t.status y := by
  rw [h.abort_eq hx]
  exact status_finish h hx _ _ y

theorem status_passWatermark {exceptions : List Nat} {s : TxStatus}
    (hs : t.terminalStatus t.frozenXid = some s)
    (hexc : ∀ x, x < t.frozenXid → (x ∈ exceptions ↔ x ∈ t.abortExceptions))
    (hnew : s = if t.frozenXid ∈ exceptions then .aborted else .committed) (x : Nat) :
    (t.passWatermark exceptions).status x = t.status x := by
  unfold status
  split
  · rfl
  rcases Nat.lt_trichotomy x t.frozenXid with hlt | heq | hgt
  · have hlt' : x < (t.passWatermark exceptions).frozenXid := Nat.lt_succ_of_lt hlt
    rw [if_pos hlt, if_pos hlt', frozenStatus, frozenStatus]
    exact if_congr (hexc x hlt) rfl rfl
  · subst heq
    have hlt' : t.frozenXid < (t.passWatermark exceptions).frozenXid := Nat.lt_succ_self _
    rw [if_pos hlt', if_neg (lt_irrefl _), hs]
    exact hnew.symm
  · have hge : ¬ x < (t.passWatermark exceptions).frozenXid := by
      show ¬ x < t.frozenXid + 1
      omega
    have hterm : (t.passWatermark exceptions).terminalStatus x = t.terminalStatus x := by
      simp [passWatermark, terminalStatus, show x ≠ t.frozenXid by omega]
    rewrite [if_neg hge, if_neg (show ¬ x < t.frozenXid by omega), hterm]
    rfl

theorem status_persistStatusSpill (x : Nat) : t.persistStatusSpill.status x = t.status x := by
  unfold status
  split
  · rfl
  split
  · next hlt =>
      rw [if_pos (show x < t.frozenXid from hlt)]
      rfl
  · next hge =>
      have hge' : ¬ x < t.frozenXid := hge
      rw [if_neg hge']
      have hterm : t.persistStatusSpill.terminalStatus x = t.terminalStatus x := by
        cases hr : t.resident x with
        | none => simp [terminalStatus, persistStatusSpill, hr, show t.frozenXid ≤ x by omega]
        | some s => cases s <;> simp [terminalStatus, persistStatusSpill, hr]
      rewrite [hterm]
      rfl

theorem freezeBelowBounded_spec {oldestActive : Nat} (maxXids : Nat) (h : TableOk t)
    (hold : oldestActive ≤ t.nextXid) :
    let t' := freezeBelowBounded oldestActive maxXids t
    TableOk t' ∧ t'.nextXid = t.nextXid ∧ t'.inProgress = t.inProgress ∧
      ∀ x, t'.status x = t.status x := by
  induction maxXids generalizing t with
  | zero => exact ⟨h, rfl, rfl, fun _ => rfl⟩
  | succ maxXids ih =>
    have hstay : TableOk t ∧ t.nextXid = t.nextXid ∧ t.inProgress = t.inProgress ∧
        ∀ x, t.status x = t.status x := ⟨h, rfl, rfl, fun _ => rfl⟩
    simp only [freezeBelowBounded]
    split
    swap
    · exact hstay
    next hlt =>
      have hexceptions := h.exceptions
      have hrest : ∀ exceptions s, t.terminalStatus t.frozenXid = some s → s ≠ .inProgress →
          (∀ x ∈ exceptions, x ≤ t.frozenXid) →
          (∀ x, x < t.frozenXid → (x ∈ exceptions ↔ x ∈ t.abortExceptions)) →
          (s = if t.frozenXid ∈ exceptions then .aborted else .committed) →
          let t' := freezeBelowBounded oldestActive maxXids (t.passWatermark exceptions)
          TableOk t' ∧ t'.nextXid = t.nextXid ∧ t'.inProgress = t.inProgress ∧
            ∀ x, t'.status x = t.status x := by
        intro exceptions s hs hne hle hexc hnew
        have hres : t.resident t.frozenXid ≠ some .inProgress := by
          intro hr
          simp [terminalStatus, hr] at hs
          exact hne hs.symm
        have hok : TableOk (t.passWatermark exceptions) :=
          h.passWatermark_ok (by omega) hres hle
        obtain ⟨hok', hnext, hrun, hstatus⟩ := ih hok hold
        refine ⟨hok', hnext, hrun, fun x => ?_⟩
        rw [hstatus, status_passWatermark hs hexc hnew]
      split
      · exact hstay
      · next hs =>
          have hnot : t.frozenXid ∉ t.abortExceptions := fun hx =>
            lt_irrefl _ (hexceptions _ hx)
          exact hrest _ _ hs (by simp) (fun x hx => (hexceptions x hx).le) (by simp)
            (by simp [hnot])
      · next hs =>
          split
          · exact hstay
          refine hrest _ _ hs (by simp) ?_ ?_ (by simp)
          · intro x hx
            rcases List.mem_cons.mp hx with rfl | hx
            · exact le_rfl
            · exact (hexceptions x hx).le
          · intro x hx
            simp [show x ≠ t.frozenXid by omega]
      · next hs => exact absurd hs (h.decided _ le_rfl (by omega))

end TransactionTable

end BicDb.Paged
