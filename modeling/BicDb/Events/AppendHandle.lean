import BicDb.Events.Frames
import BicDb.Foundation.Run

/-!
# The cached append handle

`AppendHandle` of `storage.rs` with `write_raw`: a batch is appended, and where that fails the file
is cut back. If the cut fails too, the handle refuses every call. A call also returns the file after
each change, so that statements can speak of every moment.

## What this module delivers

* `AppendLog.Holds`: the file is the accepted batches, with a rest behind them only where a repair
  failed.
* `failedWrites_contained`: it holds in every run, and at every moment of every call.
-/

namespace BicDb.Events

open BicDb.Foundation List

/-- The answers of the file system: the bytes in `taken` are written, and a call after them fails
with `failure`. -/
structure Outcomes where
  backupGate : Except String Unit
  metadata : Except String Unit
  taken : List Nat
  failure : String
  syncData : Except String Unit
  setLen : Except String Unit
  syncAll : Except String Unit

/-- The handle of a log file; a failed repair closes it. -/
structure AppendHandle where
  file : Bytes
  syncAfterWrite : Bool
  durable : Bool
  failedRepair : Option String

/-- `write_all`, with the file after each `write`. -/
def writeAll (failure : String) : Bytes → Bytes → List Nat → Except String Unit × List Bytes
  | _, [], _ => (.ok (), [])
  | _, _, [] => (.error failure, [])
  | _, _, 0 :: _ => (.error "failed to write whole buffer", [])
  | file, bytes, n :: taken =>
    (writeAll failure (file ++ bytes.take n) (bytes.drop n) taken).map id
      ((file ++ bytes.take n) :: ·)

/-- Writes all bytes, and syncs where asked to; with the files on the way. -/
def appendAndSync (io : Outcomes) (file bytes : Bytes) (syncAfterWrite : Bool) :
    Except String Unit × List Bytes :=
  (writeAll io.failure file bytes io.taken).map
    (fun written => written >>= fun _ => if syncAfterWrite then io.syncData else .ok ()) id

/-- The `repair` of `write_raw`, with the file it leaves. -/
def repairTail (io : Outcomes) (file : Bytes) (len : Nat) (durable : Bool) :
    Except String Unit × Bytes :=
  match io.setLen with
  | .error e => (.error e, file)
  | .ok () => (if durable then io.syncAll else .ok (), file.take len)

namespace AppendHandle

variable (handle : AppendHandle) (io : Outcomes) (bytes : Bytes)

/-- Refuses after a failed repair. -/
def checkWritable : Except String Unit :=
  match handle.failedRepair with
  | some reason => .error ("append log requires recovery after failed tail repair: " ++ reason)
  | none => .ok ()

/-- `write_raw_with_repair` behind the checks of `write_raw`. -/
def writeRawWithRepair : Except String Unit × AppendHandle × List Bytes :=
  match appendAndSync io handle.file bytes handle.syncAfterWrite with
  | (.ok (), files) => (.ok (), { handle with file := files.getLastD handle.file }, files)
  | (.error writeError, files) =>
    match repairTail io (files.getLastD handle.file) handle.file.length handle.durable with
    | (.ok (), file) => (.error writeError, { handle with file := file }, files ++ [file])
    | (.error repairError, file) =>
      let reason := "append failed: " ++ writeError ++ "; tail repair failed: " ++ repairError
      (.error reason, { handle with file := file, failedRepair := some reason }, files ++ [file])

/-- `write_raw`: append, and on failure cut the file back. -/
def writeRaw : Except String Unit × AppendHandle × List Bytes :=
  match handle.checkWritable with
  | .error e => (.error e, handle, [])
  | .ok () =>
    if bytes = [] then (.ok (), handle, [])
    else match io.backupGate >>= fun _ => io.metadata with
      | .error e => (.error e, handle, [])
      | .ok () => handle.writeRawWithRepair io bytes

end AppendHandle

/-- The file with an initial part of the bytes behind it. -/
def Within (file bytes file' : Bytes) : Prop := file <+: file' ∧ file' <+: file ++ bytes

theorem writeAll_files (failure : String) (file bytes : Bytes) (taken : List Nat) :
    (∀ f ∈ (writeAll failure file bytes taken).2, Within file bytes f) ∧
      ((writeAll failure file bytes taken).1 = .ok () →
        (writeAll failure file bytes taken).2.getLastD file = file ++ bytes) := by
  fun_induction writeAll failure file bytes taken with
  | case1 => simp
  | case2 => simp
  | case3 => simp
  | case4 file bytes n taken hne hn ih =>
    obtain ⟨hfiles, hall⟩ := ih
    rw [append_assoc, take_append_drop] at hall
    refine ⟨forall_mem_cons.2 ⟨⟨prefix_append _ _, ?_⟩, fun f hf => ?_⟩,
      fun hok => (getLastD_cons ..).trans (hall hok)⟩
    · exact (prefix_append_right_inj _).2 <| take_prefix _ _
    · obtain ⟨hstart, hstop⟩ := hfiles f hf
      rw [append_assoc, take_append_drop] at hstop
      exact ⟨(prefix_append _ _).trans hstart, hstop⟩

namespace AppendHandle

variable {handle : AppendHandle}

/-- One call: the batch is in the file, or none of it is, or the repair has failed. -/
theorem writeRaw_spec (h : handle.failedRepair = none) (io : Outcomes) (bytes : Bytes) :
    (∀ f ∈ (handle.writeRaw io bytes).2.2, Within handle.file bytes f) ∧
      Within handle.file bytes (handle.writeRaw io bytes).2.1.file ∧
      match (handle.writeRaw io bytes).1 with
      | .ok () => (handle.writeRaw io bytes).2.1 = { handle with file := handle.file ++ bytes }
      | .error _ => (handle.writeRaw io bytes).2.1 = handle ∨
          (handle.writeRaw io bytes).2.1.failedRepair ≠ none := by
  have hstay : Within handle.file bytes handle.file := ⟨prefix_rfl, prefix_append _ _⟩
  simp only [writeRaw, checkWritable, h]
  split_ifs with hempty
  · subst hempty
    exact ⟨nofun, hstay, by rw [append_nil, ← h]⟩
  split
  · exact ⟨nofun, hstay, .inl rfl⟩
  obtain ⟨hfiles, hall⟩ := writeAll_files io.failure handle.file bytes io.taken
  unfold writeRawWithRepair appendAndSync
  generalize writeAll io.failure handle.file bytes io.taken = appended at *
  obtain ⟨written, files⟩ := appended
  have hlast : Within handle.file bytes (files.getLastD handle.file) := by
    rcases eq_nil_or_concat files with rfl | ⟨init, last, rfl⟩
    · exact hstay
    · simpa using hfiles last (by simp)
  split
  · next heq =>
    obtain ⟨hok, rfl⟩ := Prod.mk.inj heq
    obtain ⟨_, hwritten, -⟩ := bind_eq_ok.1 hok
    exact ⟨hfiles, hlast, by rw [← h, ← hall hwritten]; rfl⟩
  · next heq =>
    obtain ⟨-, rfl⟩ := Prod.mk.inj heq
    have hcut : (files.getLastD handle.file).take handle.file.length = handle.file :=
      (prefix_iff_eq_take.1 hlast.1).symm
    unfold repairTail
    cases io.setLen with
    | error e =>
      exact ⟨forall_mem_append.2 ⟨hfiles, forall_mem_singleton.2 hlast⟩, hlast, .inr nofun⟩
    | ok =>
      simp only [id, hcut]
      have hall := forall_mem_append.2 ⟨hfiles, forall_mem_singleton.2 hstay⟩
      generalize (if handle.durable then io.syncAll else .ok ()) = synced
      cases synced with
      | ok => exact ⟨hall, hstay, .inl rfl⟩
      | error e => exact ⟨hall, hstay, .inr nofun⟩

theorem writeRaw_refused {reason : String} (h : handle.failedRepair = some reason) (io : Outcomes)
    (bytes : Bytes) : handle.writeRaw io bytes =
      (.error ("append log requires recovery after failed tail repair: " ++ reason),
        handle, []) := by
  simp only [writeRaw, checkWritable, h]

end AppendHandle

/-! ## Runs -/

/-- A handle and the batches of the calls that returned. -/
structure AppendLog where
  handle : AppendHandle
  accepted : List Bytes
  failed : List Bytes

namespace AppendLog

/-- A file as it is opened. -/
def opened (file : Bytes) (syncAfterWrite durable : Bool) : AppendLog :=
  ⟨⟨file, syncAfterWrite, durable, none⟩, [], []⟩

/-- One call; accepted batches are remembered. -/
def step (s : AppendLog) (call : Bytes × Outcomes) : Option AppendLog :=
  match s.handle.writeRaw call.2 call.1 with
  | (.ok (), handle, _) => some ⟨handle, s.accepted ++ [call.1], s.failed⟩
  | (.error _, handle, _) => some ⟨handle, s.accepted, s.failed ++ [call.1]⟩

/-- The file is what was accepted, then at most bytes of one failed batch, if its repair failed. -/
def Holds (base : Bytes) (s : AppendLog) : Prop :=
  ∃ tail, s.handle.file = base ++ s.accepted.flatten ++ tail ∧
    (tail = [] ∨ s.handle.failedRepair ≠ none ∧ ∃ batch ∈ s.failed, tail <+: batch)

theorem Holds.file_eq {base : Bytes} {s : AppendLog} (h : s.Holds base)
    (hopen : s.handle.failedRepair = none) : s.handle.file = base ++ s.accepted.flatten := by
  obtain ⟨tail, heq, rfl | ⟨hfailed, -⟩⟩ := h
  · rw [heq, append_nil]
  · exact absurd hopen hfailed

theorem Holds.step {base : Bytes} {s s' : AppendLog} {call : Bytes × Outcomes} (h : s.Holds base)
    (hstep : s.step call = some s') : s'.Holds base := by
  unfold AppendLog.step at hstep
  cases hopen : s.handle.failedRepair with
  | some reason =>
    rw [AppendHandle.writeRaw_refused hopen] at hstep
    cases hstep
    obtain ⟨tail, heq, htail⟩ := h
    exact ⟨tail, heq, htail.imp_right fun ⟨hfailed, batch, hmem, hpre⟩ =>
      ⟨hfailed, batch, mem_append_left _ hmem, hpre⟩⟩
  | none =>
    have hfile := h.file_eq hopen
    obtain ⟨-, hwithin, hafter⟩ := AppendHandle.writeRaw_spec hopen call.2 call.1
    generalize s.handle.writeRaw call.2 call.1 = result at *
    obtain ⟨_ | _, handle, files⟩ := result
    · cases hstep
      rcases hafter with rfl | hfailed
      · exact ⟨[], by simp [hfile], .inl rfl⟩
      · obtain ⟨⟨tail, htail⟩, hstop⟩ := hwithin
        refine ⟨tail, by rw [← htail, hfile], .inr ⟨hfailed, call.1, by simp, ?_⟩⟩
        rw [← htail] at hstop
        exact (prefix_append_right_inj _).1 hstop
    · cases hstep
      cases hafter
      exact ⟨[], by simp [hfile], .inl rfl⟩

/-- **Failed writes are contained.** A rest of a failed batch is in the file only where its repair
failed, and then every call is refused. -/
theorem failedWrites_contained {base : Bytes} {syncAfterWrite durable : Bool} {s : AppendLog}
    (h : Reach AppendLog.step (fun _ _ => True) (opened base syncAfterWrite durable) s) :
    s.Holds base ∧ ∀ io bytes,
      (∀ file ∈ (s.handle.writeRaw io bytes).2.2, Within (base ++ s.accepted.flatten) bytes file) ∧
      ∀ reason, s.handle.failedRepair = some reason → s.handle.writeRaw io bytes = (.error
        ("append log requires recovery after failed tail repair: " ++ reason), s.handle, []) := by
  have hholds : s.Holds base := h.invariant (Holds base) ⟨[], by simp [opened], .inl rfl⟩
    fun _ _ _ hs _ hstep => hs.step hstep
  refine ⟨hholds, fun io bytes =>
    ⟨?_, fun _ hfailed => AppendHandle.writeRaw_refused hfailed io bytes⟩⟩
  cases hopen : s.handle.failedRepair with
  | some reason =>
    rw [AppendHandle.writeRaw_refused hopen]
    exact nofun
  | none =>
    rw [← hholds.file_eq hopen]
    exact (AppendHandle.writeRaw_spec hopen io bytes).1

/-- A batch is accepted, the next one is cut off after a byte, and neither is it repaired. -/
theorem failedWrites_contained_cut :
    ∃ s : AppendLog, s.handle.file = [1, 2, 3] ∧ s.accepted = [[1, 2]] ∧ s.Holds [] := by
  let io : Outcomes := ⟨.ok (), .ok (), [2], "", .ok (), .ok (), .ok ()⟩
  let full : Outcomes := ⟨.ok (), .ok (), [1], "full", .ok (), .error "io", .ok ()⟩
  have hreach : Reach AppendLog.step (fun _ _ => True) (opened [] true true)
      ⟨⟨[1, 2, 3], true, true, some "append failed: full; tail repair failed: io"⟩, [[1, 2]],
        [[3, 4]]⟩ :=
    .next (a := ([3, 4], full)) (.next (a := ([1, 2], io)) .start trivial rfl) trivial rfl
  exact ⟨_, rfl, rfl, (failedWrites_contained hreach).1⟩

end AppendLog

end BicDb.Events
