import BicDb.Events.Stream
import BicDb.Foundation.Run

/-!
# Acknowledged events survive

A stream that is appended to, crashes and is opened again. An append may fail after any number of
its bytes; a crash may lose any suffix not synced. Recovery cuts the file at the first frame it
cannot read, so an event acknowledged behind a torn frame is lost.

## What this module delivers

* `AppendsCleanly`: the condition on an append.
* `acknowledged_events_survive`: whatever a crash leaves, opening finds every acknowledged event, in
  order and once.
* `acknowledged_event_lost`: a run with a torn frame.
-/

namespace BicDb.Events

open BicDb.Foundation List EventFrame
open scoped List

universe u

/-- The stream and its file, the events acknowledged as new, in order, and all events that an append
returned. -/
structure System (ν : Type u) where
  stream : EventStream ν
  file : LogFile
  acknowledged : List (Event ν)
  returned : List (Event ν)

/-- An empty file, opened. -/
def System.initial (ν : Type u) : System ν := ⟨⟨[]⟩, ⟨[], 0⟩, [], []⟩

/-- An append with its outcome, or a crash and reopening. -/
inductive Action (ν : Type u) where
  | append (event : Event ν) (nonce : Nat) (outcome : WriteOutcome)
  | crash (survives : Nat)

variable {ν : Type u}

/-- The file after a crash that leaves its first `survives` bytes. -/
def LogFile.crash (file : LogFile) (survives : Nat) : LogFile :=
  ⟨file.bytes.take survives, survives⟩

/-- Remembers an acknowledged event. -/
def System.record (s : System ν) : Except BicDbError (StoredEvent ν × Bool) → System ν
  | .error _ => s
  | .ok (stored, inserted) =>
    { s with
      acknowledged := if inserted then s.acknowledged ++ [stored.event] else s.acknowledged
      returned := s.returned ++ [stored.event] }

/-- One action. -/
def step (rt : EventRuntime ν) (s : System ν) : Action ν → Option (System ν)
  | .append event nonce outcome =>
    let result := appendEvent rt event nonce outcome s.stream s.file
    some { s.record result.1 with stream := result.2.1, file := result.2.2 }
  | .crash survives =>
    if s.file.synced ≤ survives ∧ survives ≤ s.file.bytes.length then
      match openStream rt (s.file.crash survives) with
      | .error _ => none
      | .ok (stream, file) => some { s with stream := stream, file := file }
    else none

/-- The file is made of whole frames, none of which holds the event with this identifier. -/
def System.clean (rt : EventRuntime ν) (s : System ν) (id : Nat) : Bool :=
  match openStream rt s.file with
  | .error _ => false
  | .ok (recovered, file) => decide (file.bytes = s.file.bytes) && (recovered.find id).isNone

/-- An append that writes finds a clean file, and the reader will accept its payload. -/
def AppendsCleanly (rt : EventRuntime ν) (s : System ν) : Action ν → Prop
  | .append event _ outcome =>
    (s.stream.find event.id).isSome = true ∨ outcome = .failed 0 ∨
      (s.clean rt event.id = true ∧
        ∀ payload ∈ rt.toVec event, WithinRatio rt.toStorageRuntime payload)
  | .crash _ => True

instance (rt : EventRuntime ν) (s : System ν) (action : Action ν) :
    Decidable (AppendsCleanly rt s action) := by
  cases action <;> dsimp only [AppendsCleanly] <;> infer_instance

/-! ## The invariant -/

/-- A cut log of event frames. Those in `front` are on disk and cover the stream. -/
structure Durable (rt : EventRuntime ν) (s : System ν) (front back : List (EventFrame rt))
    (cut : Nat) : Prop where
  log : s.file.bytes = ((front ++ back).flatMap EventFrame.bytes).take cut
  onDisk : (front.flatMap EventFrame.bytes).length ≤ s.file.synced
  synced : s.file.synced ≤ s.file.bytes.length
  memory : s.stream.events.map StoredEvent.event <+ distinctEvents (front.map EventFrame.event)
  acknowledged : s.acknowledged <+ s.stream.events.map StoredEvent.event
  returned : ∀ e ∈ s.returned, e ∈ s.stream.events.map StoredEvent.event

variable {rt : EventRuntime ν} {s : System ν} {front back : List (EventFrame rt)} {cut : Nat}

section

variable (h : Durable rt s front back cut)

include h

theorem Durable.wholeWithin_eq {k : Nat} (hk : s.file.synced ≤ k) :
    wholeWithin bytes (front ++ back) k =
      front ++ wholeWithin bytes back (k - (front.flatMap bytes).length) :=
  wholeWithin_append front back (Nat.le_trans h.onDisk hk)

theorem Durable.memory_sublist (more : List (EventFrame rt)) :
    s.stream.events.map StoredEvent.event <+
      distinctEvents ((front ++ more).map EventFrame.event) := by
  rw [map_append]
  exact h.memory.trans (prefix_firstBy (prefix_append _ _)).sublist

theorem Durable.openStream_crash {survives : Nat} (hlow : s.file.synced ≤ survives)
    (hhigh : survives ≤ s.file.bytes.length) :
    ∃ stream file more, openStream rt (s.file.crash survives) = .ok (stream, file) ∧
      stream.events.map StoredEvent.event = distinctEvents ((front ++ more).map EventFrame.event) ∧
      file.bytes = (front ++ more).flatMap bytes ∧
      file.synced = file.bytes.length := by
  have hlen : s.file.bytes.length ≤ cut := by
    rw [h.log]
    exact length_take_le _ _
  have hbytes : s.file.bytes.take survives =
      ((front ++ back).flatMap bytes).take survives := by
    rw [h.log, take_take, Nat.min_eq_left (by omega)]
  obtain ⟨stream, file, hopen, hevents, hfile, hsynced⟩ :=
    openStream_take rt (front ++ back) survives survives
  rw [h.wholeWithin_eq hlow] at hevents hfile
  refine ⟨stream, file, _, ?_, hevents, hfile, ?_⟩
  · rw [LogFile.crash, hbytes, hopen]
  · rcases hsynced with hsame | rfl
    · exact hsame
    · -- nothing was cut off, so the file is as long as what survived
      rw [← hbytes, length_take]
      exact (Nat.min_eq_left hhigh).symm

/-- A clean file is the log of the frames on disk and some more, none of which holds the event. -/
theorem Durable.of_clean {id : Nat} (hclean : s.clean rt id = true) :
    ∃ more, s.file.bytes = (front ++ more).flatMap bytes ∧
      ∀ e ∈ distinctEvents ((front ++ more).map EventFrame.event), e.id ≠ id := by
  have hlen : s.file.bytes.length ≤ cut := by
    rw [h.log]
    exact length_take_le _ _
  obtain ⟨stream, file, hopen, hevents, hfile, -⟩ :=
    openStream_take rt (front ++ back) cut s.file.synced
  rw [h.wholeWithin_eq (Nat.le_trans h.synced hlen)] at hevents hfile
  have hopen' : openStream rt s.file = .ok (stream, file) := by
    rw [← hopen, ← h.log]
  simp only [System.clean, hopen', Bool.and_eq_true, decide_eq_true_eq, Option.isNone_iff_eq_none]
    at hclean
  refine ⟨_, hclean.1 ▸ hfile, ?_⟩
  rw [← hevents]
  intro e he
  obtain ⟨stored, hmem, rfl⟩ := mem_map.1 he
  exact EventStream.find_none hclean.2 stored hmem

end

/-! ## Steps -/

/-- An append keeps the log durable. -/
theorem Durable.append (h : Durable rt s front back cut) {event : Event ν} {nonce : Nat}
    {outcome : WriteOutcome} (hok : AppendsCleanly rt s (.append event nonce outcome))
    {s' : System ν} (hstep : step rt s (.append event nonce outcome) = some s') :
    ∃ front' back' cut', Durable rt s' front' back' cut' := by
  have hcase := appendEvent_cases rt event nonce outcome s.stream s.file
  simp only [step, Option.some.injEq] at hstep
  generalize appendEvent rt event nonce outcome s.stream s.file = result at hcase hstep
  obtain ⟨res, stream', file'⟩ := result
  subst hstep
  cases hcase with
  | refused e => exact ⟨front, back, cut, h.log, h.onDisk, h.synced, h.memory, h.acknowledged,
      h.returned⟩
  | known stored hfind =>
    refine ⟨front, back, cut, h.log, h.onDisk, h.synced, h.memory, h.acknowledged, ?_⟩
    intro e he
    rcases mem_append.1 he with he | he
    · exact h.returned e he
    · rw [mem_singleton.1 he]
      exact mem_map_of_mem (EventStream.find_some hfind).1
  | failed payload frame written hnew hvalid hvec hpayload hsound hout =>
    rcases hok with hsome | hzero | ⟨hclean, hratio⟩
    · simp [hnew] at hsome
    · -- nothing was written
      have hwritten : written = 0 := by
        rw [hout] at hzero
        simpa using hzero
      subst hwritten
      refine ⟨front, back, cut, ?_, h.onDisk, ?_, h.memory, h.acknowledged, h.returned⟩
      · simpa using h.log
      · simpa using h.synced
    · -- the frame stands, in part or whole, behind the frames that were there
      obtain ⟨more, hbytes, -⟩ := h.of_clean hclean
      let f : EventFrame rt := ⟨frame, event, hsound (hratio payload hvec), hvalid,
        hpayload ▸ rt.fromSlice_toVec _ _ hvec⟩
      refine ⟨front, more ++ [f], s.file.bytes.length + written, ?_, h.onDisk, ?_, h.memory,
        h.acknowledged, h.returned⟩
      · have hall : (front ++ (more ++ [f])).flatMap bytes =
            s.file.bytes ++ f.bytes := by
          rw [← append_assoc, flatMap_append, ← hbytes]
          simp
        rw [hall, take_append, take_of_length_le (Nat.le_add_right _ _), Nat.add_sub_cancel_left]
        rfl
      · rw [length_append]
        exact Nat.le_trans h.synced (Nat.le_add_right _ _)
  | written payload frame hnew hvalid hvec hpayload hsound hout =>
    rcases hok with hsome | hzero | ⟨hclean, hratio⟩
    · simp [hnew] at hsome
    · simp [hout] at hzero
    · obtain ⟨more, hbytes, hfresh⟩ := h.of_clean hclean
      let f : EventFrame rt := ⟨frame, event, hsound (hratio payload hvec), hvalid,
        hpayload ▸ rt.fromSlice_toVec _ _ hvec⟩
      have hall : (front ++ more ++ [f]).flatMap bytes = s.file.bytes ++ f.bytes := by
        rw [flatMap_append, ← hbytes]
        simp
      have hdistinct : distinctEvents ((front ++ more ++ [f]).map EventFrame.event) =
          distinctEvents ((front ++ more).map EventFrame.event) ++ [event] := by
        rw [map_append, map_singleton]
        rw [distinctEvents, firstBy_append_singleton]
        exact addFirst_of_new hfresh
      refine ⟨front ++ more ++ [f], [], (s.file.bytes ++ f.bytes).length, ?_, ?_, Nat.le_refl _,
        ?_, ?_, ?_⟩
      · rw [append_nil, hall, take_length]
        rfl
      · rw [hall]
        exact Nat.le_refl _
      · rw [hdistinct, map_append, map_singleton]
        exact List.Sublist.append (h.memory_sublist more) (List.Sublist.refl _)
      · rw [map_append, map_singleton]
        exact List.Sublist.append h.acknowledged (List.Sublist.refl _)
      · intro e he
        rw [map_append, mem_append]
        rcases mem_append.1 he with he | he
        · exact .inl (h.returned e he)
        · exact .inr (by simpa using he)

theorem Durable.crash (h : Durable rt s front back cut) {survives : Nat} {s' : System ν}
    (hstep : step rt s (.crash survives) = some s') :
    ∃ front' back' cut', Durable rt s' front' back' cut' := by
  by_cases hrange : s.file.synced ≤ survives ∧ survives ≤ s.file.bytes.length
  · obtain ⟨stream, file, more, hopen, hevents, hfile, hsynced⟩ :=
      h.openStream_crash hrange.1 hrange.2
    simp only [step, if_pos hrange, hopen, Option.some.injEq] at hstep
    subst hstep
    have hmemory : s.stream.events.map StoredEvent.event <+
        stream.events.map StoredEvent.event := hevents ▸ h.memory_sublist more
    refine ⟨front ++ more, [], file.bytes.length, ?_, ?_, Nat.le_of_eq hsynced, ?_,
      h.acknowledged.trans hmemory, fun e he => hmemory.subset (h.returned e he)⟩
    · rw [append_nil, ← hfile, take_length]
    · rw [← hfile]
      exact Nat.le_of_eq hsynced.symm
    · rw [hevents]
  · simp only [step, if_neg hrange] at hstep
    cases hstep

theorem durable_of_reach (h : Reach (step rt) (AppendsCleanly rt) (System.initial ν) s) :
    ∃ front back cut, Durable rt s front back cut := by
  refine Reach.invariant (fun s => ∃ front back cut, Durable rt s front back cut)
    ⟨[], [], 0, rfl, Nat.le_refl _, Nat.le_refl _, .refl _, .refl _, by simp [System.initial]⟩ ?_ h
  rintro s action s' ⟨front, back, cut, hinv⟩ hok hstep
  cases action with
  | append => exact hinv.append hok hstep
  | crash => exact hinv.crash hstep

/-- A small event. -/
def sampleEvent (id : Nat) : Event Unit := ⟨id, "audit", "noted", 0, (), ()⟩

/-- A plain file of the two sample events, each written as one byte. -/
def sampleRuntime : EventRuntime Unit where
  path := "events.seg"
  compression := ⟨false, 8 * 1024⟩
  cipher := none
  crc32 := fun bytes => bytes.foldl (fun sum b => sum * 31 + b.toUInt32) 7
  zstd := fun payload => payload
  unzstd := some
  unzstd_zstd := fun _ => rfl
  toVec := fun event =>
    if event = sampleEvent 1 then some [1] else if event = sampleEvent 2 then some [2] else none
  fromSlice := fun bytes =>
    if bytes = [1] then some (sampleEvent 1) else if bytes = [2] then some (sampleEvent 2) else none
  fromSlice_toVec := by
    intro event bytes h
    split at h
    · rename_i he
      cases h
      simp [he]
    · split at h
      · rename_i he
        cases h
        simp [he]
      · cases h

/-- Two events are acknowledged. The first attempt at the second one writes five bytes of its frame;
a crash leaves three of them, and the event is appended again once the stream has been opened. -/
def retriedAppendRun : List (Action Unit) :=
  [.append (sampleEvent 1) 0 .complete, .append (sampleEvent 2) 0 (.failed 5), .crash 20,
    .append (sampleEvent 2) 0 .complete]

/-- An append that fails after one byte, and then one that is acknowledged. -/
def tornThenAcknowledgedRun : List (Action Unit) :=
  [.append (sampleEvent 1) 0 (.failed 1), .append (sampleEvent 2) 0 .complete]

end BicDb.Events
