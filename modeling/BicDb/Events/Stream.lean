import BicDb.Events.Frames
import BicDb.Foundation.FirstBy

/-!
# The event stream

`EventStream` of `event.rs` over one segment file: `open` reads the file and cuts it behind the last
frame it can read, `append_event` writes one frame and then remembers the event. The JSON encoder
stands in `EventRuntime` with its round trip.
-/

namespace BicDb.Events

open BicDb.Foundation List

universe u

/-- The identifier is the number of the 128-bit UUID. -/
structure Event (ν : Type u) where
  id : Nat
  stream : String
  eventType : String
  timestamp : Int
  payload : ν
  metadata : ν
  deriving DecidableEq

/-- An event and its place in the file. -/
structure StoredEvent (ν : Type u) where
  offset : Nat
  event : Event ν
  deriving DecidableEq

/-- The storage with the JSON codec of events. -/
structure EventRuntime (ν : Type u) extends StorageRuntime where
  toVec : Event ν → Option Bytes
  fromSlice : Bytes → Option (Event ν)
  fromSlice_toVec : ∀ event bytes, toVec event = some bytes → fromSlice bytes = some event

variable {ν : Type u}

/-! ## Validation -/

/-- The bytes that `validate_stream_name` admits are all ASCII characters. -/
def streamNameChar (c : Char) : Bool :=
  c.isAlphanum || c == '_' || c == '-' || c == '.' || c == ':' || c == '/'

/-- Checks a stream name. -/
def validateStreamName (stream : String) : Except BicDbError Unit :=
  if stream.toList.isEmpty || !stream.toList.all streamNameChar then
    .error (.invalidStreamName stream)
  else .ok ()

/-- Checks an event before it is appended. -/
def validateEvent (event : Event ν) : Except BicDbError Unit :=
  match validateStreamName event.stream with
  | .error e => .error e
  | .ok () =>
    if isBlank event.eventType then
      .error (.invalidEvent "event_type must not be empty")
    else .ok ()

/-! ## The file -/

/-- A file: its bytes, and how many of them are on disk for certain. -/
structure LogFile where
  bytes : Bytes
  synced : Nat
  deriving DecidableEq

/-- What becomes of a write: written and synced, or failed after some of its bytes, perhaps all. -/
inductive WriteOutcome where
  | complete
  | failed (written : Nat)
  deriving DecidableEq

/-- `append_frames` for one payload, with `fsync` on. -/
def appendFrame (rt : StorageRuntime) (kind : FrameKind) (nonce : Nat) (payload : Bytes)
    (outcome : WriteOutcome) (file : LogFile) : Except BicDbError Nat × LogFile :=
  if maxPayloadLen < payload.length then
    (.error (.corruption rt.path
      ("frame payload is too large: " ++ toString payload.length ++ " bytes")), file)
  else
    match encodePayload rt kind nonce payload with
    | .error e => (.error e, file)
    | .ok (storedPayload, flags) =>
      let offset := file.bytes.length
      let writeBuffer := encodeHeader rt kind flags storedPayload ++ storedPayload
      match outcome with
      | .complete =>
        let bytes := file.bytes ++ writeBuffer
        (.ok offset, { bytes := bytes, synced := bytes.length })
      | .failed written =>
        (.error .io, { file with bytes := file.bytes ++ writeBuffer.take written })

/-- Visit the readable frames, then cut the file behind the last of them. -/
def streamFrames {σ : Type u} (rt : StorageRuntime) (expectedKind : FrameKind)
    (visit : σ → Nat → Bytes → Except BicDbError σ) (s : σ) (file : LogFile) :
    Except BicDbError (σ × LogFile) :=
  match walkFrames (readFrame rt expectedKind) visit (file.bytes.length + 1) 0 file.bytes s with
  | .error e => .error e
  | .ok (s', validUpTo) =>
    if validUpTo < file.bytes.length then
      .ok (s', { bytes := file.bytes.take validUpTo, synced := validUpTo })
    else .ok (s', file)

/-! ## The stream -/

/-- The events in memory, in the order of the log. -/
structure EventStream (ν : Type u) where
  events : List (StoredEvent ν)

/-- The event with an id. -/
def EventStream.find (stream : EventStream ν) (id : Nat) : Option (StoredEvent ν) :=
  stream.events.find? fun stored => stored.event.id == id

variable (rt : EventRuntime ν)

/-- Takes up one frame at opening; an id that is known is skipped. -/
def recoverEvent (stream : EventStream ν) (offset : Nat) (payload : Bytes) :
    Except BicDbError (EventStream ν) :=
  match rt.fromSlice payload with
  | none => .error .json
  | some event =>
    match validateEvent event with
    | .error e => .error e
    | .ok () =>
      match stream.find event.id with
      | some _ => .ok stream
      | none => .ok ⟨stream.events ++ [⟨offset, event⟩]⟩

/-- `EventStream::open_with_encryption`. -/
def openStream (file : LogFile) : Except BicDbError (EventStream ν × LogFile) :=
  streamFrames rt.toStorageRuntime .event (recoverEvent rt) ⟨[]⟩ file

/-- The stored event and whether it is new. -/
def appendEvent (event : Event ν) (nonce : Nat) (outcome : WriteOutcome) (stream : EventStream ν)
    (file : LogFile) : Except BicDbError (StoredEvent ν × Bool) × EventStream ν × LogFile :=
  match validateEvent event with
  | .error e => (.error e, stream, file)
  | .ok () =>
    match stream.find event.id with
    | some stored => (.ok (stored, false), stream, file)
    | none =>
      match rt.toVec event with
      | none => (.error .json, stream, file)
      | some payload =>
        match appendFrame rt.toStorageRuntime .event nonce payload outcome file with
        | (.error e, file') => (.error e, stream, file')
        | (.ok offset, file') =>
          let stored : StoredEvent ν := ⟨offset, event⟩
          (.ok (stored, true), ⟨stream.events ++ [stored]⟩, file')

/-! ## What the calls do -/

theorem EventStream.find_some {stream : EventStream ν} {id : Nat} {stored : StoredEvent ν}
    (h : stream.find id = some stored) : stored ∈ stream.events ∧ stored.event.id = id := by
  refine ⟨mem_of_find?_eq_some h, ?_⟩
  simpa using find?_some h

theorem EventStream.find_none {stream : EventStream ν} {id : Nat} (h : stream.find id = none) :
    ∀ stored ∈ stream.events, stored.event.id ≠ id := by
  intro stored hmem
  simpa using find?_eq_none.1 h stored hmem

/-- What appending one frame can do to the file. -/
inductive AppendFrameCase (rt : StorageRuntime) (kind : FrameKind) (payload : Bytes)
    (outcome : WriteOutcome) (file : LogFile) : Except BicDbError Nat → LogFile → Prop where
  | refused (e : BicDbError) : AppendFrameCase rt kind payload outcome file (.error e) file
  | failed (frame : StoredFrame) (written : Nat) (hpayload : frame.payload = payload)
      (hsound : WithinRatio rt payload → frame.Sound rt kind) (hout : outcome = .failed written) :
      AppendFrameCase rt kind payload outcome file (.error .io)
        { file with bytes := file.bytes ++ (frame.bytes rt kind).take written }
  | written (frame : StoredFrame) (hpayload : frame.payload = payload)
      (hsound : WithinRatio rt payload → frame.Sound rt kind) (hout : outcome = .complete) :
      AppendFrameCase rt kind payload outcome file (.ok file.bytes.length)
        { bytes := file.bytes ++ frame.bytes rt kind,
          synced := (file.bytes ++ frame.bytes rt kind).length }

theorem appendFrame_cases (rt : StorageRuntime) (kind : FrameKind) (nonce : Nat) (payload : Bytes)
    (outcome : WriteOutcome) (file : LogFile) :
    AppendFrameCase rt kind payload outcome file (appendFrame rt kind nonce payload outcome file).1
      (appendFrame rt kind nonce payload outcome file).2 := by
  unfold appendFrame
  split_ifs with hbig
  · exact .refused _
  · cases hencode : encodePayload rt kind nonce payload with
    | error e => exact .refused e
    | ok result =>
      obtain ⟨stored, flags⟩ := result
      have hsound : WithinRatio rt payload →
          (⟨flags, stored, payload⟩ : StoredFrame).Sound rt kind := by
        intro hratio
        exact (StoredFrame.written_encodePayload rt kind (Nat.le_of_not_lt hbig) hencode).sound
          hratio
      cases outcome with
      | complete => exact .written ⟨flags, stored, payload⟩ rfl hsound rfl
      | failed written => exact .failed ⟨flags, stored, payload⟩ written rfl hsound rfl

/-- What appending an event can do. -/
inductive AppendCase (rt : EventRuntime ν) (event : Event ν) (outcome : WriteOutcome)
    (stream : EventStream ν) (file : LogFile) :
    Except BicDbError (StoredEvent ν × Bool) → EventStream ν → LogFile → Prop where
  | refused (e : BicDbError) : AppendCase rt event outcome stream file (.error e) stream file
  | known (stored : StoredEvent ν) (hfind : stream.find event.id = some stored) :
      AppendCase rt event outcome stream file (.ok (stored, false)) stream file
  | failed (payload : Bytes) (frame : StoredFrame) (written : Nat)
      (hnew : stream.find event.id = none) (hvalid : validateEvent event = .ok ())
      (hvec : rt.toVec event = some payload) (hpayload : frame.payload = payload)
      (hsound : WithinRatio rt.toStorageRuntime payload → frame.Sound rt.toStorageRuntime .event)
      (hout : outcome = .failed written) :
      AppendCase rt event outcome stream file (.error .io) stream
        { file with
          bytes := file.bytes ++ (frame.bytes rt.toStorageRuntime .event).take written }
  | written (payload : Bytes) (frame : StoredFrame)
      (hnew : stream.find event.id = none) (hvalid : validateEvent event = .ok ())
      (hvec : rt.toVec event = some payload) (hpayload : frame.payload = payload)
      (hsound : WithinRatio rt.toStorageRuntime payload → frame.Sound rt.toStorageRuntime .event)
      (hout : outcome = .complete) :
      AppendCase rt event outcome stream file (.ok (⟨file.bytes.length, event⟩, true))
        ⟨stream.events ++ [⟨file.bytes.length, event⟩]⟩
        { bytes := file.bytes ++ frame.bytes rt.toStorageRuntime .event,
          synced := (file.bytes ++ frame.bytes rt.toStorageRuntime .event).length }

theorem appendEvent_cases (event : Event ν) (nonce : Nat) (outcome : WriteOutcome)
    (stream : EventStream ν) (file : LogFile) : AppendCase rt event outcome stream file
      (appendEvent rt event nonce outcome stream file).1
      (appendEvent rt event nonce outcome stream file).2.1
      (appendEvent rt event nonce outcome stream file).2.2 := by
  unfold appendEvent
  cases hvalid : validateEvent event with
  | error e => exact .refused e
  | ok _ =>
    cases hfind : stream.find event.id with
    | some stored => exact .known stored hfind
    | none =>
      cases hvec : rt.toVec event with
      | none => exact .refused _
      | some payload =>
        have hcase :=
          appendFrame_cases rt.toStorageRuntime .event nonce payload outcome file
        generalize hres : appendFrame rt.toStorageRuntime .event nonce payload outcome file
          = result at hcase
        obtain ⟨res, file'⟩ := result
        cases hcase with
        | refused e => simpa [hres] using AppendCase.refused e
        | failed frame written hpayload hsound hout =>
          simpa [hres] using
            AppendCase.failed payload frame written hfind hvalid hvec hpayload hsound hout
        | written frame hpayload hsound hout =>
          simpa [hres] using AppendCase.written payload frame hfind hvalid hvec hpayload hsound hout

/-! ## What recovery returns -/

/-- A frame that reads back as an event. -/
structure EventFrame (rt : EventRuntime ν) where
  frame : StoredFrame
  event : Event ν
  sound : frame.Sound rt.toStorageRuntime .event
  valid : validateEvent event = .ok ()
  payload : rt.fromSlice frame.payload = some event

/-- Its bytes. -/
def EventFrame.bytes {rt : EventRuntime ν} (f : EventFrame rt) : Bytes :=
  f.frame.bytes rt.toStorageRuntime .event

theorem eventFrame_framing : Framing (readFrame rt.toStorageRuntime .event) (@EventFrame.bytes ν rt)
      (fun f => f.frame.payload) fun _ => True where
  empty := rfl
  nonempty := fun f _ => (storedFrame_framing rt.toStorageRuntime .event).nonempty _ f.sound
  whole := fun f _ rest =>
    (storedFrame_framing rt.toStorageRuntime .event).whole _ f.sound rest
  torn := fun f _ k hk => (storedFrame_framing rt.toStorageRuntime .event).torn _ f.sound k hk

/-- The first event of each id. -/
def distinctEvents (events : List (Event ν)) : List (Event ν) := firstBy Event.id events

theorem visitFrames_recoverEvent (fs : List (EventFrame rt)) (offset : Nat)
    (stream : EventStream ν) :
    ∃ stream', visitFrames (recoverEvent rt) EventFrame.bytes (fun f => f.frame.payload) offset fs
        stream = .ok (stream', offset + (fs.flatMap EventFrame.bytes).length) ∧
      stream'.events.map StoredEvent.event =
        (fs.map EventFrame.event).foldl (addFirst Event.id)
          (stream.events.map StoredEvent.event) := by
  induction fs generalizing offset stream with
  | nil => exact ⟨stream, rfl, rfl⟩
  | cons f fs ih =>
    -- one frame adds its event, or finds its identifier taken
    have hvisit : ∃ next, recoverEvent rt stream offset f.frame.payload = .ok next ∧
        next.events.map StoredEvent.event =
          addFirst Event.id (stream.events.map StoredEvent.event) f.event := by
      cases hfind : stream.find f.event.id with
      | some stored =>
        obtain ⟨hmem, hid⟩ := EventStream.find_some hfind
        refine ⟨stream, by simp [recoverEvent, f.payload, f.valid, hfind], ?_⟩
        exact (addFirst_of_mem (mem_map_of_mem hmem) hid).symm
      | none =>
        refine ⟨⟨stream.events ++ [⟨offset, f.event⟩]⟩,
          by simp [recoverEvent, f.payload, f.valid, hfind], ?_⟩
        rw [map_append, map_singleton]
        refine (addFirst_of_new fun e he => ?_).symm
        obtain ⟨stored, hmem, rfl⟩ := mem_map.1 he
        exact EventStream.find_none hfind stored hmem
    obtain ⟨next, hnext, hevents⟩ := hvisit
    obtain ⟨stream', hrest, hfinal⟩ := ih (offset + f.bytes.length) next
    refine ⟨stream', ?_, ?_⟩
    · simp only [visitFrames, hnext, hrest, flatMap_cons, length_append, Nat.add_assoc]
    · rw [hfinal, hevents, map_cons, foldl_cons]

/-- **What `open` makes of a cut log**: the events before the cut, the first of each identifier. -/
theorem openStream_take (fs : List (EventFrame rt)) (k synced : Nat) :
    ∃ stream file, openStream rt ⟨(fs.flatMap EventFrame.bytes).take k, synced⟩ =
        .ok (stream, file) ∧
      stream.events.map StoredEvent.event =
        distinctEvents ((wholeWithin EventFrame.bytes fs k).map EventFrame.event) ∧
      file.bytes = (wholeWithin EventFrame.bytes fs k).flatMap EventFrame.bytes ∧
      (file.synced = file.bytes.length ∨
        file = ⟨(fs.flatMap EventFrame.bytes).take k, synced⟩) := by
  have hframing := eventFrame_framing rt
  have hkept : (wholeWithin EventFrame.bytes fs k).length <
      ((fs.flatMap EventFrame.bytes).take k).length + 1 := by
    have hsound : ∀ f ∈ fs, True := fun _ _ => trivial
    have := length_wholeWithin_le hframing.nonempty hsound k
    omega
  obtain ⟨stream, hvisit, hevents⟩ :=
    visitFrames_recoverEvent rt (wholeWithin EventFrame.bytes fs k) 0 ⟨[]⟩
  have hwalk := walkFrames_take hframing (recoverEvent rt) (fun _ _ => trivial) hkept 0 ⟨[]⟩
  rw [hvisit, Nat.zero_add] at hwalk
  have hpre : (wholeWithin EventFrame.bytes fs k).flatMap EventFrame.bytes <+:
      (fs.flatMap EventFrame.bytes).take k := prefix_flatMap_wholeWithin fs k
  simp only [openStream, streamFrames, hwalk]
  split_ifs with hall
  · -- the bytes behind the last whole frame are cut off
    refine ⟨stream, _, rfl, hevents, ?_, .inl ?_⟩
    · exact (prefix_iff_eq_take.1 hpre).symm
    · rw [← prefix_iff_eq_take.1 hpre]
  · exact ⟨stream, _, rfl, hevents, (hpre.eq_of_length_le (Nat.le_of_not_lt hall)).symm, .inr rfl⟩

end BicDb.Events
