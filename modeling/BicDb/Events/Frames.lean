import BicDb.Foundation.Checks
import BicDb.Foundation.FrameLog

/-!
# Frames of a segment file

The frame format of `storage.rs`: a header of sixteen bytes and the payload, maybe compressed and
encrypted. `readFrame` is one round of the loop in `stream_frames`. Checksum, compressor and cipher
are third-party code; what was sealed opens, and what was compressed decompresses.

## What this module delivers

* `Holds`: the files made by appends and batches, with what was given to them.
* `readFrames_of_holds`: it is read back exactly if no payload shrank too much.
* `readFrames_zeros_fails`: one that did.
-/

namespace BicDb.Events

open BicDb.Foundation List

abbrev Bytes := List UInt8

/-! ## Constants -/

def magic : Bytes := [0x42, 0x49, 0x43, 0x46]

def version : UInt8 := 1

def headerLen : Nat := 16

def maxPayloadLen : Nat := 128 * 1024 * 1024

def maxDecompressionRatio : Nat := 1024

def flagZstd : UInt16 := 1

def flagEncrypted : UInt16 := 2

def knownFlags : UInt16 := flagZstd ||| flagEncrypted

/-- The kinds of frames, with their bytes on disk. -/
inductive FrameKind where
  | record
  | sync
  | event
  | transaction
  | index
  | search
  deriving DecidableEq, Repr

namespace FrameKind

def toU8 : FrameKind → UInt8
  | record => 1
  | sync => 2
  | event => 3
  | transaction => 4
  | index => 5
  | search => 6

/-- The kind of a byte. -/
def fromU8 (value : UInt8) : Option FrameKind :=
  if value = 1 then some record
  else if value = 2 then some sync
  else if value = 3 then some event
  else if value = 4 then some transaction
  else if value = 5 then some index
  else if value = 6 then some search
  else none

theorem fromU8_toU8 (kind : FrameKind) : fromU8 kind.toU8 = some kind := by
  cases kind <;> rfl

end FrameKind

/-- The errors of the log, with the texts of the source. -/
inductive BicDbError where
  | io
  | json
  | encryption
  | invalidStreamName (stream : String)
  | invalidEvent (message : String)
  | corruption (path : String) (message : String)
  deriving DecidableEq, Repr

/-! ## What the storage layer is given -/

/-- The level only reaches the compressor. -/
structure CompressionConfig where
  enabled : Bool
  minBytes : Nat

/-- An authenticated cipher. The first argument of `encrypt` is the nonce it draws. -/
structure Cipher where
  encrypt : Nat → Bytes → Bytes → Option Bytes
  decrypt : Bytes → Bytes → Option Bytes
  decrypt_encrypt : ∀ nonce plain aad sealed,
    encrypt nonce plain aad = some sealed → decrypt sealed aad = some plain

/-- The file's path, the configured compression and encryption, and the third-party functions. -/
structure StorageRuntime where
  path : String
  compression : CompressionConfig
  cipher : Option Cipher
  crc32 : Bytes → UInt32
  zstd : Bytes → Bytes
  unzstd : Bytes → Option Bytes
  unzstd_zstd : ∀ payload, unzstd (zstd payload) = some payload

/-! ## Headers -/

variable (rt : StorageRuntime)

/-- The checksum over header fields and stored bytes. -/
def checksum (kind : FrameKind) (flags : UInt16) (len : Nat) (payload : Bytes) : UInt32 :=
  rt.crc32 ([version, kind.toU8] ++ leBytes 2 flags.toNat ++ leBytes 4 len ++ payload)

/-- The 16 bytes in front of a payload. -/
def encodeHeader (kind : FrameKind) (flags : UInt16) (payload : Bytes) : Bytes :=
  magic ++ [version, kind.toU8] ++ leBytes 2 flags.toNat ++ leBytes 4 payload.length ++
    leBytes 4 (checksum rt kind flags payload.length payload).toNat

/-- Kind, flags, length and checksum of a header. -/
def decodeHeader (header : Bytes) : Option (FrameKind × UInt16 × Nat × UInt32) :=
  if header.take 4 ≠ magic ∨ header[4]? ≠ some version then none
  else
    match (header[5]?).bind FrameKind.fromU8 with
    | none => none
    | some kind =>
      let flags := UInt16.ofNat (leNat ((header.drop 6).take 2))
      if flags &&& ~~~knownFlags ≠ 0 then none
      else some (kind, flags, leNat ((header.drop 8).take 4),
        UInt32.ofNat (leNat ((header.drop 12).take 4)))

variable (kind : FrameKind)

@[simp] theorem length_encodeHeader (flags : UInt16) (payload : Bytes) :
    (encodeHeader rt kind flags payload).length = headerLen := by
  simp [encodeHeader, magic, headerLen]

variable {payload : Bytes}

theorem decodeHeader_encodeHeader {flags : UInt16} (hflags : flags &&& ~~~knownFlags = 0)
    (hlen : payload.length < 256 ^ 4) : decodeHeader (encodeHeader rt kind flags payload) =
      some (kind, flags, payload.length, checksum rt kind flags payload.length payload) := by
  have hflagsNat : leNat (leBytes 2 flags.toNat) = flags.toNat :=
    leNat_leBytes (by simpa using flags.toNat_lt)
  have hsumNat (sum : UInt32) : leNat (leBytes 4 sum.toNat) = sum.toNat :=
    leNat_leBytes (by simpa using sum.toNat_lt)
  have hlenNat : leNat (leBytes 4 payload.length) = payload.length := leNat_leBytes hlen
  have hcut (xs ys : Bytes) (n : Nat) (h : xs.length = n) : (xs ++ ys).take n = xs := by
    simp [← h]
  have hdrop6 : ((encodeHeader rt kind flags payload).drop 6).take 2 = leBytes 2 flags.toNat := by
    exact hcut _ _ 2 (length_leBytes _ _)
  have hdrop8 : ((encodeHeader rt kind flags payload).drop 8).take 4 =
      leBytes 4 payload.length := by
    exact hcut _ _ 4 (length_leBytes _ _)
  have hdrop12 : ((encodeHeader rt kind flags payload).drop 12).take 4 =
      leBytes 4 (checksum rt kind flags payload.length payload).toNat := by
    rw [encodeHeader, drop_left' (by simp [magic])]
    exact take_of_length_le (by simp)
  have hmagic : (encodeHeader rt kind flags payload).take 4 = magic := rfl
  have hversion : (encodeHeader rt kind flags payload)[4]? = some version := rfl
  have hkind : (encodeHeader rt kind flags payload)[5]? = some kind.toU8 := rfl
  simp [decodeHeader, hmagic, hversion, hkind, FrameKind.fromU8_toU8, hdrop6, hdrop8, hdrop12,
    hflagsNat, hlenNat, hsumNat, hflags]

/-! ## Payloads -/

/-- The header fields that the encryption binds. -/
def frameAad (flags : UInt16) : Bytes :=
  magic ++ [version, kind.toU8] ++ leBytes 2 flags.toNat

/-- The payload as stored, compressed where that is shorter. -/
def encodeCompressedPayload (payload : Bytes) : Bytes × UInt16 :=
  if !rt.compression.enabled || decide (payload.length < rt.compression.minBytes) then (payload, 0)
  else if (rt.zstd payload).length < payload.length then (rt.zstd payload, flagZstd)
  else (payload, 0)

/-- The encryption of `encode_payload`, where it is enabled. -/
def sealPayload (kind : FrameKind) (nonce : Nat) (packed : Bytes × UInt16) :
    Except BicDbError (Bytes × UInt16) :=
  match rt.cipher with
  | none => .ok packed
  | some cipher =>
    let flags := packed.2 ||| flagEncrypted
    match cipher.encrypt nonce packed.1 (frameAad kind flags) with
    | none => .error .encryption
    | some sealed => .ok (sealed, flags)

/-- Compression, then encryption. -/
def encodePayload (kind : FrameKind) (nonce : Nat) (payload : Bytes) :
    Except BicDbError (Bytes × UInt16) :=
  match sealPayload rt kind nonce (encodeCompressedPayload rt payload) with
  | .error e => .error e
  | .ok (stored, flags) =>
    if maxPayloadLen < stored.length then
      .error (.corruption rt.path
        ("stored frame payload is too large: " ++ toString stored.length ++ " bytes"))
    else .ok (stored, flags)

/-- The error of a frame that decompresses to too much. -/
def boundExceeded : BicDbError :=
  .corruption rt.path ("decompressed frame payload exceeds the " ++ toString maxPayloadLen ++
    "-byte/" ++ toString maxDecompressionRatio ++ "x bound")

/-- The decompressor is read up to one byte past the bound, so that a longer output shows. -/
def decodeCompressedPayload (flags : UInt16) (payload : Bytes) : Except BicDbError Bytes :=
  if flags &&& flagZstd = 0 then .ok payload
  else
    let ratioLimit := payload.length * maxDecompressionRatio
    let limit := min maxPayloadLen ratioLimit + 1
    match rt.unzstd payload with
    | none => .error .io
    | some whole =>
      let decoded := whole.take limit
      if limit ≤ decoded.length then .error (boundExceeded rt) else .ok decoded

/-- Decryption, then decompression within its bounds. -/
def decodePayload (kind : FrameKind) (flags : UInt16) (payload : Bytes) : Except BicDbError Bytes :=
  if flags &&& flagEncrypted ≠ 0 then
    match rt.cipher with
    | none => .error .encryption
    | some cipher =>
      match cipher.decrypt payload (frameAad kind flags) with
      | none => .error .encryption
      | some decrypted => decodeCompressedPayload rt (flags &&& ~~~flagEncrypted) decrypted
  else decodeCompressedPayload rt flags payload

/-- A payload that is stored compressed is not shrunk by more than decompression allows. -/
def WithinRatio (payload : Bytes) : Prop :=
  rt.compression.enabled = true → rt.compression.minBytes ≤ payload.length →
    (rt.zstd payload).length < payload.length →
      payload.length ≤ (rt.zstd payload).length * maxDecompressionRatio

instance (rt : StorageRuntime) (payload : Bytes) : Decidable (WithinRatio rt payload) :=
  inferInstanceAs (Decidable (_ → _))

theorem encodeCompressedPayload_flags (payload : Bytes) :
    (encodeCompressedPayload rt payload).2 = 0 ∨
      (encodeCompressedPayload rt payload).2 = flagZstd := by
  unfold encodeCompressedPayload
  split
  · exact .inl rfl
  · split
    · exact .inr rfl
    · exact .inl rfl

/-- What was packed is unpacked exactly if it is within the ratio. -/
theorem decodeCompressedPayload_encode (hlen : payload.length ≤ maxPayloadLen) :
    decodeCompressedPayload rt (encodeCompressedPayload rt payload).2
      (encodeCompressedPayload rt payload).1 =
        if WithinRatio rt payload then .ok payload else .error (boundExceeded rt) := by
  have hplain (body : Bytes) : decodeCompressedPayload rt 0 body = .ok body := by
    simp [decodeCompressedPayload]
  unfold encodeCompressedPayload
  split
  next hoff =>
    have hratio : WithinRatio rt payload := by
      intro henabled hmin
      simp [henabled, Nat.not_lt.2 hmin] at hoff
    rw [hplain, if_pos hratio]
  next hoff =>
    simp only [Bool.or_eq_true, Bool.not_eq_true', decide_eq_true_eq, not_or, Bool.not_eq_false,
      Nat.not_lt] at hoff
    split
    next hshort =>
      have hflag : ¬ flagZstd &&& flagZstd = 0 := by decide
      have hiff : WithinRatio rt payload ↔
          payload.length ≤ (rt.zstd payload).length * maxDecompressionRatio :=
        ⟨fun h => h hoff.1 hoff.2 hshort, fun h _ _ _ => h⟩
      simp only [decodeCompressedPayload, rt.unzstd_zstd, if_neg hflag, length_take, hiff]
      by_cases hbound : payload.length ≤ (rt.zstd payload).length * maxDecompressionRatio
      · rw [if_neg (by omega), if_pos hbound, take_of_length_le (by omega)]
      · rw [if_pos (by omega), if_neg hbound]
    next hlong =>
      have hratio : WithinRatio rt payload := fun _ _ hshort => absurd hshort hlong
      rw [hplain, if_pos hratio]

/-- Decoding undoes the encryption of a payload that was accepted. -/
theorem decodePayload_encodePayload_eq {nonce : Nat} {stored : Bytes} {flags : UInt16}
    (h : encodePayload rt kind nonce payload = .ok (stored, flags)) :
    decodePayload rt kind flags stored = decodeCompressedPayload rt
        (encodeCompressedPayload rt payload).2 (encodeCompressedPayload rt payload).1 ∧
      stored.length ≤ maxPayloadLen ∧ flags &&& ~~~knownFlags = 0 := by
  have hpacked := encodeCompressedPayload_flags rt payload
  unfold encodePayload at h
  generalize encodeCompressedPayload rt payload = packed at *
  obtain ⟨body, flag⟩ := packed
  split at h
  · cases h
  rename_i hseal
  split_ifs at h
  cases h
  unfold sealPayload at hseal
  split at hseal
  · cases hseal
    refine ⟨?_, by omega, ?_⟩
    · have hplain : flags &&& flagEncrypted = 0 := by
        rcases hpacked with rfl | rfl <;> decide
      simp [decodePayload, hplain]
    · rcases hpacked with rfl | rfl <;> decide
  rename_i cipher hcipher
  dsimp only at hseal
  split at hseal
  · cases hseal
  rename_i henc
  cases hseal
  have hopen := cipher.decrypt_encrypt _ _ _ _ henc
  have hset : ¬ (flag ||| flagEncrypted) &&& flagEncrypted = 0 := by
    rcases hpacked with rfl | rfl <;> decide
  have hclear : (flag ||| flagEncrypted) &&& ~~~flagEncrypted = flag := by
    rcases hpacked with rfl | rfl <;> decide
  refine ⟨?_, by omega, ?_⟩
  · simp only [decodePayload, hcipher, hopen, hclear, ne_eq, hset, not_false_eq_true, if_true]
  · rcases hpacked with rfl | rfl <;> decide

/-! ## One round of the reader -/

/-- One round of the loop in `stream_frames`: a short or malformed frame ends the walk. -/
def readFrame (expectedKind : FrameKind) (bytes : Bytes) : FrameHead BicDbError Bytes :=
  if bytes.length < headerLen then .stop
  else
    match decodeHeader (bytes.take headerLen) with
    | none => .stop
    | some (kind, flags, len, expectedChecksum) =>
      if kind ≠ expectedKind ∨ maxPayloadLen < len then .stop
      else if bytes.length < headerLen + len then .stop
      else
        let storedPayload := (bytes.drop headerLen).take len
        if expectedChecksum ≠ checksum rt kind flags len storedPayload then .stop
        else
          match decodePayload rt kind flags storedPayload with
          | .error e => .fail e
          | .ok payload => .frame payload (headerLen + len)

/-- A frame as it lies in the file, with the payload it stands for. -/
structure StoredFrame where
  flags : UInt16
  stored : Bytes
  payload : Bytes

/-- The bytes of a frame. -/
def StoredFrame.bytes (kind : FrameKind) (f : StoredFrame) : Bytes :=
  encodeHeader rt kind f.flags f.stored ++ f.stored

/-- The frame can be read back. -/
structure StoredFrame.Sound (rt : StorageRuntime) (kind : FrameKind) (f : StoredFrame) : Prop where
  decodes : decodePayload rt kind f.flags f.stored = .ok f.payload
  fits : f.stored.length ≤ maxPayloadLen
  known : f.flags &&& ~~~knownFlags = 0

/-- The frame is what was written for a payload that was accepted. -/
structure StoredFrame.Written (rt : StorageRuntime) (kind : FrameKind) (f : StoredFrame) :
    Prop where
  decodes : decodePayload rt kind f.flags f.stored =
    if WithinRatio rt f.payload then .ok f.payload else .error (boundExceeded rt)
  fits : f.stored.length ≤ maxPayloadLen
  known : f.flags &&& ~~~knownFlags = 0

variable {rt kind} in
theorem StoredFrame.Written.sound {f : StoredFrame} (h : f.Written rt kind)
    (hratio : WithinRatio rt f.payload) : f.Sound rt kind :=
  ⟨by rw [h.decodes, if_pos hratio], h.fits, h.known⟩

theorem StoredFrame.written_encodePayload {nonce : Nat} {stored : Bytes} {flags : UInt16}
    (hlen : payload.length ≤ maxPayloadLen)
    (h : encodePayload rt kind nonce payload = .ok (stored, flags)) :
    StoredFrame.Written rt kind ⟨flags, stored, payload⟩ := by
  obtain ⟨hdecodes, hfits, hknown⟩ := decodePayload_encodePayload_eq rt kind h
  exact ⟨hdecodes.trans (decodeCompressedPayload_encode rt hlen), hfits, hknown⟩

@[simp] theorem StoredFrame.length_bytes (f : StoredFrame) :
    (f.bytes rt kind).length = headerLen + f.stored.length := by
  simp [StoredFrame.bytes]

theorem StoredFrame.decodeHeader_bytes {f : StoredFrame} (hfits : f.stored.length ≤ maxPayloadLen)
    (hknown : f.flags &&& ~~~knownFlags = 0) :
    decodeHeader (encodeHeader rt kind f.flags f.stored) = some (kind, f.flags, f.stored.length,
      checksum rt kind f.flags f.stored.length f.stored) := by
  apply decodeHeader_encodeHeader rt kind hknown
  unfold maxPayloadLen at hfits
  omega

theorem StoredFrame.readFrame_bytes {f : StoredFrame} (hfits : f.stored.length ≤ maxPayloadLen)
    (hknown : f.flags &&& ~~~knownFlags = 0) (rest : Bytes) :
    readFrame rt kind (f.bytes rt kind ++ rest) =
      match decodePayload rt kind f.flags f.stored with
      | .error e => .fail e
      | .ok payload => .frame payload (headerLen + f.stored.length) := by
  have hlen : (f.bytes rt kind ++ rest).length = headerLen + f.stored.length + rest.length := by
    rw [length_append, StoredFrame.length_bytes]
  have hlong : ¬ (f.bytes rt kind ++ rest).length < headerLen := by omega
  have hlong' : ¬ (f.bytes rt kind ++ rest).length < headerLen + f.stored.length := by omega
  have hhead : (f.bytes rt kind ++ rest).take headerLen =
      encodeHeader rt kind f.flags f.stored := by
    rw [StoredFrame.bytes, append_assoc]
    exact take_left' (length_encodeHeader ..)
  have hbody : ((f.bytes rt kind ++ rest).drop headerLen).take f.stored.length = f.stored := by
    exact take_left
  have hkind : ¬ (kind ≠ kind ∨ maxPayloadLen < f.stored.length) := by
    rintro (h | h)
    · exact h rfl
    · omega
  have hsum (c : UInt32) : ¬ c ≠ c := fun h => h rfl
  simp only [readFrame, if_neg hlong, hhead, decodeHeader_bytes rt kind hfits hknown, if_neg hkind,
    if_neg hlong', hbody, if_neg (hsum _)]

/-- **The frames of a segment are a framing.** -/
theorem storedFrame_framing :
    Framing (readFrame rt kind) (StoredFrame.bytes rt kind) StoredFrame.payload
      (StoredFrame.Sound rt kind) where
  empty := rfl
  nonempty := by
    intro f _
    rw [StoredFrame.length_bytes, headerLen]
    omega
  whole := by
    intro f hf rest
    rw [StoredFrame.readFrame_bytes rt kind hf.fits hf.known, hf.decodes, StoredFrame.length_bytes]
  torn := by
    intro f hf k hk
    rw [StoredFrame.length_bytes] at hk
    have hfits := hf.fits
    have hlen : ((f.bytes rt kind).take k).length = k := by
      rw [length_take, StoredFrame.length_bytes]
      omega
    by_cases hshort : k < headerLen
    · simp [readFrame, hlen, hshort]
    -- the header is whole and announces more than is there
    have hhead : ((f.bytes rt kind).take k).take headerLen =
        encodeHeader rt kind f.flags f.stored := by
      rw [take_take, Nat.min_eq_left (by omega), StoredFrame.bytes]
      exact take_left' (length_encodeHeader ..)
    have hkind : ¬ (kind ≠ kind ∨ maxPayloadLen < f.stored.length) := by
      rintro (h | h)
      · exact h rfl
      · omega
    simp only [readFrame, hlen, if_neg hshort, hhead,
      StoredFrame.decodeHeader_bytes rt kind hf.fits hf.known, if_neg hkind, if_pos hk]

/-! ## Files of frames -/

/-- A round of the loop in `append_frames`, for a payload and the nonce that is drawn for it. -/
def frameBytes (item : Nat × Bytes) : Except BicDbError Bytes :=
  if maxPayloadLen < item.2.length then
    .error (.corruption rt.path
      ("frame payload is too large: " ++ toString item.2.length ++ " bytes"))
  else do
    let packed ← encodePayload rt kind item.1 item.2
    .ok (encodeHeader rt kind packed.2 packed.1 ++ packed.1)

/-- `append_frames`: encodes all payloads, then writes. -/
def appendFrames (items : List (Nat × Bytes)) (file : Bytes) :
    Except BicDbError (List Nat × Bytes) :=
  items.mapM (frameBytes rt kind) >>= fun frames => .ok
    (frames.mapIdx fun i _ => file.length + (frames.take i).flatten.length, file ++ frames.flatten)

/-- A round of the loop in `encode_frames_to_bytes`. -/
def plainFrameBytes (item : Nat × Bytes) : Except BicDbError Bytes :=
  if item.2.length ≤ maxPayloadLen ∧ rt.cipher.isNone = true ∧
      (!rt.compression.enabled || decide (item.2.length < rt.compression.minBytes)) = true then
    .ok (encodeHeader rt kind 0 item.2 ++ item.2)
  else frameBytes rt kind item

/-- The frames of a batch, without compression and encryption. -/
def encodeFramesToBytes (items : List (Nat × Bytes)) : Except BicDbError Bytes :=
  items.mapM (plainFrameBytes rt kind) >>= fun frames => .ok frames.flatten

/-- The frames that `read_frames` finds, and where the last of them ends. -/
def readFrames (file : Bytes) : Except BicDbError (List (Nat × Bytes) × Nat) :=
  walkFrames (readFrame rt kind) (fun frames offset payload => .ok (frames ++ [(offset, payload)]))
    (file.length + 1) 0 file []

/-- The files made by appends and by batches of encoded frames, with the payloads given to them. -/
inductive Holds : Bytes → List Bytes → Prop where
  | empty : Holds [] []
  | append {file file' payloads items offsets} : Holds file payloads →
      appendFrames rt kind items file = .ok (offsets, file') →
      Holds file' (payloads ++ items.map Prod.snd)
  | write {file bytes payloads items} : Holds file payloads →
      encodeFramesToBytes rt kind items = .ok bytes →
      Holds (file ++ bytes) (payloads ++ items.map Prod.snd)

/-- The file is made of frames that were written for the payloads. -/
def Framed (file : Bytes) (payloads : List Bytes) : Prop :=
  ∃ fs : List StoredFrame, file = fs.flatMap (StoredFrame.bytes rt kind) ∧
    fs.map StoredFrame.payload = payloads ∧ ∀ f ∈ fs, f.Written rt kind

variable {rt kind} {file : Bytes} {payloads : List Bytes}

theorem plainFrameBytes_eq (item : Nat × Bytes) :
    plainFrameBytes rt kind item = frameBytes rt kind item := by
  unfold plainFrameBytes
  split_ifs with hplain
  · obtain ⟨hlen, hcipher, hoff⟩ := hplain
    have hfits : ¬ maxPayloadLen < item.2.length := Nat.not_lt.2 hlen
    simp [frameBytes, encodePayload, sealPayload, encodeCompressedPayload, hfits, hoff,
      Option.isNone_iff_eq_none.1 hcipher]
    rfl
  · rfl

theorem Framed.add (h : Framed rt kind file payloads) {items : List (Nat × Bytes)}
    {frames : List Bytes} (hframes : items.mapM (frameBytes rt kind) = .ok frames) :
    Framed rt kind (file ++ frames.flatten) (payloads ++ items.map Prod.snd) := by
  induction items generalizing file payloads frames with
  | nil =>
    cases hframes
    simpa using h
  | cons item items ih =>
    rw [mapM_cons, bind_eq_ok] at hframes
    obtain ⟨frame, hframe, hframes⟩ := hframes
    rw [bind_eq_ok] at hframes
    obtain ⟨frames, hframes, ⟨⟩⟩ := hframes
    unfold frameBytes at hframe
    split_ifs at hframe with hlen
    obtain ⟨packed, hpacked, ⟨⟩⟩ := bind_eq_ok.1 hframe
    obtain ⟨fs, rfl, rfl, hwritten⟩ := h
    have hnew := StoredFrame.written_encodePayload rt kind (Nat.le_of_not_lt hlen) hpacked
    have hone : Framed rt kind (fs.flatMap (StoredFrame.bytes rt kind) ++
        (encodeHeader rt kind packed.2 packed.1 ++ packed.1))
        (fs.map StoredFrame.payload ++ [item.2]) :=
      ⟨fs ++ [⟨packed.2, packed.1, item.2⟩], by simp [StoredFrame.bytes], by simp,
        forall_mem_append.2 ⟨hwritten, forall_mem_singleton.2 hnew⟩⟩
    simpa using ih hone hframes

theorem framed_of_holds (h : Holds rt kind file payloads) : Framed rt kind file payloads := by
  induction h with
  | empty => exact ⟨[], rfl, rfl, nofun⟩
  | append _ happend ih =>
    obtain ⟨frames, hframes, ⟨⟩⟩ := bind_eq_ok.1 happend
    exact ih.add hframes
  | write _ hwrite ih =>
    rw [encodeFramesToBytes, funext plainFrameBytes_eq] at hwrite
    obtain ⟨frames, hframes, ⟨⟩⟩ := bind_eq_ok.1 hwrite
    exact ih.add hframes

theorem visitFrames_collect (fs : List StoredFrame) (offset : Nat) (frames : List (Nat × Bytes)) :
    ∃ found, visitFrames (fun frames offset payload => .ok (frames ++ [(offset, payload)]))
        (StoredFrame.bytes rt kind) StoredFrame.payload offset fs frames =
      (.ok (frames ++ found, offset + (fs.flatMap (StoredFrame.bytes rt kind)).length) :
        Except BicDbError _) ∧ found.map Prod.snd = fs.map StoredFrame.payload := by
  induction fs generalizing offset frames with
  | nil => exact ⟨[], by simp [visitFrames], rfl⟩
  | cons f fs ih =>
    obtain ⟨found, hfound, hpayloads⟩ := ih (offset + (f.bytes rt kind).length)
      (frames ++ [(offset, f.payload)])
    refine ⟨(offset, f.payload) :: found, ?_, by simp [hpayloads]⟩
    simp only [visitFrames, hfound, flatMap_cons, length_append, append_assoc, Nat.add_assoc]
    rfl

theorem length_le_flatMap_bytes (fs : List StoredFrame) :
    fs.length ≤ (fs.flatMap (StoredFrame.bytes rt kind)).length := by
  induction fs with
  | nil => exact Nat.zero_le _
  | cons f fs ih =>
    rw [flatMap_cons, length_append, length_cons, StoredFrame.length_bytes, headerLen]
    omega

/-- A file of frames within the ratio is read back. -/
theorem readFrames_of_within {fs : List StoredFrame} (hwritten : ∀ f ∈ fs, f.Written rt kind)
    (hratio : ∀ f ∈ fs, WithinRatio rt f.payload) :
    ∃ frames, readFrames rt kind (fs.flatMap (StoredFrame.bytes rt kind)) =
        .ok (frames, (fs.flatMap (StoredFrame.bytes rt kind)).length) ∧
      frames.map Prod.snd = fs.map StoredFrame.payload := by
  have hsound : ∀ f ∈ fs, f.Sound rt kind := fun f hf => (hwritten f hf).sound (hratio f hf)
  have hwhole : wholeWithin (StoredFrame.bytes rt kind) fs
      (fs.flatMap (StoredFrame.bytes rt kind)).length = fs := by
    simpa only [append_nil, Nat.sub_self, wholeWithin] using wholeWithin_append fs []
      (Nat.le_refl _)
  obtain ⟨found, hfound, hpayloads⟩ := @visitFrames_collect rt kind fs 0 []
  refine ⟨found, ?_, hpayloads⟩
  have hfuel : (wholeWithin (StoredFrame.bytes rt kind) fs
      (fs.flatMap (StoredFrame.bytes rt kind)).length).length <
        (fs.flatMap (StoredFrame.bytes rt kind)).length + 1 := by
    rw [hwhole]
    exact Nat.lt_succ_of_le (length_le_flatMap_bytes fs)
  have hwalk := walkFrames_take (storedFrame_framing rt kind)
    (fun frames offset payload => .ok (frames ++ [(offset, payload)])) hsound hfuel 0 []
  rw [take_length, hwhole, hfound, nil_append, Nat.zero_add] at hwalk
  exact hwalk

/-- A file with a frame beyond the ratio cannot be read. -/
theorem readFrames_of_beyond {fs : List StoredFrame} (hwritten : ∀ f ∈ fs, f.Written rt kind)
    (hratio : ∃ f ∈ fs, ¬ WithinRatio rt f.payload) :
    readFrames rt kind (fs.flatMap (StoredFrame.bytes rt kind)) = .error (boundExceeded rt) := by
  -- the frames before the first such frame are read
  obtain ⟨bad, hfind⟩ :
      ∃ bad, fs.find? (fun f => decide (¬ WithinRatio rt f.payload)) = some bad := by
    rw [← Option.isSome_iff_exists, find?_isSome]
    simpa using hratio
  obtain ⟨hbad, pre, post, rfl, hpre⟩ := find?_eq_some_iff_append.1 hfind
  simp only [decide_not, Bool.not_eq_true', decide_eq_false_iff_not] at hbad
  have hsound : ∀ f ∈ pre, f.Sound rt kind := fun f hf =>
    (hwritten f (mem_append_left _ hf)).sound (by simpa using hpre f hf)
  have hwbad := hwritten bad (by simp)
  have hfails : readFrame rt kind (bad.bytes rt kind ++ post.flatMap (StoredFrame.bytes rt kind)) =
      .fail (boundExceeded rt) := by
    rw [StoredFrame.readFrame_bytes rt kind hwbad.fits hwbad.known, hwbad.decodes, if_neg hbad]
  obtain ⟨found, hfound, -⟩ := @visitFrames_collect rt kind pre 0 []
  have hfuel := @length_le_flatMap_bytes rt kind (pre ++ bad :: post)
  rw [flatMap_append, flatMap_cons] at hfuel ⊢
  rw [length_append, length_cons] at hfuel
  exact walkFrames_fail (storedFrame_framing rt kind)
    (fun frames offset payload => .ok (frames ++ [(offset, payload)])) hsound hfails (by omega)
    ⟨_, hfound⟩

/-- **What is written can be read** exactly if no payload that is stored compressed was shrunk by
more than decompression allows. -/
theorem readFrames_of_holds (h : Holds rt kind file payloads) :
    (∃ frames, readFrames rt kind file = .ok (frames, file.length) ∧
      frames.map Prod.snd = payloads) ↔ ∀ payload ∈ payloads, WithinRatio rt payload := by
  obtain ⟨fs, rfl, rfl, hwritten⟩ := framed_of_holds h
  rw [forall_mem_map]
  refine ⟨fun hread => ?_, readFrames_of_within hwritten⟩
  by_contra hratio
  obtain ⟨frames, hok, -⟩ := hread
  rw [readFrames_of_beyond hwritten (by simpa using hratio)] at hok
  cases hok

/-! ## Runs of zeros -/

/-- The frame of 18 bytes that the compressor makes of a run of zeros: of 18432 with 251 for `low`,
of 18433 with 252. -/
def packedZeros (low : UInt8) : Bytes :=
  [40, 181, 47, 253, 0, 88, 77, 0, 0, 16, 0, 0, 1, 0, low, 199, 14, 176]

/-- A cipher for the examples: it puts the authenticated data in front. -/
def taggingCipher : Cipher where
  encrypt := fun _ plain aad => some (aad ++ plain)
  decrypt := fun sealed aad =>
    if sealed.take aad.length = aad then some (sealed.drop aad.length) else none
  decrypt_encrypt := by
    rintro _ plain aad _ ⟨⟩
    simp

/-- Compression from 8192 bytes on, of which a run of `n` zeros is an example; nothing else shrinks.
-/
def zerosRuntime (cipher : Option Cipher) (n : Nat) (low : UInt8) : StorageRuntime where
  path := "segment"
  compression := ⟨true, 8192⟩
  cipher := cipher
  crc32 := fun _ => 0
  zstd := fun payload => if payload = replicate n 0 then packedZeros low else 1 :: payload
  unzstd := fun bytes => if bytes = packedZeros low then some (replicate n 0) else some bytes.tail
  unzstd_zstd := by
    intro payload
    have hfirst : 1 :: payload ≠ packedZeros low := fun h =>
      absurd (head_eq_of_cons_eq h) (by decide)
    by_cases hzeros : payload = replicate n 0
    · rw [if_pos hzeros, if_pos rfl, hzeros]
    · rw [if_neg hzeros, if_neg hfirst, tail_cons]

section Zeros

variable {cipher : Option Cipher} {n : Nat} {low : UInt8}

/-- The run of zeros is stored compressed, and is within the ratio up to 18432 zeros. -/
theorem zeros_withinRatio (hmin : 8192 ≤ n) :
    WithinRatio (zerosRuntime cipher n low) (replicate n 0) ↔ n ≤ 18432 := by
  have hzstd : (zerosRuntime cipher n low).zstd (replicate n 0) = packedZeros low := if_pos rfl
  have hlow : (packedZeros low).length = 18 := rfl
  rw [WithinRatio, hzstd, hlow, length_replicate, maxDecompressionRatio]
  exact ⟨fun h => h rfl hmin (by omega), fun h _ _ _ => h⟩

/-- The run of zeros is accepted, encrypted or not. -/
theorem holds_zeros (hcipher : cipher = none ∨ cipher = some taggingCipher) (hmin : 8192 ≤ n)
    (hmax : n ≤ maxPayloadLen) :
    ∃ file, Holds (zerosRuntime cipher n low) .record file [replicate n 0] := by
  have hpacked : encodeCompressedPayload (zerosRuntime cipher n low) (replicate n 0) =
      (packedZeros low, flagZstd) := by
    have hzstd : (zerosRuntime cipher n low).zstd (replicate n 0) = packedZeros low := if_pos rfl
    have hlow : (packedZeros low).length = 18 := rfl
    have hon : ¬ (!(zerosRuntime cipher n low).compression.enabled || decide
        ((replicate n 0 : Bytes).length <
        (zerosRuntime cipher n low).compression.minBytes)) = true := by
      simpa [zerosRuntime] using hmin
    rw [encodeCompressedPayload, if_neg hon, hzstd, if_pos (by rw [hlow, length_replicate]; omega)]
  have hencode : ∃ stored, encodePayload (zerosRuntime cipher n low) .record 0 (replicate n 0) =
      .ok stored := by
    rw [encodePayload, hpacked]
    rcases hcipher with rfl | rfl
    · exact ⟨_, rfl⟩
    · exact ⟨_, rfl⟩
  obtain ⟨stored, hstored⟩ := hencode
  have hframe : frameBytes (zerosRuntime cipher n low) .record (0, replicate n 0) =
      .ok (encodeHeader (zerosRuntime cipher n low) .record stored.2 stored.1 ++ stored.1) := by
    rw [frameBytes, if_neg (by rw [length_replicate]; omega), hstored]
    rfl
  have hwrite : encodeFramesToBytes (zerosRuntime cipher n low) .record [(0, replicate n 0)] =
      .ok (encodeHeader (zerosRuntime cipher n low) .record stored.2 stored.1 ++ stored.1) := by
    rw [encodeFramesToBytes, funext plainFrameBytes_eq, mapM_cons, hframe]
    simp [Bind.bind, Except.bind, pure, Except.pure]
  exact ⟨_, .write .empty hwrite⟩

end Zeros

/-- 18432 zeros are compressed to 18 bytes and encrypted, which is just within the ratio. -/
theorem readFrames_of_holds_zerosRuntime :
    ∃ file, Holds (zerosRuntime (some taggingCipher) 18432 251) .record file [replicate 18432 0] ∧
      ∃ frames, readFrames (zerosRuntime (some taggingCipher) 18432 251) .record file =
          .ok (frames, file.length) ∧ frames.map Prod.snd = [replicate 18432 0] := by
  obtain ⟨file, hfile⟩ :=
    @holds_zeros (some taggingCipher) 18432 251 (.inr rfl) (by decide) (by decide)
  refine ⟨file, hfile, (readFrames_of_holds hfile).2 fun payload hpayload => ?_⟩
  rw [mem_singleton.1 hpayload]
  exact (zeros_withinRatio (by decide)).2 (by decide)

/-- 18433 zeros are accepted, and the file they are written to cannot be read. -/
theorem readFrames_zeros_fails :
    ∃ file, Holds (zerosRuntime none 18433 252) .record file [replicate 18433 0] ∧
      readFrames (zerosRuntime none 18433 252) .record file = .error (.corruption "segment"
        "decompressed frame payload exceeds the 134217728-byte/1024x bound") := by
  obtain ⟨file, hfile⟩ := @holds_zeros none 18433 252 (.inl rfl) (by decide) (by decide)
  obtain ⟨fs, rfl, hpayloads, hwritten⟩ := framed_of_holds hfile
  refine ⟨_, hfile, (readFrames_of_beyond hwritten ?_).trans (by decide +kernel)⟩
  obtain ⟨f, rfl, hf⟩ := map_eq_singleton_iff.1 hpayloads
  refine ⟨f, mem_singleton_self f, ?_⟩
  rw [hf, zeros_withinRatio (by decide)]
  decide

end BicDb.Events
