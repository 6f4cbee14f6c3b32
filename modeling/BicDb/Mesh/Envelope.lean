import BicDb.Foundation.Checks
import BicDb.Foundation.Json

/-!
# Sync bundles and the signatures on their events

The part of `sync_mesh.rs` a travelling event passes: the envelope, the message the origin signs,
the checks of a bundle, and the metadata a receiver stores. SHA-256 and Ed25519 are fields of
`Crypto`. Identifiers are their sixteen bytes.
-/

namespace BicDb.Mesh

open BicDb.Foundation

abbrev Bytes := List UInt8

abbrev Digest := Vector UInt8 32

abbrev Uuid := Vector UInt8 16

abbrev NodeId := Uuid

abbrev EventId := Uuid

abbrev Text := { text : String // Json.textFits text = true }

abbrev Value := { value : Json // value.wellFormed = true }

/-- Hash and signature scheme, as far as the code uses them. -/
structure Crypto where
  sha256 : Bytes → Digest
  Key : Type
  /-- `VerifyingKey::from_bytes`. -/
  keyFromBytes : Vector UInt8 32 → Option Key
  verifyStrict : Key → Bytes → Vector UInt8 64 → Bool

inductive MeshError where
  | syncBundle (message : String)
  deriving DecidableEq

/-! ## Constants -/

def syncBundleVersion : UInt32 := 2

def syncMetadataKey : String := "_bicdb_sync"

def userMetadataKey : String := "_bicdb_user_metadata"

/-! ## Hexadecimal text -/

def hexDigit (n : UInt8) : Char :=
  if n < 10 then Char.ofNat (48 + n.toNat) else Char.ofNat (87 + n.toNat)

/-- `hex::encode`. -/
def hexEncode (bytes : Bytes) : String :=
  String.ofList (bytes.flatMap fun byte => [hexDigit (byte / 16), hexDigit (byte % 16)])

def hexValue (c : Char) : Option UInt8 :=
  if '0' ≤ c ∧ c ≤ '9' then some (UInt8.ofNat (c.toNat - 48))
  else if 'a' ≤ c ∧ c ≤ 'f' then some (UInt8.ofNat (c.toNat - 87))
  else if 'A' ≤ c ∧ c ≤ 'F' then some (UInt8.ofNat (c.toNat - 55))
  else none

def hexDecodeChars : List Char → Option Bytes
  | [] => some []
  | [_] => none
  | high :: low :: rest => do
    let high ← hexValue high
    let low ← hexValue low
    let bytes ← hexDecodeChars rest
    return (16 * high + low) :: bytes

/-- `hex::decode`. -/
def hexDecode (text : String) : Option Bytes := hexDecodeChars text.toList

/-- `try_into` an array of a fixed length. -/
def toArray (width : Nat) (bytes : Bytes) : Option (Vector UInt8 width) :=
  if h : bytes.length = width then some ⟨bytes.toArray, h⟩ else none

/-- `Display` of a UUID: the digits in groups. -/
def showUuid (id : Uuid) : String :=
  let digits := (hexEncode id.toList).toList
  String.ofList (digits.take 8 ++ '-' :: (digits.drop 8).take 4 ++ '-' :: (digits.drop 12).take 4 ++
    '-' :: (digits.drop 16).take 4 ++ '-' :: digits.drop 20)

/-! ## Events and bundles -/

/-- An event. -/
structure Event where
  id : EventId
  stream : Text
  eventType : Text
  timestamp : Int64
  payload : Value
  metadata : Value

/-- What a node signs about its event. -/
structure EventEnvelope where
  nodeId : NodeId
  eventId : EventId
  streamId : Text
  sequence : UInt64
  timestamp : Int64
  payloadHash : Digest
  signature : Option Text

/-- An event with its envelope. -/
structure SyncBundleEvent where
  envelope : EventEnvelope
  event : Event

/-- The events that one node sends another. -/
structure SyncBundle where
  version : UInt32
  bundleId : Uuid
  sourceNodeId : NodeId
  createdAt : Int64
  fromCheckpoint : UInt64
  nextCheckpoint : UInt64
  eventCount : Nat
  events : List SyncBundleEvent
  checksum : String

/-! ## What is hashed -/

def hashU32 (value : UInt32) : Bytes := beBytes 4 value.toNat

def hashU64 (value : UInt64) : Bytes := beBytes 8 value.toNat

def hashI64 (value : Int64) : Bytes := beBytes 8 value.toBitVec.toNat

def hashStr (text : String) : Bytes := counted 8 (utf8 text)

mutual

/-- The bytes that `stable_hash_json` feeds to the hash. Objects are kept in the order of their
names. -/
def stableHashJson : Json → Bytes
  | .null => utf8 "n"
  | .bool value => utf8 "b" ++ [if value then 1 else 0]
  | .number text => utf8 "#" ++ hashStr text
  | .string text => utf8 "s" ++ hashStr text
  | .array elements => utf8 "[" ++ beBytes 8 elements.length ++ stableHashElements elements
  | .object fields => utf8 "\x7b" ++ beBytes 8 fields.length ++ stableHashFields fields

/-- The elements in order. -/
def stableHashElements : List Json → Bytes
  | [] => []
  | value :: rest => stableHashJson value ++ stableHashElements rest

/-- The fields in order. -/
def stableHashFields : List (String × Json) → Bytes
  | [] => []
  | (name, value) :: rest => hashStr name ++ stableHashJson value ++ stableHashFields rest

end

/-- Metadata with an envelope is hashed without it, and unwrapped where it is a wrapper. -/
def stableHashUserMetadata (metadata : Json) : Bytes :=
  match metadata with
  | .object fields =>
    if (Json.field? fields syncMetadataKey).isSome then
      match Json.field? fields userMetadataKey with
      | some original => stableHashJson original
      | none =>
        let entries := Json.eraseField fields syncMetadataKey
        utf8 "\x7b" ++ beBytes 8 entries.length ++ stableHashFields entries
    else stableHashJson metadata
  | _ => stableHashJson metadata

section Hashing

variable (crypto : Crypto)

def payloadHash (event : Event) : Digest := crypto.sha256 (stableHashJson event.payload.1)

variable (entry : SyncBundleEvent)

/-- What a node signs. -/
def envelopeSigningMessage : Bytes :=
  utf8 "bicdb.mesh.envelope.v2" ++
    (entry.envelope.nodeId.toList ++ (entry.envelope.eventId.toList ++
    (hashStr entry.envelope.streamId.1 ++ (hashU64 entry.envelope.sequence ++
      (hashI64 entry.envelope.timestamp ++ (entry.envelope.payloadHash.toList ++
        (hashStr entry.event.eventType.1 ++ (hashI64 entry.event.timestamp ++
          (crypto.sha256 (stableHashUserMetadata entry.event.metadata.1)).toList))))))))

/-! ## Verifying a bundle -/

/-- What the checksum covers of an entry. -/
def checksumBytes : Bytes :=
  entry.envelope.nodeId.toList ++ entry.envelope.eventId.toList ++
    hashStr entry.envelope.streamId.1 ++ hashU64 entry.envelope.sequence ++
    hashI64 entry.envelope.timestamp ++ entry.envelope.payloadHash.toList ++
    (match entry.envelope.signature with
      | some signature => 1 :: hashStr signature.1
      | none => [0]) ++
    entry.event.id.toList ++ hashStr entry.event.stream.1 ++ hashStr entry.event.eventType.1 ++
    hashI64 entry.event.timestamp ++ stableHashJson entry.event.metadata.1

/-- The checksum of a bundle. -/
def calculateChecksum (bundle : SyncBundle) : String :=
  hexEncode <| Vector.toList <| crypto.sha256 <|
    hashU32 bundle.version ++ bundle.bundleId.toList ++ bundle.sourceNodeId.toList ++
      hashI64 bundle.createdAt ++ hashU64 bundle.fromCheckpoint ++ hashU64 bundle.nextCheckpoint ++
      beBytes 8 bundle.eventCount ++ bundle.events.flatMap checksumBytes

/-- Envelope and event belong together. -/
def verifyEvent : Except MeshError Unit := do
  require (entry.envelope.eventId = entry.event.id) <| MeshError.syncBundle
    (s!"event envelope id {showUuid entry.envelope.eventId} does not match event " ++
      s!"{showUuid entry.event.id}")
  require (entry.envelope.streamId = entry.event.stream) <| MeshError.syncBundle
    s!"event {showUuid entry.event.id} stream mismatch"
  require (payloadHash crypto entry.event = entry.envelope.payloadHash) <| MeshError.syncBundle
    s!"event {showUuid entry.event.id} payload hash mismatch"

/-- The checks of a bundle. -/
def SyncBundle.verify (bundle : SyncBundle) : Except MeshError Unit := do
  require (bundle.version = syncBundleVersion) <| MeshError.syncBundle
    s!"unsupported sync bundle version {bundle.version}"
  require (bundle.eventCount = bundle.events.length) <| MeshError.syncBundle
    s!"event_count {bundle.eventCount} does not match {bundle.events.length} events"
  require (calculateChecksum crypto bundle = bundle.checksum) <| MeshError.syncBundle
    (s!"bundle checksum mismatch: expected {bundle.checksum}, calculated " ++
      s!"{calculateChecksum crypto bundle}")
  forAll (verifyEvent crypto) bundle.events

/-! ## Verifying an origin -/

/-- What a node knows about keys: its own id and key, and the keys it has pinned. -/
structure KeyRing where
  nodeId : NodeId
  /-- `mesh_verifying_key`. -/
  meshVerifyingKey : Option String
  knownNodeKeys : OrderedMap String String

/-- The key pinned for a node. -/
def KeyRing.pinnedKey (ring : KeyRing) (nodeId : NodeId) : Option String :=
  (ring.knownNodeKeys.get? (showUuid nodeId)).or
    (if nodeId = ring.nodeId then ring.meshVerifyingKey else none)

/-- Checks a signature against a key. -/
def verifyAgainst (signatureHex keyHex : String) : Except MeshError Unit :=
  let origin := showUuid entry.envelope.nodeId
  match (hexDecode keyHex).bind (toArray 32) with
  | none => .error <| .syncBundle s!"pinned key for {origin} is malformed"
  | some keyBytes =>
    match crypto.keyFromBytes keyBytes with
    | none => .error <| .syncBundle s!"pinned key for {origin} is invalid"
    | some key =>
      match (hexDecode signatureHex).bind (toArray 64) with
      | none => .error <| .syncBundle
          s!"event {showUuid entry.envelope.eventId} carries a malformed signature"
      | some signature =>
        if crypto.verifyStrict key (envelopeSigningMessage crypto entry) signature then .ok ()
        else .error <| .syncBundle
          (s!"event {showUuid entry.envelope.eventId} from {origin} fails origin signature " ++
            "verification")

/-- Checks the signature of an entry against what is pinned. -/
def verifyEnvelopeSignature (ring : KeyRing) (entry : SyncBundleEvent) (requireSigned : Bool) :
    Except MeshError Unit :=
  let origin := showUuid entry.envelope.nodeId
  let eventId := showUuid entry.envelope.eventId
  match entry.envelope.signature, ring.pinnedKey entry.envelope.nodeId with
  | some signatureHex, some keyHex => verifyAgainst crypto entry signatureHex.1 keyHex
  | some _, none =>
    if requireSigned then .error <| .syncBundle
      s!"signed event from unpinned origin {origin} refused under require_signed_imports"
    else .ok ()
  | none, some _ => .error <| .syncBundle
      s!"unsigned event {eventId} from pinned origin {origin} refused"
  | none, none =>
    if requireSigned then .error <| .syncBundle
      s!"unsigned event {eventId} from {origin} refused under require_signed_imports"
    else .ok ()

end Hashing

/-! ## What a receiver stores -/

/-- The envelope as metadata of the event. -/
def syncValue (envelope : EventEnvelope) : Json :=
  let fields : List (String × Json) := [("node_id", .string (showUuid envelope.nodeId)),
    ("payload_hash", .string (hexEncode envelope.payloadHash.toList)),
    ("sequence", .number (toString envelope.sequence.toNat)),
    ("stream_id", .string envelope.streamId.1),
    ("timestamp", .number (toString envelope.timestamp.toInt))]
  match envelope.signature with
  | some signature => .object (Json.insertField fields "signature" (.string signature.1))
  | none => .object fields

/-- Metadata with the envelope put in. -/
def metadataWithSync (metadata : Json) (envelope : EventEnvelope) : Json :=
  match metadata with
  | .object fields => .object (Json.insertField fields syncMetadataKey (syncValue envelope))
  | original => .object [(syncMetadataKey, syncValue envelope), (userMetadataKey, original)]

/-- The metadata of the user, as it is stored. -/
def storedUserMetadata (entry : SyncBundleEvent) : Json :=
  match metadataWithSync entry.event.metadata.1 entry.envelope with
  | .object fields => .object (Json.eraseField fields syncMetadataKey)
  | other => other

end BicDb.Mesh
