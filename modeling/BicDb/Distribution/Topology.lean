import BicDb.Foundation.Checks
import BicDb.Foundation.OrderedMap
import BicDb.Foundation.Saturating
import BicDb.Metadata.Topology
import Mathlib.Data.String.Basic

/-!
# The cluster topology

The topology of `distribution.rs` and its validation, which refuses at the first failing check, with
the source's text. `u64` numbers are natural numbers, identifiers carry the check of their `new`,
and ordered maps stand for `BTreeMap`.
-/

namespace BicDb.Distribution

open BicDb.Foundation
open BicDb.Metadata (ClusterNodeLifecycle MetadataMemberRole)

/-! ## Constants and errors -/

def distributionFormatVersion : Nat := 1

def distributionHashVersion : Nat := 1

def schemaCompatibilityNodeLabel : String := "bicdb.schema.sha256"

def schemaCompatibilityTargetNodeLabel : String := "bicdb.schema.pending.sha256"

def schemaBootstrapNodeLabel : String := "bicdb.schema.bootstrap"

def defaultAppliedPlanHistoryLimit : Nat := 64

def defaultRelocationHistoryLimit : Nat := 4096

/-- The cluster code's texts, and the errors of the file system and of `serde_json`. -/
inductive BicDbError where
  | cluster (message : String)
  | io
  | json
  deriving DecidableEq

def clusterError (message : String) : BicDbError := .cluster message

/-! ## Identifiers and labels -/

/-- What an identifier may look like. -/
def isIdentifier (value : String) : Bool :=
  !value.toList.isEmpty && decide (value.toList.length ≤ 128) && decide (value ≠ ".") &&
    decide (value ≠ "..") &&
    value.toList.all fun c => c.isAlphanum || c = '-' || c = '_' || c = '.'

/-- Refuses an invalid identifier of some kind. -/
def validateIdentifier (kind value : String) : Except BicDbError Unit :=
  require (isIdentifier value = true) <| clusterError <|
    s!"invalid {kind} `{value}`: use 1-128 ASCII letters, digits, '-', '_', or '.'"

/-- A SHA-256 digest in lower-case hex. -/
def isLowerSha256 (value : String) : Bool :=
  decide (value.toList.length = 64) && value.toList.all fun c => c.isDigit || ('a' ≤ c && c ≤ 'f')

/-- Checks a certificate fingerprint. -/
def validateCertificateSha256 (value : String) : Except BicDbError Unit :=
  require (isLowerSha256 value = true) <| clusterError
    "cluster node TLS certificate SHA-256 must be 64 lowercase hexadecimal digits"

/-- What a label value may look like. -/
def isLabelValue (value : String) : Bool :=
  !value.toList.isEmpty && decide (value.toList.length ≤ 128) &&
    value.toList.all fun c => c.isAlphanum || c = '-' || c = '_' || c = '.' || c = '/' || c = ':'

/-- Checks one label. -/
def validateLabel (key value : String) : Except BicDbError Unit := do
  validateIdentifier "node label key" key
  require (isLabelValue value = true) <| clusterError <|
    s!"invalid node label value `{value}` for `{key}`"

/-- A name that has passed its check. -/
abbrev Identifier := { name : String // isIdentifier name = true }

abbrev ClusterId := Identifier

abbrev ClusterNodeId := Identifier

/-! ## How numbers and names are printed -/

abbrev RangeId := Nat

abbrev ReplicaId := Nat

abbrev RelocationId := Nat

def showRange (id : RangeId) : String := s!"r{id}"

def showReplica (id : ReplicaId) : String := s!"replica-{id}"

def showRelocation (id : RelocationId) : String := s!"relocation-{id}"

/-- `Debug` of an optional number. -/
def debugOption : Option Nat → String
  | none => "None"
  | some n => s!"Some({n})"

/-! ## Nodes -/

/-- How a node looks by its last heartbeat. -/
inductive ClusterNodeLiveness where
  | live
  | suspect
  | dead
  | decommissioned
  deriving DecidableEq

abbrev Labels := OrderedMap String String

/-- A member of the cluster. -/
structure ClusterNode where
  id : ClusterNodeId
  address : String
  tlsCertificateSha256 : Option String
  pendingTlsCertificateSha256 : Option String
  incarnation : Nat
  lifecycle : ClusterNodeLifecycle
  metadataRole : MetadataMemberRole
  labels : Labels
  capacityBytes : Nat
  usedBytes : Nat
  joinedAtMs : Nat
  lastHeartbeatMs : Nat
  deriving DecidableEq

abbrev Nodes := OrderedMap ClusterNodeId ClusterNode

namespace ClusterNode

/-- A node that has just joined. -/
def new (id : ClusterNodeId) (address : String) (incarnation capacityBytes nowMs : Nat) :
    Except BicDbError ClusterNode := do
  require (isBlank address = false) <| clusterError "cluster node address must not be empty"
  require (incarnation ≠ 0) <| clusterError "cluster node incarnation must be greater than zero"
  require (capacityBytes ≠ 0) <| clusterError
    "cluster node capacity_bytes must be greater than zero"
  return ⟨id, address, none, none, incarnation, .active, .voter, ∅, capacityBytes, 0, nowMs, nowMs⟩

variable (node : ClusterNode)

/-- Whether a fingerprint is the active or the pending one. -/
def acceptsTlsCertificateSha256 (sha256 : String) : Bool :=
  node.tlsCertificateSha256 = some sha256 || node.pendingTlsCertificateSha256 = some sha256

/-- Liveness from the time since the last heartbeat. -/
def liveness (nowMs suspectAfterMs deadAfterMs : Nat) : ClusterNodeLiveness :=
  if node.lifecycle = .decommissioned then .decommissioned
  else
    let elapsed := nowMs - node.lastHeartbeatMs
    if deadAfterMs ≤ elapsed then .dead
    else if suspectAfterMs ≤ elapsed then .suspect
    else .live

/-- A voter of the metadata quorum. -/
def isMetadataVoter : Bool :=
  decide (node.lifecycle ≠ .decommissioned) && decide (node.metadataRole = .voter)

end ClusterNode

/-! ## Placement and ranges -/

/-- Where the replicas of a range may lie. -/
structure PlacementPolicy where
  requiredNodeLabels : Labels
  distinctFailureDomains : List String
  deriving DecidableEq

namespace PlacementPolicy

/-- Checks labels and failure domains. -/
def validate (placement : PlacementPolicy) : Except BicDbError Unit := do
  forAll (fun label => validateLabel label.1 label.2) placement.requiredNodeLabels.entries
  forAllSeen (fun seen label => do
      validateIdentifier "failure-domain label" label
      require (label ∉ seen) <| clusterError s!"duplicate failure-domain label `{label}`")
    [] placement.distinctFailureDomains

/-- Whether a node has the required labels. -/
def nodeIsEligible (placement : PlacementPolicy) (node : ClusterNode) : Bool :=
  placement.requiredNodeLabels.entries.all fun label => node.labels.get? label.1 = some label.2

end PlacementPolicy

/-- What a replica is in its range. -/
inductive RangeReplicaRole where
  | voter
  | learner
  deriving DecidableEq

def RangeReplicaRole.debug : RangeReplicaRole → String
  | .voter => "Voter"
  | .learner => "Learner"

/-- A copy of a range on a node. -/
structure RangeReplica where
  id : ReplicaId
  nodeId : ClusterNodeId
  role : RangeReplicaRole
  deriving DecidableEq

/-- A range of tokens with its replicas and leader; the epoch fences. -/
structure RangeDescriptor where
  id : RangeId
  startToken : Nat
  endToken : Option Nat
  epoch : Nat
  replicas : List RangeReplica
  leader : ClusterNodeId
  approximateBytes : Nat
  approximateQps : Nat
  placement : PlacementPolicy
  deriving DecidableEq

namespace RangeDescriptor

variable (range : RangeDescriptor)

/-- Whether a token lies in the range. -/
def containsToken (token : Nat) : Bool :=
  decide (range.startToken ≤ token) && range.endToken.all fun stop => decide (token < stop)

/-- Whether a node has a voting replica. -/
def hasVoter (nodeId : ClusterNodeId) : Bool :=
  range.replicas.any fun replica =>
    decide (replica.nodeId = nodeId) && decide (replica.role = .voter)

/-- Whether a node has a replica. -/
def hasReplica (nodeId : ClusterNodeId) : Bool :=
  range.replicas.any fun replica => replica.nodeId = nodeId

/-- The schema of the leader's node. -/
def requiredSchemaSha256 (nodes : Nodes) : Option String :=
  (nodes.get? range.leader).bind fun node => node.labels.get? schemaCompatibilityNodeLabel

/-- Whether a node has the leader's schema, where the leader has one. -/
def nodeSchemaIsCompatible (nodes : Nodes) (node : ClusterNode) : Bool :=
  (range.requiredSchemaSha256 nodes).all fun required =>
    node.labels.get? schemaCompatibilityNodeLabel = some required

/-- Whether a node claims that it can be given a schema. -/
def nodeAcceptsSchemaBootstrap (node : ClusterNode) : Bool :=
  node.labels.get? schemaBootstrapNodeLabel = some "true"

/-- Checks a replica against those before it. -/
def validateReplica (nodes : Nodes) (seen : List RangeReplica) (replica : RangeReplica) :
    Except BicDbError Unit := do
  require (∀ other ∈ seen, other.id ≠ replica.id) <| clusterError <|
    s!"range {showRange range.id} has duplicate replica id {showReplica replica.id}"
  require (∀ other ∈ seen, other.nodeId ≠ replica.nodeId) <| clusterError <|
    s!"range {showRange range.id} has multiple replicas on node {replica.nodeId}"
  match nodes.get? replica.nodeId with
  | none => .error <| clusterError <|
      s!"range {showRange range.id} replica {showReplica replica.id} references unknown node " ++
        s!"{replica.nodeId}"
  | some node => require (node.metadataRole = .voter) <| clusterError <|
      s!"range {showRange range.id} replica {showReplica replica.id} is placed on metadata " ++
        s!"learner {replica.nodeId}"

/-- Checks one range. -/
def validate (nodes : Nodes) : Except BicDbError Unit := do
  require (range.id ≠ 0 ∧ range.epoch ≠ 0) <| clusterError <|
    s!"range {showRange range.id} must have non-zero id and epoch"
  require (∀ stop ∈ range.endToken, range.startToken < stop) <| clusterError <|
    s!"range {showRange range.id} has invalid token interval [{range.startToken}, " ++
      s!"{debugOption range.endToken})"
  range.placement.validate
  require (range.replicas ≠ []) <| clusterError <|
    s!"range {showRange range.id} must have at least one replica"
  forAllSeen (range.validateReplica nodes) [] range.replicas
  require (range.hasVoter range.leader = true) <| clusterError <|
    s!"range {showRange range.id} leader {range.leader} is not a voting replica"

end RangeDescriptor

abbrev Ranges := OrderedMap Nat RangeDescriptor

/-- `bootstrap_ranges`, with the next range id and replica id. -/
def bootstrapRanges (count : Nat) (localNode : ClusterNodeId) (placement : PlacementPolicy) :
    Except BicDbError (Ranges × Nat × Nat) := do
  require (count ≠ 0 ∧ count ≤ 65536 ∧ count.isPowerOfTwo) <| clusterError
    "distribution initial_ranges must be a power of two between 1 and 65536"
  placement.validate
  let width := (u64Max + 1) / count
  let descriptor := fun index : Nat =>
    { id := index + 1
      startToken := index * width
      endToken := if index + 1 = count then none else some ((index + 1) * width)
      epoch := 1
      replicas := [⟨index + 1, localNode, .voter⟩]
      leader := localNode
      approximateBytes := 0
      approximateQps := 0
      placement := placement : RangeDescriptor }
  let ranges := (List.range count).foldl
    (fun (ranges : Ranges) index => ranges.insert (index * width) (descriptor index)) ∅
  return (ranges, count + 1, count + 1)

/-- What the check of the ranges has seen so far. -/
structure RangeWalk where
  expectedStart : Nat
  sawOpenEnd : Bool
  rangeIds : List RangeId
  globalReplicaIds : List ReplicaId

/-- The loop of `validate_range_map`: the walk at its end. -/
def walkRanges (nodes : Nodes) : RangeWalk → List (Nat × RangeDescriptor) →
    Except BicDbError RangeWalk
  | walk, [] => .ok walk
  | walk, (start, range) :: rest => do
    require (start = range.startToken) <| clusterError <|
      s!"range map key {start} does not match range {showRange range.id} start {range.startToken}"
    require (walk.sawOpenEnd = false) <| clusterError "range appears after the end of token space"
    require (start = walk.expectedStart) <| clusterError <|
      s!"token-space gap or overlap: expected range start {walk.expectedStart}, got {start}"
    require (range.id ∉ walk.rangeIds) <| clusterError s!"duplicate range id {showRange range.id}"
    range.validate nodes
    forAll (fun replica => require (replica.id ∉ walk.globalReplicaIds) <| clusterError
        s!"replica id {showReplica replica.id} is reused across ranges") range.replicas
    walkRanges nodes
      { expectedStart := range.endToken.getD walk.expectedStart
        sawOpenEnd := range.endToken.isNone
        rangeIds := range.id :: walk.rangeIds
        globalReplicaIds := range.replicas.map (·.id) ++ walk.globalReplicaIds } rest

/-- Checks that the ranges cover every token once. -/
def validateRangeMap (ranges : Ranges) (nodes : Nodes) : Except BicDbError Unit := do
  require (ranges.entries ≠ []) <| clusterError "cluster topology must contain at least one range"
  let walk ← walkRanges nodes ⟨0, false, [], []⟩ ranges.entries
  require (walk.sawOpenEnd = true) <| clusterError
    "final range does not cover the end of token space"

/-! ## Relocations -/

/-- Why a replica is moved. -/
inductive ReplicaMoveReason where
  | underReplicated
  | deadReplica
  | drainingReplica
  | placementViolation
  | loadBalance
  deriving DecidableEq

/-- The phases of a relocation. -/
inductive RelocationPhase where
  | learnerAllocated
  | snapshotCopying
  | catchingUp
  | readyToPromote
  | promoted
  | cleaningUp
  | completed
  | failed
  deriving DecidableEq

def RelocationPhase.debug : RelocationPhase → String
  | .learnerAllocated => "LearnerAllocated"
  | .snapshotCopying => "SnapshotCopying"
  | .catchingUp => "CatchingUp"
  | .readyToPromote => "ReadyToPromote"
  | .promoted => "Promoted"
  | .cleaningUp => "CleaningUp"
  | .completed => "Completed"
  | .failed => "Failed"

/-- The move of a replica, with its progress. -/
structure RangeRelocation where
  id : RelocationId
  planId : String
  rangeId : RangeId
  expectedEpoch : Nat
  learnerEpoch : Nat
  promotedEpoch : Option Nat
  source : Option ClusterNodeId
  target : ClusterNodeId
  targetReplicaId : ReplicaId
  reason : ReplicaMoveReason
  phase : RelocationPhase
  resumePhase : Option RelocationPhase
  snapshotId : Option String
  snapshotSha256 : Option String
  snapshotBytesCopied : Nat
  snapshotResumeAfterKey : Option String
  snapshotCommitSequence : Option Nat
  destinationDurableCommitSequence : Option Nat
  sourceCommitSequence : Option Nat
  cleanupResumeAfterKey : Option String
  cleanupRecordsDeleted : Nat
  createdAtMs : Nat
  updatedAtMs : Nat
  lastError : Option String
  deriving DecidableEq

abbrev Relocations := OrderedMap RelocationId RangeRelocation

/-- One entry of the topology history. -/
structure TopologyChange where
  generation : Nat
  atMs : Nat
  actor : ClusterNodeId
  summary : String
  deriving DecidableEq

/-- The cluster as its nodes agree on it. -/
structure ClusterTopology where
  formatVersion : Nat
  hashVersion : Nat
  clusterId : ClusterId
  generation : Nat
  replicationFactor : Nat
  nodes : Nodes
  ranges : Ranges
  nextRangeId : Nat
  nextReplicaId : Nat
  nextRelocationId : Nat
  relocations : Relocations
  appliedRebalancePlans : List String
  history : List TopologyChange
  deriving DecidableEq

namespace RangeRelocation

variable (relocation : RangeRelocation)

/-- Every phase but the terminal one. -/
def isActive : Bool := decide (relocation.phase ≠ .completed)

/-- Whether the snapshot has been identified. -/
def hasSnapshotMetadata : Bool :=
  relocation.snapshotId.isSome && relocation.snapshotSha256.isSome &&
    relocation.snapshotCommitSequence.isSome

/-- The role that the target replica has by the phase. -/
def expectedRole : RangeReplicaRole :=
  if relocation.phase ∈ [.promoted, .cleaningUp, .completed] ∨
      (relocation.phase = .failed ∧
        ∃ phase ∈ relocation.resumePhase, phase ∈ [RelocationPhase.promoted, .cleaningUp]) then
    .voter
  else .learner

/-- The epoch checks; a failed relocation is not checked. -/
def validateEpoch (range : RangeDescriptor) : Except BicDbError Unit :=
  if relocation.phase ∈ [.promoted, .cleaningUp] then
    require (range.epoch = relocation.promotedEpoch.getD 0) <| clusterError <|
      s!"promoted relocation {showRelocation relocation.id} does not match range epoch " ++
        s!"{range.epoch}"
  else
    require (relocation.phase ∈ [.completed, .failed] ∨ range.epoch = relocation.learnerEpoch) <|
      clusterError <|
        s!"relocation {showRelocation relocation.id} learner epoch {relocation.learnerEpoch} is " ++
          s!"stale; range is at {range.epoch}"

/-- Checks a relocation against its range and target. -/
def validateAgainst (range : RangeDescriptor) (target : RangeReplica) : Except BicDbError Unit := do
  require (target.nodeId = relocation.target) <| clusterError <|
    s!"relocation {showRelocation relocation.id} target replica belongs to {target.nodeId}, " ++
      s!"expected {relocation.target}"
  require (target.role = relocation.expectedRole) <| clusterError <|
    s!"relocation {showRelocation relocation.id} target replica role is {target.role.debug}, " ++
      s!"expected {relocation.expectedRole.debug}"
  relocation.validateEpoch range
  require (relocation.phase = .failed → relocation.resumePhase.isSome = true) <| clusterError <|
    s!"failed relocation {showRelocation relocation.id} has no resumable phase"
  require (relocation.phase ≠ .failed → relocation.resumePhase.isNone = true) <| clusterError <|
    s!"non-failed relocation {showRelocation relocation.id} has a resume phase"
  require (relocation.phase ∈ [.catchingUp, .readyToPromote, .promoted, .cleaningUp, .completed] →
      relocation.hasSnapshotMetadata = true) <| clusterError <|
    s!"relocation {showRelocation relocation.id} advanced without durable snapshot metadata"
  require (relocation.phase = .readyToPromote → relocation.sourceCommitSequence.getD u64Max ≤
        relocation.destinationDurableCommitSequence.getD 0) <| clusterError <|
    s!"relocation {showRelocation relocation.id} is ready before destination parity"

/-- `RangeRelocation::validate`; `ranges` are the topology's. -/
def validate (relocation : RangeRelocation) (ranges : Ranges) : Except BicDbError Unit := do
  require (relocation.id ≠ 0 ∧ relocation.expectedEpoch ≠ 0 ∧ relocation.learnerEpoch ≠ 0) <|
    clusterError s!"relocation {showRelocation relocation.id} has an invalid zero id or epoch"
  require (relocation.planId ≠ "") <| clusterError
    s!"relocation {showRelocation relocation.id} has an empty plan id"
  if relocation.phase = .completed then do
    require (relocation.promotedEpoch.isSome = true) <| clusterError
      s!"completed relocation {showRelocation relocation.id} has no promoted epoch"
    require (relocation.hasSnapshotMetadata = true) <| clusterError
      s!"completed relocation {showRelocation relocation.id} has no durable snapshot metadata"
  else
    match ranges.values.find? fun range => range.id = relocation.rangeId with
    | none => .error <| clusterError <|
        s!"relocation {showRelocation relocation.id} references unknown range " ++
          s!"{showRange relocation.rangeId}"
    | some range =>
      match range.replicas.find? fun replica => replica.id = relocation.targetReplicaId with
      | none => .error <| clusterError <|
          s!"relocation {showRelocation relocation.id} target replica " ++
            s!"{showReplica relocation.targetReplicaId} is absent from range " ++
            s!"{showRange relocation.rangeId}"
      | some target => relocation.validateAgainst range target

end RangeRelocation

/-! ## The topology -/

namespace ClusterTopology

variable (topology : ClusterTopology)

/-- The range with an id. -/
def rangeById (rangeId : RangeId) : Option RangeDescriptor :=
  topology.ranges.values.find? fun range => range.id = rangeId

/-- The relocation of a range that is not completed. -/
def activeRelocationForRange (rangeId : RangeId) : Option RangeRelocation :=
  topology.relocations.values.find? fun relocation =>
    decide (relocation.rangeId = rangeId) && relocation.isActive

/-- The range that owns a token. -/
def rangeForToken (token : Nat) : Except BicDbError RangeDescriptor :=
  match (topology.ranges.entries.filter fun entry => decide (entry.1 ≤ token)).getLast? with
  | none => .error <| clusterError s!"no range owns token {token}"
  | some entry =>
    if entry.2.containsToken token then .ok entry.2
    else .error <| clusterError s!"no range owns token {token}"

variable (id : ClusterNodeId)

/-- Checks the labels that carry schema state. -/
def validateSchemaLabel (key value : String) : Except BicDbError Unit := do
  require (key = schemaCompatibilityNodeLabel ∨ key = schemaCompatibilityTargetNodeLabel →
      isLowerSha256 value = true) <| clusterError <|
    s!"cluster node {id} has an invalid schema compatibility fingerprint"
  require (key = schemaBootstrapNodeLabel → value = "true") <| clusterError <|
    s!"cluster node {id} has an invalid schema bootstrap claim"

/-- Checks a certificate that is being rotated in. -/
def validatePendingCertificate (node : ClusterNode) : Except BicDbError Unit :=
  match node.pendingTlsCertificateSha256 with
  | none => .ok ()
  | some fingerprint => do
    validateCertificateSha256 fingerprint
    require (node.tlsCertificateSha256.isSome = true) <| clusterError <|
      s!"cluster node {id} cannot rotate an unbound TLS certificate"
    require (node.tlsCertificateSha256 ≠ some fingerprint) <| clusterError <|
      s!"cluster node {id} pending TLS certificate matches its active certificate"

/-- Checks one node. -/
def validateNode (node : ClusterNode) : Except BicDbError Unit := do
  require (id = node.id) <| clusterError <|
    s!"cluster node map key {id} does not match node id {node.id}"
  require (isBlank node.address = false) <| clusterError <|
    s!"cluster node {id} has an empty address"
  forAll validateCertificateSha256 node.tlsCertificateSha256.toList
  validatePendingCertificate id node
  require (node.incarnation ≠ 0) <| clusterError <|
    s!"cluster node {id} has an invalid zero incarnation"
  require (node.capacityBytes ≠ 0 ∧ node.usedBytes ≤ node.capacityBytes) <| clusterError <|
    s!"cluster node {id} has invalid capacity: used={node.usedBytes} capacity={node.capacityBytes}"
  forAll (fun label => do
      validateLabel label.1 label.2
      validateSchemaLabel id label.1 label.2) node.labels.entries

/-- Checks a relocation against those before it. -/
def validateRelocation (ranges : Ranges) (seen : List (RelocationId × RangeRelocation))
    (entry : RelocationId × RangeRelocation) : Except BicDbError Unit := do
  require (entry.1 = entry.2.id) <| clusterError <|
    s!"relocation map key {showRelocation entry.1} does not match {showRelocation entry.2.id}"
  entry.2.validate ranges
  require (∀ other ∈ seen, other.2.isActive = true → entry.2.isActive = true →
      other.2.rangeId ≠ entry.2.rangeId) <| clusterError <|
    s!"range {showRange entry.2.rangeId} has more than one active relocation"

/-- Generations never fall along the history. -/
def validateHistory (generation : Nat) : Nat → List TopologyChange → Except BicDbError Unit
  | _, [] => .ok ()
  | previousGeneration, change :: rest => do
    require (change.generation ≠ 0 ∧ change.generation ≤ generation ∧
        previousGeneration ≤ change.generation) <| clusterError
      "cluster topology history is not generation ordered"
    validateHistory generation change.generation rest

/-- `ClusterTopology::validate`, check by check. -/
def validate (topology : ClusterTopology) : Except BicDbError Unit := do
  require (topology.formatVersion = distributionFormatVersion) <| clusterError <|
    s!"unsupported distribution format version {topology.formatVersion}; expected " ++
      s!"{distributionFormatVersion}"
  require (topology.hashVersion = distributionHashVersion) <| clusterError <|
    s!"unsupported distribution hash version {topology.hashVersion}; expected " ++
      s!"{distributionHashVersion}"
  require (topology.generation ≠ 0) <| clusterError
    "cluster topology generation must be greater than zero"
  require (topology.replicationFactor ≠ 0) <| clusterError
    "cluster replication factor must be greater than zero"
  require (topology.nodes.entries ≠ []) <| clusterError
    "cluster topology must contain at least one node"
  require (topology.nodes.values.any ClusterNode.isMetadataVoter = true) <| clusterError
    "cluster topology must contain at least one metadata voter"
  require (topology.nextRangeId ≠ 0 ∧ topology.nextReplicaId ≠ 0 ∧
      topology.nextRelocationId ≠ 0) <| clusterError
    "cluster topology next range/replica/relocation ids must be greater than zero"
  forAll (fun entry => validateNode entry.1 entry.2) topology.nodes.entries
  validateRangeMap topology.ranges topology.nodes
  require ((∀ range ∈ topology.ranges.values, range.id < topology.nextRangeId) ∧
      ∀ range ∈ topology.ranges.values, ∀ replica ∈ range.replicas,
        replica.id < topology.nextReplicaId) <| clusterError
    "cluster topology next range/replica ids would reuse an existing id"
  require (∀ id ∈ topology.relocations.keys, id < topology.nextRelocationId) <| clusterError
    "cluster topology next relocation id would reuse an existing id"
  require (topology.relocations.size ≤ defaultRelocationHistoryLimit) <| clusterError
    "relocation history is unbounded"
  forAllSeen (validateRelocation topology.ranges) [] topology.relocations.entries
  require (topology.appliedRebalancePlans.length ≤ defaultAppliedPlanHistoryLimit) <| clusterError
    "applied rebalance plan history is unbounded"
  validateHistory topology.generation 0 topology.history

/-- The largest generation stays as it is. -/
def recordChange (actor : ClusterNodeId) (atMs : Nat) (summary : String) (historyLimit : Nat) :
    ClusterTopology :=
  let generation := (checkedSucc topology.generation).getD topology.generation
  let history := topology.history ++ [⟨generation, atMs, actor, summary⟩]
  { topology with
    generation := generation
    history := history.drop (history.length - historyLimit) }

end ClusterTopology

end BicDb.Distribution
