import BicDb.Distribution.Topology
import Mathlib.Data.List.Destutter

/-!
# Operations on members and ranges

An `Edit` is what an operation has done when its body ends: an error with the topology made by then,
nothing, or a topology for `commit_change`.
-/

namespace BicDb.Distribution

open BicDb.Foundation
open BicDb.Metadata (ClusterNodeLifecycle MetadataMemberRole)

def showRole : MetadataMemberRole → String
  | .learner => "Learner"
  | .voter => "Voter"

/-! ## Edits -/

/-- The body of an operation: refused with the topology as edited so far, answered, or committed. -/
inductive Edit (α : Type) where
  | refuse (error : BicDbError) (topology : ClusterTopology)
  | answer (value : α)
  | commit (topology : ClusterTopology) (actor : ClusterNodeId) (nowMs : Nat) (summary : String)
      (value : α)

variable (topology : ClusterTopology)

/-- Goes on if a check passes. -/
def Edit.checked {α β : Type} (check : Except BicDbError β) (rest : β → Edit α) : Edit α :=
  match check with
  | .error error => .refuse error topology
  | .ok value => rest value

namespace ClusterTopology

variable (topology : ClusterTopology)

/-- The topology with a node put in. -/
def setNode (id : ClusterNodeId) (node : ClusterNode) : ClusterTopology :=
  { topology with nodes := topology.nodes.insert id node }

/-- The topology with a relocation put in. -/
def setRelocation (id : RelocationId) (relocation : RangeRelocation) : ClusterTopology :=
  { topology with relocations := topology.relocations.insert id relocation }

/-- The topology with one range changed. -/
def modifyRange (rangeId : RangeId) (f : RangeDescriptor → RangeDescriptor) : ClusterTopology :=
  { topology with
    ranges := topology.ranges.modifyWhere (fun range => decide (range.id = rangeId)) f }

/-- The actor is a member that is not fenced. -/
def ensureActor (actor : ClusterNodeId) : Except BicDbError Unit :=
  match topology.nodes.get? actor with
  | none => .error <| clusterError s!"unknown cluster actor {actor}"
  | some node => require (node.lifecycle ≠ .decommissioned) <|
      clusterError s!"decommissioned cluster actor {actor} is fenced"

/-- A node, or the error for an unknown one. -/
def knownNode (nodeId : ClusterNodeId) : Except BicDbError ClusterNode :=
  match topology.nodes.get? nodeId with
  | none => .error <| clusterError s!"unknown cluster node {nodeId}"
  | some node => .ok node

/-- A range, or the error for an unknown one. -/
def knownRange (rangeId : RangeId) : Except BicDbError RangeDescriptor :=
  match topology.rangeById rangeId with
  | none => .error <| clusterError s!"unknown range {showRange rangeId}"
  | some range => .ok range

/-- Refuses while a relocation is active. -/
def ensureNoRelocation (action : String) (rangeId : RangeId) : Except BicDbError Unit :=
  match topology.activeRelocationForRange rangeId with
  | none => .ok ()
  | some relocation => .error <| clusterError <|
      s!"cannot {action} {showRange rangeId} during active relocation " ++
        s!"{showRelocation relocation.id}"

end ClusterTopology

open Edit (checked)

/-! ## Membership -/

/-- A join that repeats what is known. -/
def sameRegistration (existing node : ClusterNode) : Bool :=
  decide (existing.lifecycle = .active) && decide (existing.address = node.address) &&
    decide (existing.tlsCertificateSha256 = node.tlsCertificateSha256) &&
    decide (existing.pendingTlsCertificateSha256 = node.pendingTlsCertificateSha256) &&
    decide (existing.incarnation = node.incarnation) &&
    decide (existing.capacityBytes = node.capacityBytes) &&
    decide (existing.labels = node.labels) &&
    (decide (existing.metadataRole = node.metadataRole) ||
      (decide (existing.metadataRole = .voter) && decide (node.metadataRole = .learner)))

/-- What a join finds under the node's id. -/
def checkRejoin (node : ClusterNode) : Except BicDbError Bool :=
  match topology.nodes.get? node.id with
  | none => .ok true
  | some existing =>
    if sameRegistration existing node then .ok false
    else do
      require (existing.lifecycle = .decommissioned) <| clusterError <|
        s!"cluster node {node.id} already exists at incarnation {existing.incarnation} and " ++
          s!"address {existing.address}"
      require (existing.incarnation < node.incarnation) <| clusterError <|
        s!"cluster node {node.id} must rejoin with incarnation greater than {existing.incarnation}"
      return true

/-- The join behind both variants. -/
def joinNodeWithRole (node : ClusterNode) (actor : ClusterNodeId) (nowMs : Nat) : Edit Bool :=
  checked topology (topology.ensureActor actor) fun _ =>
  checked topology (require (node.lifecycle = .active) <|
    clusterError "a joining node must be active") fun _ =>
  checked topology (checkRejoin topology node) fun joins =>
    if joins then
      .commit (topology.setNode node.id node) actor nowMs
        s!"node {node.id} joined as metadata {showRole node.metadataRole}" true
    else .answer false

/-- Joins a voter. -/
def joinNode (node : ClusterNode) (actor : ClusterNodeId) (nowMs : Nat) : Edit Bool :=
  checked topology (require (node.metadataRole = .voter) <| clusterError
    "join_node requires a metadata voter; use join_metadata_learner for bootstrap") fun _ =>
    joinNodeWithRole topology node actor nowMs

/-- Joins a metadata learner. -/
def joinMetadataLearner (node : ClusterNode) (actor : ClusterNodeId) (nowMs : Nat) : Edit Bool :=
  checked topology (require (node.metadataRole = .learner) <| clusterError
    "metadata bootstrap node must have the learner role") fun _ =>
    joinNodeWithRole topology node actor nowMs

/-- Makes a learner a voter. -/
def promoteMetadataLearner (nodeId actor : ClusterNodeId) (nowMs : Nat) : Edit Bool :=
  checked topology (topology.ensureActor actor) fun _ =>
  checked topology (topology.knownNode nodeId) fun node =>
  checked topology (require (node.lifecycle = .active) <|
    clusterError s!"metadata learner {nodeId} is not active") fun _ =>
    if node.metadataRole = .voter then .answer false
    else
      .commit (topology.setNode nodeId { node with metadataRole := .voter }) actor nowMs
        s!"node {nodeId} promoted to metadata voter" true

variable (nodeId : ClusterNodeId)

/-- The active certificate, and whether a new one is staged. -/
def checkRotation (node : ClusterNode) (next : String) : Except BicDbError Bool :=
  match node.tlsCertificateSha256 with
  | none => .error <| clusterError <|
      s!"cluster node {nodeId} must bind its active TLS certificate before rotation"
  | some active =>
    if active = next then do
      require (node.pendingTlsCertificateSha256.isNone = true) <| clusterError <|
        s!"cluster node {nodeId} cannot stage its active certificate while another rotation is " ++
          "pending"
      return false
    else
      match node.pendingTlsCertificateSha256 with
      | none => .ok true
      | some pending => do
        require (pending = next) <| clusterError <|
          s!"cluster node {nodeId} already has a different pending TLS certificate"
        return false

/-- Starts a certificate rotation. -/
def stageTlsCertificateRotation (nodeId : ClusterNodeId) (nextTlsCertificateSha256 : String)
    (actor : ClusterNodeId) (nowMs : Nat) : Edit Bool :=
  checked topology (topology.ensureActor actor) fun _ =>
  checked topology (require (actor = nodeId) <| clusterError
    "a node may stage a TLS certificate rotation only for its own identity") fun _ =>
  checked topology (validateCertificateSha256 nextTlsCertificateSha256) fun _ =>
  checked topology (topology.knownNode nodeId) fun node =>
  checked topology (require (node.lifecycle = .active) <|
    clusterError s!"cluster node {nodeId} is not active") fun _ =>
  checked topology (checkRotation nodeId node nextTlsCertificateSha256) fun stages =>
    if stages then
      .commit (topology.setNode nodeId
        { node with pendingTlsCertificateSha256 := some nextTlsCertificateSha256 }) actor nowMs
        s!"node {nodeId} staged a TLS certificate rotation" true
    else .answer false

/-- Gives a rotation up. -/
def abortTlsCertificateRotation (nodeId actor : ClusterNodeId) (nowMs : Nat) : Edit Bool :=
  checked topology (topology.ensureActor actor) fun _ =>
  checked topology (require (actor = nodeId) <| clusterError
    "a node may abort a TLS certificate rotation only for its own identity") fun _ =>
  checked topology (topology.knownNode nodeId) fun node =>
  checked topology (require (node.lifecycle = .active) <|
    clusterError s!"cluster node {nodeId} is not active") fun _ =>
    if node.pendingTlsCertificateSha256.isNone then .answer false
    else
      .commit
        (topology.setNode nodeId { node with pendingTlsCertificateSha256 := none }) actor nowMs
        s!"node {nodeId} aborted its TLS certificate rotation" true

/-! ## Ranges -/

/-- The copies of the replicas that a split makes, with ids from `next` on; `none` where the ids run
out. -/
def copyReplicas : Nat → List RangeReplica → Option (List RangeReplica) × Nat
  | next, [] => (some [], next)
  | next, replica :: rest =>
    match checkedSucc next with
    | none => (none, next)
    | some next' =>
      match copyReplicas next' rest with
      | (none, last) => (none, last)
      | (some copies, last) => (some (⟨next, replica.nodeId, replica.role⟩ :: copies), last)

/-- The lower half of a split range. -/
def splitLeft (original : RangeDescriptor) (splitToken epoch : Nat) : RangeDescriptor :=
  { original with
    endToken := some splitToken
    epoch := epoch
    approximateBytes := original.approximateBytes / 2
    approximateQps := original.approximateQps / 2 }

/-- The upper half, with new replicas. -/
def splitRight (original : RangeDescriptor) (newRangeId splitToken epoch : Nat)
    (replicas : List RangeReplica) : RangeDescriptor :=
  { original with
    id := newRangeId
    startToken := splitToken
    epoch := epoch
    replicas := replicas
    approximateBytes := original.approximateBytes - original.approximateBytes / 2
    approximateQps := original.approximateQps - original.approximateQps / 2 }

/-- The entry of a range in the map. -/
def ClusterTopology.rangeEntry (rangeId : RangeId) : Except BicDbError (Nat × RangeDescriptor) :=
  match topology.ranges.entries.find? fun entry => entry.2.id = rangeId with
  | none => .error <| clusterError s!"unknown range {showRange rangeId}"
  | some entry => .ok entry

/-- Splits a range at a token. -/
def splitRange (rangeId : RangeId) (splitToken : Nat) (actor : ClusterNodeId) (nowMs : Nat) :
    Edit RangeId :=
  checked topology (topology.ensureActor actor) fun _ =>
  checked topology (topology.ensureNoRelocation "split range" rangeId) fun _ =>
  checked topology (topology.rangeEntry rangeId) fun entry =>
  let original := entry.2
  checked topology (require (original.startToken < splitToken ∧
      ∀ stop ∈ original.endToken, splitToken < stop) <| clusterError <|
    s!"split token {splitToken} is not inside range {showRange original.id} " ++
      s!"[{original.startToken}, {debugOption original.endToken})")
    fun _ =>
    match checkedSucc topology.nextRangeId with
    | none => .refuse (clusterError "range id space exhausted") topology
    | some nextRangeId =>
      let topology₁ := { topology with nextRangeId := nextRangeId }
      match checkedSucc original.epoch with
      | none =>
        .refuse (clusterError s!"range {showRange rangeId} epoch space exhausted") topology₁
      | some nextEpoch =>
        match copyReplicas topology.nextReplicaId original.replicas with
        | (none, nextReplicaId) =>
          .refuse (clusterError "replica id space exhausted")
            { topology₁ with nextReplicaId := nextReplicaId }
        | (some copies, nextReplicaId) =>
          let newRangeId := topology.nextRangeId
          let ranges := (topology.ranges.insert entry.1
              (splitLeft original splitToken nextEpoch)).insert splitToken
              (splitRight original newRangeId splitToken nextEpoch copies)
          .commit { topology₁ with nextReplicaId := nextReplicaId, ranges := ranges } actor nowMs
            s!"range {showRange rangeId} split at token {splitToken} into {showRange newRangeId}"
            newRangeId

/-- Nodes and roles of a range. -/
def RangeDescriptor.layout (range : RangeDescriptor) : List (ClusterNodeId × RangeReplicaRole) :=
  range.replicas.map fun replica => (replica.nodeId, replica.role)

/-- Merges two neighbours. -/
def mergeRanges (firstId secondId : RangeId) (actor : ClusterNodeId) (nowMs : Nat) : Edit RangeId :=
  checked topology (topology.ensureActor actor) fun _ =>
  checked topology (require (firstId ≠ secondId) <|
    clusterError "cannot merge a range with itself") fun _ =>
  checked topology (topology.ensureNoRelocation "merge range" firstId) fun _ =>
  checked topology (topology.ensureNoRelocation "merge range" secondId) fun _ =>
  checked topology (topology.rangeEntry firstId) fun first =>
  checked topology (topology.rangeEntry secondId) fun second =>
  let left := if first.1 < second.1 then first else second
  let right := if first.1 < second.1 then second else first
  checked topology (require (left.2.endToken = some right.2.startToken) <| clusterError <|
    s!"ranges {showRange left.2.id} and {showRange right.2.id} are not adjacent") fun _ =>
  checked topology (require (left.2.layout = right.2.layout ∧ left.2.leader = right.2.leader ∧
      left.2.placement = right.2.placement) <| clusterError <|
    s!"ranges {showRange left.2.id} and {showRange right.2.id} have incompatible replica or " ++
      "placement state")
    fun _ =>
    -- the merged descriptor is built aside: nothing is edited when its epoch cannot be raised
    match checkedSucc (max left.2.epoch right.2.epoch) with
    | none => .refuse (clusterError "range epoch space exhausted") topology
    | some epoch =>
      let merged := { left.2 with
        endToken := right.2.endToken
        epoch := epoch
        approximateBytes := satAdd left.2.approximateBytes right.2.approximateBytes
        approximateQps := satAdd left.2.approximateQps right.2.approximateQps }
      .commit { topology with ranges := (topology.ranges.insert left.1 merged).erase right.1 }
        actor nowMs
        (s!"ranges {showRange firstId} and {showRange secondId} merged into retained range " ++
          s!"{showRange merged.id}")
        merged.id

/-- `sort` and `dedup` of the failure domains. -/
def PlacementPolicy.normalize (placement : PlacementPolicy) : PlacementPolicy :=
  { placement with
    distinctFailureDomains :=
      (placement.distinctFailureDomains.insertionSort (· ≤ ·)).destutter (· ≠ ·) }

/-- Changes where replicas may lie. -/
def setRangePlacement (rangeId : RangeId) (placement : PlacementPolicy) (actor : ClusterNodeId)
    (nowMs : Nat) : Edit Bool :=
  checked topology (topology.ensureActor actor) fun _ =>
  checked topology (topology.ensureNoRelocation "change placement for range" rangeId) fun _ =>
  checked topology placement.normalize.validate fun _ =>
  checked topology (topology.knownRange rangeId) fun range =>
    if range.placement = placement.normalize then .answer false
    else
      match checkedSucc range.epoch with
      | none =>
        .refuse (clusterError s!"range {showRange rangeId} epoch space exhausted")
          (topology.modifyRange rangeId fun range =>
            { range with placement := placement.normalize })
      | some epoch =>
        .commit (topology.modifyRange rangeId fun range =>
            { range with placement := placement.normalize, epoch := epoch }) actor nowMs
          s!"range {showRange rangeId} placement policy changed" true

/-- Records the load of a range. -/
def updateRangeLoad (rangeId : RangeId) (approximateBytes approximateQps : Nat)
    (actor : ClusterNodeId) (nowMs : Nat) : Edit Bool :=
  checked topology (topology.ensureActor actor) fun _ =>
  checked topology (topology.knownRange rangeId) fun range =>
    if range.approximateBytes = approximateBytes ∧ range.approximateQps = approximateQps then
      .answer false
    else
      .commit (topology.modifyRange rangeId fun range =>
          { range with approximateBytes := approximateBytes, approximateQps := approximateQps })
        actor nowMs
        (s!"range {showRange rangeId} load updated: bytes={approximateBytes} " ++
          s!"qps={approximateQps}") true

/-! ## Heartbeats -/

/-- The labels a heartbeat may set, the schema labels kept. -/
def heartbeatLabels (node : ClusterNode) (labels : Labels) : Except BicDbError Labels :=
  match node.labels.get? schemaCompatibilityTargetNodeLabel with
  | some pending => do
    require (∀ requested ∈ labels.get? schemaCompatibilityTargetNodeLabel,
        requested = pending) <| clusterError <|
      s!"cluster node {nodeId} cannot replace its quorum-managed pending schema target"
    let labels := labels.insert schemaCompatibilityTargetNodeLabel pending
    match node.labels.get? schemaCompatibilityNodeLabel with
    | none => return labels
    | some active => return labels.insert schemaCompatibilityNodeLabel active
  | none =>
    if labels.contains schemaCompatibilityTargetNodeLabel then
      .error <| clusterError <|
        s!"cluster node {nodeId} cannot create a quorum-managed pending schema target by heartbeat"
    else
      match node.labels.get? schemaCompatibilityNodeLabel with
      | none => .ok labels
      | some current => do
        require (labels.get? schemaCompatibilityNodeLabel = some current) <| clusterError <|
          s!"cluster node {nodeId} cannot remove or replace its quorum-managed active schema " ++
            "fingerprint by heartbeat"
        return labels

/-- The certificate of a heartbeat is one the node may use. -/
def checkHeartbeatCertificate (node : ClusterNode) : Option String → Except BicDbError Unit
  | none => .ok ()
  | some fingerprint => do
    validateCertificateSha256 fingerprint
    require (node.tlsCertificateSha256.isSome = true →
        node.acceptsTlsCertificateSha256 fingerprint = true) <| clusterError <|
      s!"cluster node {nodeId} TLS certificate fingerprint does not match membership"

/-- A pending certificate becomes active when it is used. -/
def bindCertificate (node : ClusterNode) : Option String → ClusterNode
  | none => node
  | some fingerprint =>
    if node.pendingTlsCertificateSha256 = some fingerprint then
      { node with
        tlsCertificateSha256 := some fingerprint
        pendingTlsCertificateSha256 := none }
    else if node.tlsCertificateSha256 = none then
      { node with tlsCertificateSha256 := some fingerprint }
    else node

/-- Records a heartbeat. -/
def heartbeatWithCertificate (nodeId : ClusterNodeId) (incarnation usedBytes capacityBytes : Nat)
    (labels : Labels) (tlsCertificateSha256 : Option String) (nowMs : Nat) : Edit Bool :=
  checked topology (topology.knownNode nodeId) fun node =>
  checked topology (require (node.lifecycle ≠ .decommissioned) <|
    clusterError s!"decommissioned cluster node {nodeId} is fenced") fun _ =>
  checked topology (require (incarnation = node.incarnation) <| clusterError <|
    s!"cluster node {nodeId} incarnation mismatch: expected {node.incarnation}, got {incarnation}")
    fun _ =>
  checked topology (require (capacityBytes ≠ 0 ∧ usedBytes ≤ capacityBytes) <| clusterError <|
    s!"invalid heartbeat capacity for {nodeId}: used={usedBytes} capacity={capacityBytes}") fun _ =>
  checked topology (heartbeatLabels nodeId node labels) fun labels =>
  checked topology (forAll (fun label => validateLabel label.1 label.2) labels.entries) fun _ =>
  checked topology (checkHeartbeatCertificate nodeId node tlsCertificateSha256) fun _ =>
    if nowMs < node.lastHeartbeatMs then .answer false
    else if node.usedBytes = usedBytes ∧ node.capacityBytes = capacityBytes ∧ node.labels = labels ∧
        ¬ (node.tlsCertificateSha256 = none ∧ tlsCertificateSha256.isSome = true) ∧
        (∀ pending ∈ node.pendingTlsCertificateSha256, tlsCertificateSha256 ≠ some pending) ∧
        node.lastHeartbeatMs = nowMs then
      .answer false
    else
      .commit (topology.setNode nodeId { bindCertificate node tlsCertificateSha256 with
          usedBytes := usedBytes
          capacityBytes := capacityBytes
          labels := labels
          lastHeartbeatMs := nowMs }) nodeId nowMs
        s!"node {nodeId} heartbeat updated" true

/-! ## Removing a node -/

/-- Starts to drain a node. -/
def beginDrain (nodeId actor : ClusterNodeId) (nowMs : Nat) : Edit Bool :=
  checked topology (topology.ensureActor actor) fun _ =>
  checked topology (topology.knownNode nodeId) fun node =>
    match node.lifecycle with
    | .active =>
      .commit (topology.setNode nodeId { node with lifecycle := .draining }) actor nowMs
        s!"node {nodeId} began draining" true
    | .draining => .answer false
    | .decommissioned =>
      .refuse (clusterError s!"cluster node {nodeId} is already decommissioned") topology

/-- Why a node can or cannot be removed. -/
structure NodeRemovalSafety where
  nodeId : ClusterNodeId
  canDecommission : Bool
  replicaRanges : List RangeId
  leaderRanges : List RangeId
  activeRelocations : List RelocationId
  placementBlockedRanges : List RangeId
  remainingActiveNodes : Nat
  requiredActiveNodes : Nat
  reasons : List String

/-- An active metadata voter other than the node. -/
def remainsActive (candidate : ClusterNode) : Bool :=
  decide (candidate.id ≠ nodeId) && decide (candidate.lifecycle = .active) &&
    decide (candidate.metadataRole = .voter)

/-- Assesses a removal. -/
def assessNodeRemoval (nodeId : ClusterNodeId) : Except BicDbError NodeRemovalSafety := do
  let node ← topology.knownNode nodeId
  let ranges := topology.ranges.values
  let replicaRanges := (ranges.filter fun range => range.hasReplica nodeId).map (·.id)
  let leaderRanges := (ranges.filter fun range => range.leader = nodeId).map (·.id)
  let eligibleAfterRemoval := fun range : RangeDescriptor =>
    (topology.nodes.values.filter fun candidate =>
      remainsActive nodeId candidate && range.placement.nodeIsEligible candidate &&
        (range.nodeSchemaIsCompatible topology.nodes candidate ||
          RangeDescriptor.nodeAcceptsSchemaBootstrap candidate)).length
  let placementBlockedRanges := (ranges.filter fun range =>
    eligibleAfterRemoval range < topology.replicationFactor).map (·.id)
  let activeRelocations := (topology.relocations.values.filter fun relocation =>
    relocation.isActive &&
      (decide (relocation.source = some nodeId) || decide (relocation.target = nodeId))).map (·.id)
  let remainingActiveNodes := (topology.nodes.values.filter (remainsActive nodeId)).length
  let requiredActiveNodes := topology.replicationFactor
  let reasons :=
    (if node.lifecycle = .active then ["node must enter draining state first"] else []) ++
    (if replicaRanges.isEmpty then []
      else [s!"node still hosts {replicaRanges.length} range replicas"]) ++
    (if leaderRanges.isEmpty then []
      else [s!"node still leads {leaderRanges.length} ranges"]) ++
    (if activeRelocations.isEmpty then []
      else [s!"node participates in {activeRelocations.length} active relocations"]) ++
    (if remainingActiveNodes < requiredActiveNodes then
      [s!"only {remainingActiveNodes} active nodes would remain; replication factor requires " ++
         s!"{requiredActiveNodes}"]
      else []) ++
    (if placementBlockedRanges.isEmpty then []
      else [s!"{placementBlockedRanges.length} ranges would lack enough placement-eligible nodes"])
  return {
    nodeId := nodeId
    canDecommission := reasons.isEmpty || decide (node.lifecycle = .decommissioned)
    replicaRanges := replicaRanges
    leaderRanges := leaderRanges
    activeRelocations := activeRelocations
    placementBlockedRanges := placementBlockedRanges
    remainingActiveNodes := remainingActiveNodes
    requiredActiveNodes := requiredActiveNodes
    reasons := reasons }

/-- `decommission_node`; `localNode` is the store's own node. -/
def decommissionNode (localNode nodeId actor : ClusterNodeId) (nowMs : Nat) : Edit Bool :=
  checked topology (topology.ensureActor actor) fun _ =>
  checked topology (require (nodeId ≠ localNode) <|
    clusterError "the local cluster node cannot decommission itself") fun _ =>
  checked topology (assessNodeRemoval topology nodeId) fun safety =>
  checked topology (require (safety.canDecommission = true) <| clusterError <|
    s!"cluster node {nodeId} cannot be decommissioned safely: " ++
      "; ".intercalate safety.reasons) fun _ =>
  checked topology (topology.knownNode nodeId) fun node =>
    match node.lifecycle with
    | .active => .refuse (clusterError
        s!"cluster node {nodeId} must be drained before decommission") topology
    | .draining =>
      .commit (topology.setNode nodeId { node with lifecycle := .decommissioned }) actor nowMs
        s!"node {nodeId} decommissioned" true
    | .decommissioned => .answer false

end BicDb.Distribution
