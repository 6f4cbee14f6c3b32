import BicDb.Distribution.Relocations

/-!
# The topology store

`commit_change` reads the file again, refuses when its generation differs, raises the generation,
validates and writes; an ephemeral store only raises and validates. The JSON text reads back what
was written, the digest is arbitrary, a read may fail, and `write_atomic` may fail before or after
the rename.
-/

namespace BicDb.Distribution

open BicDb.Foundation

/-! ## Configuration -/

/-- What the transport check reads of `ReplicationTlsConfig`. -/
structure ReplicationTlsConfig where
  requireClientCert : Bool
  devLocalhostPlaintext : Bool
  deriving DecidableEq

/-- The limits of the transport. -/
structure ClusterNetworkTransportConfig where
  connectTimeoutMs : Nat
  ioTimeoutMs : Nat
  maxFrameBytes : Nat
  maxInboundConnections : Nat
  devLocalhostPlaintext : Bool
  tls : Option ReplicationTlsConfig
  deriving DecidableEq

def minClusterFrameBytes : Nat := 64 * 1024

def maxClusterFrameBytes : Nat := 512 * 1024 * 1024

/-- Checks the limits. -/
def ClusterNetworkTransportConfig.validate (transport : ClusterNetworkTransportConfig) :
    Except BicDbError Unit := do
  require (transport.connectTimeoutMs ≠ 0 ∧ transport.connectTimeoutMs ≤ 3600000) <| clusterError
    "cluster connect timeout must be between 1ms and 1h"
  require (transport.ioTimeoutMs ≠ 0 ∧ transport.ioTimeoutMs ≤ 3600000) <| clusterError
    "cluster I/O timeout must be between 1ms and 1h"
  require (minClusterFrameBytes ≤ transport.maxFrameBytes ∧
      transport.maxFrameBytes ≤ maxClusterFrameBytes) <| clusterError <|
    s!"cluster max frame bytes must be between {minClusterFrameBytes} and {maxClusterFrameBytes}"
  require (transport.maxInboundConnections ≠ 0 ∧ transport.maxInboundConnections ≤ 65536) <|
    clusterError "cluster inbound connection limit must be between 1 and 65536"
  if transport.devLocalhostPlaintext then
    require (transport.tls.isNone = true) <| clusterError
      "cluster localhost plaintext and TLS are mutually exclusive"
  else
    match transport.tls with
    | none => .error <| clusterError "mTLS is mandatory for cluster data RPC"
    | some tls => do
      require (tls.requireClientCert = true) <| clusterError
        "cluster data RPC requires mTLS client certificates"
      require (tls.devLocalhostPlaintext = false) <| clusterError
        "cluster TLS identity cannot enable replication plaintext mode"

/-- The configuration of a node. -/
structure DistributionConfig where
  enabled : Bool
  clusterId : ClusterId
  nodeId : ClusterNodeId
  nodeAddress : String
  nodeTlsCertificateSha256 : Option String
  nodeIncarnation : Nat
  nodeCapacityBytes : Nat
  replicationFactor : Nat
  initialRanges : Nat
  defaultPlacement : PlacementPolicy
  suspectAfterMs : Nat
  deadAfterMs : Nat
  topologyHistoryLimit : Nat
  metadataElectionTimeoutMs : Nat
  metadataHeartbeatIntervalMs : Nat
  transport : ClusterNetworkTransportConfig
  deriving DecidableEq

namespace DistributionConfig

/-- Checks the configuration. -/
def validate (config : DistributionConfig) : Except BicDbError Unit := do
  validateIdentifier "cluster id" config.clusterId.1
  validateIdentifier "cluster node id" config.nodeId.1
  require (isBlank config.nodeAddress = false) <| clusterError
    "distribution node_address must not be empty"
  forAll validateCertificateSha256 config.nodeTlsCertificateSha256.toList
  config.transport.validate
  require (config.nodeIncarnation ≠ 0) <| clusterError
    "distribution node_incarnation must be greater than zero"
  require (config.nodeCapacityBytes ≠ 0) <| clusterError
    "distribution node_capacity_bytes must be greater than zero"
  require (config.replicationFactor ≠ 0) <| clusterError
    "distribution replication_factor must be greater than zero"
  require (config.initialRanges ≠ 0 ∧ config.initialRanges ≤ 65536 ∧
      config.initialRanges.isPowerOfTwo) <| clusterError
    "distribution initial_ranges must be a power of two between 1 and 65536"
  config.defaultPlacement.validate
  require (config.suspectAfterMs ≠ 0 ∧ config.suspectAfterMs < config.deadAfterMs) <| clusterError
    "distribution dead_after_ms must be greater than non-zero suspect_after_ms"
  require (config.topologyHistoryLimit ≠ 0 ∧ config.topologyHistoryLimit ≤ 4096) <| clusterError
    "distribution topology_history_limit must be between 1 and 4096"
  require (250 ≤ config.metadataElectionTimeoutMs ∧ config.metadataElectionTimeoutMs ≤ 120000) <|
    clusterError "metadata election timeout must be between 250ms and 120s"
  require (config.metadataHeartbeatIntervalMs ≠ 0 ∧
      config.metadataHeartbeatIntervalMs < config.metadataElectionTimeoutMs) <| clusterError
    "metadata heartbeat interval must be non-zero and less than the election timeout"

def limits (config : DistributionConfig) : LivenessLimits :=
  ⟨config.suspectAfterMs, config.deadAfterMs⟩

end DistributionConfig

/-- The topology knows the local node as configured. -/
def ensureConfigMatches (config : DistributionConfig) (topology : ClusterTopology) :
    Except BicDbError Unit := do
  require (topology.clusterId = config.clusterId) <| clusterError <|
    s!"cluster id mismatch: config={config.clusterId}, topology={topology.clusterId}"
  match topology.nodes.get? config.nodeId with
  | none => .error <| clusterError <|
      s!"local node {config.nodeId} is not a member of cluster {config.clusterId}"
  | some node => do
    require (node.incarnation = config.nodeIncarnation) <| clusterError <|
      s!"local node incarnation mismatch: config={config.nodeIncarnation}, " ++
        s!"topology={node.incarnation}"
    require (node.address = config.nodeAddress) <| clusterError <|
      s!"local node address mismatch: config={config.nodeAddress}, topology={node.address}"
    require (∀ sha256 ∈ config.nodeTlsCertificateSha256, node.tlsCertificateSha256.isSome = true →
          node.acceptsTlsCertificateSha256 sha256 = true) <| clusterError
      "local node TLS certificate mismatch: config fingerprint is not active or pending in topology"
    require (node.lifecycle ≠ .decommissioned) <| clusterError <|
      s!"local node {config.nodeId} has been decommissioned and is fenced"

/-! ## The file -/

/-- The topology file: a topology and its digest. -/
structure TopologyEnvelope where
  topology : ClusterTopology
  checksumSha256 : String
  deriving DecidableEq

/-- Missing, not an envelope, or an envelope. -/
inductive TopologyFile where
  | missing
  | garbled
  | envelope (envelope : TopologyEnvelope)
  deriving DecidableEq

/-- Done, failed with the old file in place, or failed after the rename. -/
inductive WriteOutcome where
  | done
  | failedBefore
  | failedAfter
  deriving DecidableEq

/-- Whether the read succeeds, and how the write ends. -/
structure Io where
  readable : Bool
  write : WriteOutcome
  deriving DecidableEq

section Store

variable (digest : ClusterTopology → String)

/-- Checks the digest and the topology. -/
def TopologyEnvelope.verify (envelope : TopologyEnvelope) : Except BicDbError ClusterTopology := do
  let actual := digest envelope.topology
  require (actual = envelope.checksumSha256) <| clusterError <|
    s!"cluster topology checksum mismatch: expected {envelope.checksumSha256}, computed {actual}"
  envelope.topology.validate
  return envelope.topology

/-- Reads the topology file. -/
def loadTopology (io : Io) (file : TopologyFile) : Except BicDbError ClusterTopology :=
  match file with
  | .missing => .error <| clusterError
      "cluster topology cluster-topology.json does not exist; initialize the cluster first"
  | .garbled => if io.readable then .error .json else .error .io
  | .envelope envelope => if io.readable then envelope.verify digest else .error .io

/-- Validates and writes the topology file. -/
def persistTopology (io : Io) (file : TopologyFile) (topology : ClusterTopology) :
    Except BicDbError Unit × TopologyFile :=
  match topology.validate with
  | .error error => (.error error, file)
  | .ok () =>
    let written := .envelope ⟨topology, digest topology⟩
    match io.write with
    | .done => (.ok (), written)
    | .failedBefore => (.error .io, file)
    | .failedAfter => (.error .io, written)

/-! ## Committing -/

/-- The store: configuration and topology in memory. -/
structure DistributionStore where
  ephemeral : Bool
  config : DistributionConfig
  topology : ClusterTopology
  deriving DecidableEq

/-- Reply, memory and file after a call. -/
structure Outcome (α : Type) where
  result : Except BicDbError α
  topology : ClusterTopology
  file : TopologyFile

variable (store : DistributionStore)

/-- Records and persists a change, after a look at the file. -/
def commitChange (io : Io) (file : TopologyFile) (topology : ClusterTopology)
    (actor : ClusterNodeId) (nowMs : Nat) (summary : String) : Outcome Unit :=
  let recorded := topology.recordChange actor nowMs summary store.config.topologyHistoryLimit
  if store.ephemeral then ⟨recorded.validate, recorded, file⟩
  else
    match loadTopology digest io file with
    | .error error => ⟨.error error, topology, file⟩
    | .ok onDisk =>
      if onDisk.generation ≠ topology.generation then
        ⟨.error <| clusterError <|
          s!"stale cluster topology generation: memory={topology.generation}, " ++
            s!"disk={onDisk.generation}; refresh and retry",
          onDisk, file⟩
      else
        match recorded.validate with
        | .error error => ⟨.error error, recorded, file⟩
        | .ok () =>
          match persistTopology digest io file recorded with
          | (result, file) => ⟨result, recorded, file⟩

/-- Carries an edit out. -/
def DistributionStore.carryOut {α : Type} (io : Io) (file : TopologyFile) : Edit α → Outcome α
  | .refuse error topology => ⟨.error error, topology, file⟩
  | .answer value => ⟨.ok value, store.topology, file⟩
  | .commit topology actor nowMs summary value =>
    match commitChange digest store io file topology actor nowMs summary with
    | ⟨.error error, topology, file⟩ => ⟨.error error, topology, file⟩
    | ⟨.ok (), topology, file⟩ => ⟨.ok value, topology, file⟩

/-! ## Calls -/

/-- The calls of the store. -/
inductive Call where
  | joinNode (node : ClusterNode) (actor : ClusterNodeId) (nowMs : Nat)
  | joinMetadataLearner (node : ClusterNode) (actor : ClusterNodeId) (nowMs : Nat)
  | promoteMetadataLearner (nodeId actor : ClusterNodeId) (nowMs : Nat)
  | stageTlsCertificateRotation (nodeId : ClusterNodeId) (next : String) (actor : ClusterNodeId)
      (nowMs : Nat)
  | abortTlsCertificateRotation (nodeId actor : ClusterNodeId) (nowMs : Nat)
  | splitRange (rangeId : RangeId) (splitToken : Nat) (actor : ClusterNodeId) (nowMs : Nat)
  | mergeRanges (firstId secondId : RangeId) (actor : ClusterNodeId) (nowMs : Nat)
  | setRangePlacement (rangeId : RangeId) (placement : PlacementPolicy) (actor : ClusterNodeId)
      (nowMs : Nat)
  | updateRangeLoad (rangeId : RangeId) (bytes qps : Nat) (actor : ClusterNodeId) (nowMs : Nat)
  | heartbeatWithCertificate (nodeId : ClusterNodeId) (incarnation usedBytes capacityBytes : Nat)
      (labels : Labels) (tlsCertificateSha256 : Option String) (nowMs : Nat)
  | beginDrain (nodeId actor : ClusterNodeId) (nowMs : Nat)
  | decommissionNode (nodeId actor : ClusterNodeId) (nowMs : Nat)
  | applyRebalancePlan (plan : RebalancePlan) (actor : ClusterNodeId) (nowMs : Nat)
  | certifyRelocationSchemaInstall (relocationId : RelocationId) (actor : ClusterNodeId)
      (nowMs : Nat)
  | beginRelocationSnapshot (relocationId : RelocationId) (actor : ClusterNodeId) (nowMs : Nat)
  | checkpointRelocationSnapshot (relocationId : RelocationId) (bytesCopied : Nat)
      (resumeAfterKey : Option String) (actor : ClusterNodeId) (nowMs : Nat)
  | finishRelocationSnapshot (relocationId : RelocationId) (snapshotId snapshotSha256 : String)
      (snapshotCommitSequence bytesCopied : Nat) (actor : ClusterNodeId) (nowMs : Nat)
  | checkpointRelocationCatchUp (relocationId : RelocationId) (durable source : Nat)
      (actor : ClusterNodeId) (nowMs : Nat)
  | promoteRelocation (relocationId : RelocationId) (actor : ClusterNodeId) (nowMs : Nat)
  | beginRelocationCleanup (relocationId : RelocationId) (actor : ClusterNodeId) (nowMs : Nat)
  | finishRelocationCleanup (relocationId : RelocationId) (actor : ClusterNodeId) (nowMs : Nat)
  | checkpointRelocationCleanup (relocationId : RelocationId) (recordsDeleted : Nat)
      (resumeAfterKey : Option String) (actor : ClusterNodeId) (nowMs : Nat)
  | failRelocation (relocationId : RelocationId) (message : String) (actor : ClusterNodeId)
      (nowMs : Nat)
  | retryRelocation (relocationId : RelocationId) (actor : ClusterNodeId) (nowMs : Nat)

/-- What they return. -/
inductive Reply where
  | changed (changed : Bool)
  | range (rangeId : RangeId)
  | relocations (ids : List RelocationId)
  | epoch (epoch : Nat)
  | phase (phase : RelocationPhase)
  | done
  deriving DecidableEq

def Edit.map {α β : Type} (f : α → β) : Edit α → Edit β
  | .refuse error topology => .refuse error topology
  | .answer value => .answer (f value)
  | .commit topology actor nowMs summary value => .commit topology actor nowMs summary (f value)

variable (config : DistributionConfig)

/-- The edit of each call. -/
def editOf (topology : ClusterTopology) : Call → Edit Reply
  | .joinNode node actor nowMs => (joinNode topology node actor nowMs).map .changed
  | .joinMetadataLearner node actor nowMs =>
    (joinMetadataLearner topology node actor nowMs).map .changed
  | .promoteMetadataLearner nodeId actor nowMs =>
    (promoteMetadataLearner topology nodeId actor nowMs).map .changed
  | .stageTlsCertificateRotation nodeId next actor nowMs =>
    (stageTlsCertificateRotation topology nodeId next actor nowMs).map .changed
  | .abortTlsCertificateRotation nodeId actor nowMs =>
    (abortTlsCertificateRotation topology nodeId actor nowMs).map .changed
  | .splitRange rangeId splitToken actor nowMs =>
    (splitRange topology rangeId splitToken actor nowMs).map .range
  | .mergeRanges firstId secondId actor nowMs =>
    (mergeRanges topology firstId secondId actor nowMs).map .range
  | .setRangePlacement rangeId placement actor nowMs =>
    (setRangePlacement topology rangeId placement actor nowMs).map .changed
  | .updateRangeLoad rangeId bytes qps actor nowMs =>
    (updateRangeLoad topology rangeId bytes qps actor nowMs).map .changed
  | .heartbeatWithCertificate nodeId incarnation usedBytes capacityBytes labels sha256 nowMs =>
    (heartbeatWithCertificate topology nodeId incarnation usedBytes capacityBytes labels sha256
      nowMs).map .changed
  | .beginDrain nodeId actor nowMs => (beginDrain topology nodeId actor nowMs).map .changed
  | .decommissionNode nodeId actor nowMs =>
    (decommissionNode topology config.nodeId nodeId actor nowMs).map .changed
  | .applyRebalancePlan plan actor nowMs =>
    (applyRebalancePlan topology config.limits plan actor nowMs).map .relocations
  | .certifyRelocationSchemaInstall relocationId actor nowMs =>
    (certifyRelocationSchemaInstall topology relocationId actor nowMs).map .changed
  | .beginRelocationSnapshot relocationId actor nowMs =>
    (beginRelocationSnapshot topology relocationId actor nowMs).map .changed
  | .checkpointRelocationSnapshot relocationId bytesCopied resumeAfterKey actor nowMs =>
    (checkpointRelocationSnapshot topology relocationId bytesCopied resumeAfterKey actor
      nowMs).map .changed
  | .finishRelocationSnapshot relocationId snapshotId snapshotSha256 sequence bytesCopied actor
      nowMs =>
      (finishRelocationSnapshot topology relocationId snapshotId snapshotSha256 sequence bytesCopied
        actor nowMs).map fun _ => .done
  | .checkpointRelocationCatchUp relocationId durable source actor nowMs =>
    (checkpointRelocationCatchUp topology relocationId durable source actor nowMs).map .phase
  | .promoteRelocation relocationId actor nowMs =>
    (promoteRelocation topology relocationId actor nowMs).map .epoch
  | .beginRelocationCleanup relocationId actor nowMs =>
    (beginRelocationCleanup topology relocationId actor nowMs).map .changed
  | .finishRelocationCleanup relocationId actor nowMs =>
    (finishRelocationCleanup topology relocationId actor nowMs).map .epoch
  | .checkpointRelocationCleanup relocationId recordsDeleted resumeAfterKey actor nowMs =>
    (checkpointRelocationCleanup topology relocationId recordsDeleted resumeAfterKey actor
      nowMs).map .changed
  | .failRelocation relocationId message actor nowMs =>
    (failRelocation topology relocationId message actor nowMs).map fun _ => .done
  | .retryRelocation relocationId actor nowMs =>
    (retryRelocation topology relocationId actor nowMs).map .phase

/-- One call. -/
def DistributionStore.call (store : DistributionStore) (io : Io) (file : TopologyFile)
    (call : Call) : Outcome Reply :=
  store.carryOut digest io file (editOf store.config store.topology call)

/-! ## Topologies made elsewhere -/

/-- A copy in memory. -/
def DistributionStore.forkEphemeral : DistributionStore :=
  { store with ephemeral := true }

/-- Takes the topology from the file. -/
def DistributionStore.refresh (io : Io) (file : TopologyFile) : Outcome Unit :=
  match loadTopology digest io file with
  | .error error => ⟨.error error, store.topology, file⟩
  | .ok topology =>
    match ensureConfigMatches store.config topology with
    | .error error => ⟨.error error, store.topology, file⟩
    | .ok () => ⟨.ok (), topology, file⟩

/-- Takes a topology that consensus has committed. -/
def DistributionStore.installAuthoritativeTopology (io : Io) (file : TopologyFile)
    (topology : ClusterTopology) : Outcome Bool :=
  match (do topology.validate; ensureConfigMatches store.config topology :
      Except BicDbError Unit) with
  | .error error => ⟨.error error, store.topology, file⟩
  | .ok () =>
    if topology.generation < store.topology.generation then ⟨.ok false, store.topology, file⟩
    else if topology.generation = store.topology.generation then
      if topology = store.topology then ⟨.ok false, store.topology, file⟩
      else ⟨.error <| clusterError "conflicting authoritative topology at the same generation",
        store.topology, file⟩
    else
      match persistTopology digest io file topology with
      | (.error error, file) => ⟨.error error, store.topology, file⟩
      | (.ok (), file) => ⟨.ok true, topology, file⟩

/-! ## The first topology -/

/-- A cluster of one node. -/
def ClusterTopology.new (local_ : ClusterNode) (nowMs : Nat) :
    Except BicDbError ClusterTopology := do
  require (local_.id = config.nodeId) <| clusterError <|
    s!"local node id mismatch: config={config.nodeId}, node={local_.id}"
  let (ranges, nextRangeId, nextReplicaId) ←
    bootstrapRanges config.initialRanges config.nodeId config.defaultPlacement
  let topology : ClusterTopology := {
    formatVersion := distributionFormatVersion
    hashVersion := distributionHashVersion
    clusterId := config.clusterId
    generation := 1
    replicationFactor := config.replicationFactor
    nodes := (∅ : Nodes).insert local_.id local_
    ranges := ranges
    nextRangeId := nextRangeId
    nextReplicaId := nextReplicaId
    nextRelocationId := 1
    relocations := ∅
    appliedRebalancePlans := []
    history := [⟨1, nowMs, config.nodeId, "cluster initialized"⟩] }
  topology.validate
  return topology

/-- The topology that `initialize_at` makes where there is none. -/
def initialTopology (nowMs : Nat) : Except BicDbError ClusterTopology := do
  config.validate
  require (config.enabled = true) <| clusterError
    "distribution must be enabled before initializing a cluster"
  let node ← ClusterNode.new config.nodeId config.nodeAddress config.nodeIncarnation
    config.nodeCapacityBytes nowMs
  match config.nodeTlsCertificateSha256 with
  | none => ClusterTopology.new config node nowMs
  | some fingerprint => do
    validateCertificateSha256 fingerprint
    ClusterTopology.new config { node with tlsCertificateSha256 := some fingerprint } nowMs

/-- `initialize_at` on a directory without a topology file. -/
def initializeAt (io : Io) (config : DistributionConfig) (nowMs : Nat) :
    Except BicDbError DistributionStore × TopologyFile :=
  match initialTopology config nowMs with
  | .error error => (.error error, .missing)
  | .ok topology =>
    match persistTopology digest io .missing topology with
    | (.error error, file) => (.error error, file)
    | (.ok (), file) => (.ok ⟨false, config, topology⟩, file)

/-- Opens a store on an existing file. -/
def openStore (io : Io) (config : DistributionConfig) (file : TopologyFile) :
    Except BicDbError DistributionStore := do
  config.validate
  require (config.enabled = true) <| clusterError
    "distribution must be enabled before opening cluster topology"
  let topology ← loadTopology digest io file
  ensureConfigMatches config topology
  return ⟨false, config, topology⟩

end Store

end BicDb.Distribution
