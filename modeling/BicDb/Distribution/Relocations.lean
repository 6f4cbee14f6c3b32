import BicDb.Distribution.Operations

/-!
# Rebalance plans and relocations

Applying a plan allocates a learner for every move and hands leadership over; each learner then goes
through snapshot, catch-up, promotion and cleanup, with failure and retry in between.
-/

namespace BicDb.Distribution

open BicDb.Foundation
open Edit (checked)

/-! ## Plans -/

/-- A replica move of a plan. -/
structure PlannedReplicaMove where
  rangeId : RangeId
  expectedEpoch : Nat
  source : Option ClusterNodeId
  target : ClusterNodeId
  estimatedBytes : Nat
  reason : ReplicaMoveReason
  deriving DecidableEq

/-- A leader transfer of a plan. -/
structure PlannedLeaderTransfer where
  rangeId : RangeId
  expectedEpoch : Nat
  source : ClusterNodeId
  target : ClusterNodeId
  deriving DecidableEq

/-- A range for which the plan found no place. -/
structure UnplacedRange where
  rangeId : RangeId
  missingReplicas : Nat
  reason : String
  deriving DecidableEq

/-- A plan of the rebalancer. -/
structure RebalancePlan where
  id : String
  topologyGeneration : Nat
  createdAtMs : Nat
  replicaMoves : List PlannedReplicaMove
  leaderTransfers : List PlannedLeaderTransfer
  unplacedRanges : List UnplacedRange
  estimatedBytesInFlight : Nat
  deriving DecidableEq

/-- The times after which a node is suspect or dead. -/
structure LivenessLimits where
  suspectAfterMs : Nat
  deadAfterMs : Nat
  deriving DecidableEq

def LivenessLimits.of (limits : LivenessLimits) (node : ClusterNode) (nowMs : Nat) :
    ClusterNodeLiveness :=
  node.liveness nowMs limits.suspectAfterMs limits.deadAfterMs

/-! ## The checks of a plan -/

variable (topology : ClusterTopology)

/-- Whether a relocation of the range is active. -/
def ClusterTopology.isRelocating (rangeId : RangeId) : Bool :=
  topology.relocations.values.any fun relocation =>
    decide (relocation.rangeId = rangeId) && relocation.isActive

/-- What `apply_rebalance_plan` asks of a target. -/
def targetIsEligible (limits : LivenessLimits) (nowMs : Nat) (nodes : Nodes)
    (range : RangeDescriptor) (target : ClusterNode) : Bool :=
  decide (target.lifecycle = .active) && decide (target.metadataRole = .voter) &&
    decide (limits.of target nowMs = .live) && range.placement.nodeIsEligible target &&
    (range.nodeSchemaIsCompatible nodes target || RangeDescriptor.nodeAcceptsSchemaBootstrap target)

/-- Checks a move against those before it. -/
def checkMove (limits : LivenessLimits) (nowMs : Nat) (planId : String)
    (seen : List PlannedReplicaMove) (movement : PlannedReplicaMove) : Except BicDbError Unit := do
  require (∀ other ∈ seen, other.rangeId ≠ movement.rangeId) <| clusterError <|
    s!"rebalance plan {planId} moves range {showRange movement.rangeId} more than once"
  match topology.rangeById movement.rangeId with
  | none => .error <| clusterError s!"unknown range {showRange movement.rangeId}"
  | some range => do
    require (range.epoch = movement.expectedEpoch) <| clusterError <|
      s!"range {showRange movement.rangeId} epoch changed: plan={movement.expectedEpoch}, " ++
        s!"current={range.epoch}"
    require (topology.isRelocating movement.rangeId = false) <| clusterError <|
      s!"range {showRange movement.rangeId} already has an active relocation"
    match topology.nodes.get? movement.target with
    | none => .error <| clusterError s!"unknown relocation target {movement.target}"
    | some target => do
      require (targetIsEligible limits nowMs topology.nodes range target = true) <|
        clusterError <|
          s!"relocation target {movement.target} is no longer eligible for range " ++
            s!"{showRange movement.rangeId}"
      require (range.hasReplica movement.target = false) <| clusterError <|
        s!"range {showRange movement.rangeId} already has a replica on target {movement.target}"
      forAll (fun source => require (range.hasReplica source = true) <| clusterError <|
          s!"range {showRange movement.rangeId} no longer has planned source {source}")
        movement.source.toList

/-- The checks of a leader transfer: whether it is made at once. -/
def checkTransfer (limits : LivenessLimits) (nowMs : Nat) (movingRanges : List RangeId)
    (transfer : PlannedLeaderTransfer) : Except BicDbError Bool :=
  match topology.rangeById transfer.rangeId with
  | none => .error <| clusterError s!"unknown range {showRange transfer.rangeId}"
  | some range => do
    require (range.epoch = transfer.expectedEpoch ∧ range.leader = transfer.source) <|
      clusterError s!"leader transfer for range {showRange transfer.rangeId} is stale"
    if range.hasVoter transfer.target then
      match topology.nodes.get? transfer.target with
      | none => .error <| clusterError s!"unknown leader target {transfer.target}"
      | some target => do
        require (target.lifecycle ≠ .decommissioned ∧
            range.nodeSchemaIsCompatible topology.nodes target = true ∧
            limits.of target nowMs ≠ .dead) <| clusterError <|
          s!"leader transfer target {transfer.target} is not live for range " ++
            s!"{showRange transfer.rangeId}"
        return true
    else do
      require (transfer.rangeId ∈ movingRanges) <| clusterError <|
        s!"leader transfer target {transfer.target} is not a voter for range " ++
          s!"{showRange transfer.rangeId}"
      return false

/-- Checks the transfers; those made at once are returned. -/
def checkTransfers (topology : ClusterTopology) (limits : LivenessLimits) (nowMs : Nat)
    (movingRanges : List RangeId) : List PlannedLeaderTransfer → Except BicDbError (List RangeId)
  | [] => .ok []
  | transfer :: rest => do
    let immediate ← checkTransfer topology limits nowMs movingRanges transfer
    let others ← checkTransfers topology limits nowMs movingRanges rest
    return if immediate then transfer.rangeId :: others else others

/-! ## Applying a plan -/

/-- Drop completed relocations, oldest first, until there is room; `false` where that is not enough.
-/
def evictCompleted (incoming : Nat) :
    List (RelocationId × RangeRelocation) → Relocations → Bool × Relocations
  | [], relocations =>
    (decide (relocations.size + incoming ≤ defaultRelocationHistoryLimit), relocations)
  | entry :: rest, relocations =>
    if relocations.size + incoming ≤ defaultRelocationHistoryLimit then (true, relocations)
    else if entry.2.phase = .completed then
      evictCompleted incoming rest (relocations.erase entry.1)
    else evictCompleted incoming rest relocations

/-- Makes the immediate transfers, up to the first that fails. -/
def applyTransfers (immediate : List RangeId) :
    List PlannedLeaderTransfer → ClusterTopology → Bool × ClusterTopology
  | [], topology => (true, topology)
  | transfer :: rest, topology =>
    if transfer.rangeId ∈ immediate then
      match topology.rangeById transfer.rangeId with
      | none => applyTransfers immediate rest topology
      | some range =>
        match checkedSucc range.epoch with
        | none => (false, topology.modifyRange transfer.rangeId fun range =>
          { range with leader := transfer.target })
        | some epoch => applyTransfers immediate rest
            (topology.modifyRange transfer.rangeId fun range =>
              { range with leader := transfer.target, epoch := epoch })
    else applyTransfers immediate rest topology

/-- The relocation that a move starts. -/
def newRelocation (planId : String) (nowMs : Nat) (movement : PlannedReplicaMove)
    (id : RelocationId) (targetReplicaId : ReplicaId) (learnerEpoch : Nat) : RangeRelocation where
  id := id
  planId := planId
  rangeId := movement.rangeId
  expectedEpoch := movement.expectedEpoch
  learnerEpoch := learnerEpoch
  promotedEpoch := none
  source := movement.source
  target := movement.target
  targetReplicaId := targetReplicaId
  reason := movement.reason
  phase := .learnerAllocated
  resumePhase := none
  snapshotId := none
  snapshotSha256 := none
  snapshotBytesCopied := 0
  snapshotResumeAfterKey := none
  snapshotCommitSequence := none
  destinationDurableCommitSequence := none
  sourceCommitSequence := none
  cleanupResumeAfterKey := none
  cleanupRecordsDeleted := 0
  createdAtMs := nowMs
  updatedAtMs := nowMs
  lastError := none

/-- Gives the target of a move a learner. -/
def ClusterTopology.allocateLearner (planId : String) (nowMs : Nat) (movement : PlannedReplicaMove)
    (epoch : Nat) : ClusterTopology :=
  let replicaId := topology.nextReplicaId
  let relocationId := topology.nextRelocationId
  let learner : RangeReplica := ⟨replicaId, movement.target, .learner⟩
  let allocated : ClusterTopology :=
    { topology with nextReplicaId := replicaId + 1, nextRelocationId := relocationId + 1 }
  (allocated.modifyRange movement.rangeId fun range =>
      { range with epoch := epoch, replicas := range.replicas ++ [learner] }).setRelocation
    relocationId (newRelocation planId nowMs movement relocationId replicaId epoch)

/-- Starts the moves, up to the first that fails. -/
def applyMoves (planId : String) (nowMs : Nat) :
    List PlannedReplicaMove → ClusterTopology →
      Except BicDbError (List RelocationId) × ClusterTopology
  | [], topology => (.ok [], topology)
  | movement :: rest, topology =>
    match checkedSucc topology.nextReplicaId with
    | none => (.error (clusterError "replica id space exhausted"), topology)
    | some nextReplicaId =>
      match checkedSucc topology.nextRelocationId with
      | none => (.error (clusterError "relocation id space exhausted"),
          { topology with nextReplicaId := nextReplicaId })
      | some nextRelocationId =>
        match topology.rangeById movement.rangeId with
        | none => applyMoves planId nowMs rest
            { topology with
              nextReplicaId := nextReplicaId
              nextRelocationId := nextRelocationId }
        | some range =>
          match checkedSucc range.epoch with
          | none => (.error (clusterError "range epoch space exhausted"), { topology with
                nextReplicaId := nextReplicaId
                nextRelocationId := nextRelocationId })
          | some epoch =>
            let relocationId := topology.nextRelocationId
            match applyMoves planId nowMs rest
                (topology.allocateLearner planId nowMs movement epoch) with
            | (.error error, topology) => (.error error, topology)
            | (.ok ids, topology) => (.ok (relocationId :: ids), topology)

/-- Remembers the plan. -/
def ClusterTopology.recordPlan (planId : String) : ClusterTopology :=
  let plans := topology.appliedRebalancePlans ++ [planId]
  { topology with
    appliedRebalancePlans := plans.drop (plans.length - defaultAppliedPlanHistoryLimit) }

/-- Carries out a plan that has been checked. -/
def applyChecked (plan : RebalancePlan) (immediate : List RangeId) (actor : ClusterNodeId)
    (nowMs : Nat) : Edit (List RelocationId) :=
  match evictCompleted plan.replicaMoves.length topology.relocations.entries
      topology.relocations with
  | (false, relocations) =>
    .refuse (clusterError "too many active relocations to retain bounded relocation history")
      { topology with relocations := relocations }
  | (true, relocations) =>
    match applyTransfers immediate plan.leaderTransfers
        { topology with relocations := relocations } with
    | (false, topology) => .refuse (clusterError "range epoch space exhausted") topology
    | (true, topology) =>
      match applyMoves plan.id nowMs plan.replicaMoves topology with
      | (.error error, topology) => .refuse error topology
      | (.ok ids, topology) =>
        .commit (topology.recordPlan plan.id) actor nowMs
          (s!"rebalance plan {plan.id} applied: {ids.length} relocations, " ++
            s!"{immediate.dedup.length} leader transfers")
          ids

/-- Checks a plan and carries it out. -/
def applyRebalancePlan (limits : LivenessLimits) (plan : RebalancePlan) (actor : ClusterNodeId)
    (nowMs : Nat) : Edit (List RelocationId) :=
  checked topology (topology.ensureActor actor) fun _ =>
    if plan.id ∈ topology.appliedRebalancePlans then
      .answer ((topology.relocations.values.filter fun relocation =>
        relocation.planId = plan.id).map (·.id))
    else
      checked topology (require (plan.id ≠ "") <|
        clusterError "rebalance plan id must not be empty") fun _ =>
      checked topology (require (plan.topologyGeneration = topology.generation) <| clusterError <|
        s!"stale rebalance plan generation: plan={plan.topologyGeneration}, " ++
          s!"topology={topology.generation}")
        fun _ =>
      checked topology (forAllSeen (checkMove topology limits nowMs plan.id) [] plan.replicaMoves)
        fun _ =>
      checked topology (checkTransfers topology limits nowMs (plan.replicaMoves.map (·.rangeId))
        plan.leaderTransfers) fun immediate =>
        applyChecked topology plan immediate actor nowMs

/-! ## The phases of a relocation -/

/-- A relocation, or the error for an unknown one. -/
def ClusterTopology.knownRelocation (relocationId : RelocationId) :
    Except BicDbError RangeRelocation :=
  match topology.relocations.get? relocationId with
  | none => .error <| clusterError s!"unknown relocation {showRelocation relocationId}"
  | some relocation => .ok relocation

variable (range : RangeDescriptor)

/-- The learner of a relocation is there. -/
def RangeDescriptor.hasLearner (relocation : RangeRelocation) : Bool :=
  range.replicas.any fun replica => decide (replica.id = relocation.targetReplicaId) &&
    decide (replica.nodeId = relocation.target) && decide (replica.role = .learner)

/-- The labels of a node with a certified schema. -/
def certifiedLabels (labels : Labels) (required : String) : Labels :=
  (labels.insert schemaCompatibilityNodeLabel required).erase schemaBootstrapNodeLabel

/-- The target has installed the schema. -/
def certifyRelocationSchemaInstall (relocationId : RelocationId) (actor : ClusterNodeId)
    (nowMs : Nat) : Edit Bool :=
  checked topology (topology.ensureActor actor) fun _ =>
  checked topology (topology.knownRelocation relocationId) fun relocation =>
  checked topology (require (relocation.phase = .learnerAllocated) <| clusterError <|
    s!"cannot certify schema install for {showRelocation relocationId} in phase " ++
      s!"{relocation.phase.debug}")
    fun _ =>
  checked topology (topology.knownRange relocation.rangeId) fun range =>
  checked topology (require (range.epoch = relocation.learnerEpoch ∧
      range.hasLearner relocation = true) <| clusterError <|
    s!"schema install for {showRelocation relocationId} has no exact learner allocation") fun _ =>
    match range.requiredSchemaSha256 topology.nodes with
    | none => .answer false
    | some required =>
      match topology.nodes.get? relocation.target with
      | none => .refuse (clusterError
          s!"target for {showRelocation relocationId} disappeared") topology
      | some target =>
        checked topology (require (target.lifecycle ≠ .decommissioned ∧
            target.labels.contains schemaCompatibilityTargetNodeLabel = false) <| clusterError <|
            s!"schema install target for {showRelocation relocationId} is fenced or in a schema " ++
              "transition")
          fun _ =>
          if target.labels.get? schemaCompatibilityNodeLabel = some required ∧
              target.labels.contains schemaBootstrapNodeLabel = false then .answer false
          else
            checked topology (require
                (RangeDescriptor.nodeAcceptsSchemaBootstrap target = true) <| clusterError <|
              s!"schema install target for {showRelocation relocationId} has no one-time " ++
                "bootstrap authority")
              fun _ =>
              .commit (topology.setNode relocation.target
                  { target with labels := certifiedLabels target.labels required }) actor nowMs
                (s!"{showRelocation relocationId} certified installed schema {required} for " ++
                  s!"learner {relocation.target}")
                true

/-- Starts the snapshot. -/
def beginRelocationSnapshot (relocationId : RelocationId) (actor : ClusterNodeId) (nowMs : Nat) :
    Edit Bool :=
  checked topology (topology.ensureActor actor) fun _ =>
  checked topology (topology.knownRelocation relocationId) fun relocation =>
    match relocation.phase with
    | .learnerAllocated =>
      .commit (topology.setRelocation relocationId
          { relocation with phase := .snapshotCopying, updatedAtMs := nowMs }) actor nowMs
        s!"{showRelocation relocationId} began bounded snapshot copy" true
    | .snapshotCopying => .answer false
    | phase => .refuse (clusterError
        s!"cannot begin snapshot for {showRelocation relocationId} in phase {phase.debug}") topology

/-- Records how far the snapshot is. -/
def checkpointRelocationSnapshot (relocationId : RelocationId) (bytesCopied : Nat)
    (resumeAfterKey : Option String) (actor : ClusterNodeId) (nowMs : Nat) : Edit Bool :=
  checked topology (topology.ensureActor actor) fun _ =>
  checked topology (topology.knownRelocation relocationId) fun relocation =>
  checked topology (require (relocation.phase = .snapshotCopying) <| clusterError <|
    s!"cannot checkpoint snapshot for {showRelocation relocationId} in phase " ++
      s!"{relocation.phase.debug}")
    fun _ =>
  checked topology (require (relocation.snapshotBytesCopied ≤ bytesCopied) <| clusterError <|
    s!"snapshot progress for {showRelocation relocationId} cannot move backwards") fun _ =>
    if bytesCopied = relocation.snapshotBytesCopied ∧
        resumeAfterKey = relocation.snapshotResumeAfterKey then .answer false
    else
      .commit (topology.setRelocation relocationId { relocation with
            snapshotBytesCopied := bytesCopied
            snapshotResumeAfterKey := resumeAfterKey
            updatedAtMs := nowMs }) actor nowMs
        s!"{showRelocation relocationId} snapshot checkpointed at {bytesCopied} bytes" true

def toAsciiLowercase (text : String) : String := String.ofList (text.toList.map Char.toLower)

/-- Checks id and digest of a snapshot. -/
def checkSnapshotIdentity (snapshotId snapshotSha256 : String) : Except BicDbError Unit := do
  require (snapshotId ≠ "" ∧ snapshotId.utf8ByteSize ≤ 256) <| clusterError
    "snapshot id must contain 1-256 bytes"
  require (isLowerSha256 (toAsciiLowercase snapshotSha256) = true) <| clusterError
    "snapshot SHA-256 must be 64 hexadecimal characters"

/-- The snapshot is complete. -/
def finishRelocationSnapshot (relocationId : RelocationId) (snapshotId snapshotSha256 : String)
    (snapshotCommitSequence bytesCopied : Nat) (actor : ClusterNodeId) (nowMs : Nat) : Edit Unit :=
  checked topology (topology.ensureActor actor) fun _ =>
  checked topology (checkSnapshotIdentity snapshotId snapshotSha256) fun _ =>
  checked topology (topology.knownRelocation relocationId) fun relocation =>
  checked topology (require (relocation.phase = .snapshotCopying) <| clusterError <|
    s!"cannot finish snapshot for {showRelocation relocationId} in phase {relocation.phase.debug}")
    fun _ =>
  checked topology (require (relocation.snapshotBytesCopied ≤ bytesCopied) <| clusterError <|
    s!"final snapshot size for {showRelocation relocationId} is below its checkpoint") fun _ =>
    .commit (topology.setRelocation relocationId { relocation with
          snapshotId := some snapshotId
          snapshotSha256 := some (toAsciiLowercase snapshotSha256)
          snapshotBytesCopied := bytesCopied
          snapshotResumeAfterKey := none
          snapshotCommitSequence := some snapshotCommitSequence
          destinationDurableCommitSequence := some snapshotCommitSequence
          sourceCommitSequence := some snapshotCommitSequence
          phase := .catchingUp
          updatedAtMs := nowMs }) actor nowMs
      (s!"{showRelocation relocationId} durable snapshot completed at commit " ++
        s!"{snapshotCommitSequence}")
      ()

variable (relocation : RangeRelocation)

/-- Checks the progress of the catch-up. -/
def checkCatchUp (relocationId : RelocationId) (durable source : Nat) : Except BicDbError Unit := do
  require (relocation.phase ∈ [.catchingUp, .readyToPromote]) <| clusterError <|
    s!"cannot checkpoint catch-up for {showRelocation relocationId} in phase " ++
      s!"{relocation.phase.debug}"
  match relocation.snapshotCommitSequence with
  | none => .error <| clusterError <|
      s!"{showRelocation relocationId} has no snapshot commit watermark"
  | some watermark => do
    require (watermark ≤ durable ∧
        relocation.destinationDurableCommitSequence.getD watermark ≤ durable ∧
        relocation.sourceCommitSequence.getD watermark ≤ source) <| clusterError <|
      s!"catch-up progress for {showRelocation relocationId} cannot move backwards"
    require (durable ≤ source) <| clusterError <|
      s!"destination for {showRelocation relocationId} cannot be ahead of its reported source"

/-- Records the progress of the catch-up. -/
def checkpointRelocationCatchUp (relocationId : RelocationId)
    (destinationDurableCommitSequence sourceCommitSequence : Nat) (actor : ClusterNodeId)
    (nowMs : Nat) : Edit RelocationPhase :=
  checked topology (topology.ensureActor actor) fun _ =>
  checked topology (topology.knownRelocation relocationId) fun relocation =>
  checked topology (checkCatchUp relocation relocationId destinationDurableCommitSequence
    sourceCommitSequence) fun _ =>
    let phase : RelocationPhase :=
      if destinationDurableCommitSequence = sourceCommitSequence then .readyToPromote
      else .catchingUp
    .commit (topology.setRelocation relocationId { relocation with
          destinationDurableCommitSequence := some destinationDurableCommitSequence
          sourceCommitSequence := some sourceCommitSequence
          phase := phase
          updatedAtMs := nowMs }) actor nowMs
      (s!"{showRelocation relocationId} catch-up durable={destinationDurableCommitSequence} " ++
        s!"source={sourceCommitSequence}")
      phase

/-- Makes a replica a voter. -/
def promoteReplica (replicaId : ReplicaId) : List RangeReplica → List RangeReplica
  | [] => []
  | replica :: rest =>
    if replica.id = replicaId then { replica with role := .voter } :: rest
    else replica :: promoteReplica replicaId rest

/-- The range after a promotion. -/
def RangeDescriptor.promoteLearner (relocation : RangeRelocation) : RangeDescriptor :=
  { range with
    replicas := promoteReplica relocation.targetReplicaId range.replicas
    leader := if relocation.source = some range.leader then relocation.target else range.leader }

/-- What a promotion finds. An optional sequence number compares with `None` first. -/
def checkPromotion (relocationId : RelocationId) (relocation : RangeRelocation) :
    Except BicDbError RangeDescriptor := do
  require (relocation.phase = .readyToPromote) <| clusterError <|
    s!"cannot promote {showRelocation relocationId} in phase {relocation.phase.debug}"
  require (∀ source ∈ relocation.sourceCommitSequence,
      ∃ durable ∈ relocation.destinationDurableCommitSequence, source ≤ durable) <|
    clusterError s!"cannot promote {showRelocation relocationId} before durable source parity"
  let range ← topology.knownRange relocation.rangeId
  match topology.nodes.get? relocation.target with
  | none => .error <| clusterError s!"target for {showRelocation relocationId} disappeared"
  | some targetNode => do
    require (range.nodeSchemaIsCompatible topology.nodes targetNode = true) <| clusterError <|
      s!"cannot promote {showRelocation relocationId}: target {relocation.target} no longer has " ++
        "the leader schema"
    require (range.epoch = relocation.learnerEpoch) <| clusterError <|
      s!"cannot promote {showRelocation relocationId}: learner epoch {relocation.learnerEpoch} " ++
        s!"is stale at {range.epoch}"
    match range.replicas.find? fun replica => replica.id = relocation.targetReplicaId with
    | none => .error <| clusterError s!"target for {showRelocation relocationId} disappeared"
    | some target => do
      require (target.role = .learner) <| clusterError <|
        s!"target for {showRelocation relocationId} is not a learner"
      return range

/-- The learner becomes a voter. -/
def promoteRelocation (relocationId : RelocationId) (actor : ClusterNodeId) (nowMs : Nat) :
    Edit Nat :=
  checked topology (topology.ensureActor actor) fun _ =>
  checked topology (topology.knownRelocation relocationId) fun relocation =>
  checked topology (checkPromotion topology relocationId relocation) fun range =>
    match checkedSucc range.epoch with
    | none =>
      .refuse (clusterError "range epoch space exhausted")
        (topology.modifyRange relocation.rangeId fun range => range.promoteLearner relocation)
    | some epoch =>
      .commit ((topology.modifyRange relocation.rangeId fun range =>
            { range.promoteLearner relocation with epoch := epoch }).setRelocation relocationId
          { relocation with
            phase := .promoted
            promotedEpoch := some epoch
            updatedAtMs := nowMs }) actor nowMs
        s!"{showRelocation relocationId} promoted at range epoch {epoch}" epoch

/-- Starts to remove the source. -/
def beginRelocationCleanup (relocationId : RelocationId) (actor : ClusterNodeId) (nowMs : Nat) :
    Edit Bool :=
  checked topology (topology.ensureActor actor) fun _ =>
  checked topology (topology.knownRelocation relocationId) fun relocation =>
    match relocation.phase with
    | .promoted =>
      .commit (topology.setRelocation relocationId
          { relocation with phase := .cleaningUp, updatedAtMs := nowMs }) actor nowMs
        s!"{showRelocation relocationId} began source cleanup" true
    | .cleaningUp => .answer false
    | phase => .refuse (clusterError
        s!"cannot begin cleanup for {showRelocation relocationId} in phase {phase.debug}") topology

/-- The range without its source replica. -/
def RangeDescriptor.removeSource (source : Option ClusterNodeId) : RangeDescriptor :=
  { range with replicas := range.replicas.filter fun replica => source ≠ some replica.nodeId }

/-- The promoted epoch is still that of the range. -/
def checkCleanup (relocationId : RelocationId) (relocation : RangeRelocation) :
    Except BicDbError RangeDescriptor := do
  require (relocation.phase = .cleaningUp) <| clusterError <|
    s!"cannot finish cleanup for {showRelocation relocationId} in phase {relocation.phase.debug}"
  match relocation.promotedEpoch with
  | none => .error <| clusterError s!"{showRelocation relocationId} was not promoted"
  | some promotedEpoch => do
    let range ← topology.knownRange relocation.rangeId
    require (range.epoch = promotedEpoch) <| clusterError <|
      s!"cannot clean up {showRelocation relocationId}: promoted epoch {promotedEpoch} is stale " ++
        s!"at {range.epoch}"
    require (relocation.source ≠ some range.leader) <| clusterError <|
      s!"cannot remove the leader source for {showRelocation relocationId}"
    return range

/-- The source replica is gone. -/
def finishRelocationCleanup (relocationId : RelocationId) (actor : ClusterNodeId) (nowMs : Nat) :
    Edit Nat :=
  checked topology (topology.ensureActor actor) fun _ =>
  checked topology (topology.knownRelocation relocationId) fun relocation =>
  checked topology (checkCleanup topology relocationId relocation) fun range =>
    match checkedSucc range.epoch with
    | none =>
      .refuse (clusterError "range epoch space exhausted")
        (topology.modifyRange relocation.rangeId fun range =>
          range.removeSource relocation.source)
    | some epoch =>
      .commit ((topology.modifyRange relocation.rangeId fun range =>
            { range.removeSource relocation.source with epoch := epoch }).setRelocation relocationId
          { relocation with
            phase := .completed
            updatedAtMs := nowMs
            lastError := none }) actor nowMs
        s!"{showRelocation relocationId} completed at range epoch {epoch}" epoch

/-- Records the progress of the removal. -/
def checkpointRelocationCleanup (relocationId : RelocationId) (recordsDeleted : Nat)
    (resumeAfterKey : Option String) (actor : ClusterNodeId) (nowMs : Nat) : Edit Bool :=
  checked topology (topology.ensureActor actor) fun _ =>
  checked topology (topology.knownRelocation relocationId) fun relocation =>
  checked topology (require (relocation.phase = .cleaningUp) <| clusterError <|
    s!"cannot checkpoint cleanup for {showRelocation relocationId} in phase " ++
      s!"{relocation.phase.debug}")
    fun _ =>
  checked topology (require (relocation.cleanupRecordsDeleted ≤ recordsDeleted) <| clusterError <|
    s!"cleanup progress for {showRelocation relocationId} cannot move backwards") fun _ =>
    if recordsDeleted = relocation.cleanupRecordsDeleted ∧
        resumeAfterKey = relocation.cleanupResumeAfterKey then .answer false
    else
      .commit (topology.setRelocation relocationId { relocation with
            cleanupRecordsDeleted := recordsDeleted
            cleanupResumeAfterKey := resumeAfterKey
            updatedAtMs := nowMs }) actor nowMs
        s!"{showRelocation relocationId} cleanup checkpointed after {recordsDeleted} records" true

/-- The relocation with a failure recorded. -/
def RangeRelocation.fail (message : String) (nowMs : Nat) : RangeRelocation :=
  { relocation with
    resumePhase := if relocation.phase = .failed then relocation.resumePhase
      else some relocation.phase
    phase := .failed
    lastError := some message
    updatedAtMs := nowMs }

/-- Records a failure. -/
def failRelocation (relocationId : RelocationId) (message : String) (actor : ClusterNodeId)
    (nowMs : Nat) : Edit Unit :=
  checked topology (topology.ensureActor actor) fun _ =>
  checked topology (require (isBlank message = false ∧ message.utf8ByteSize ≤ 4096) <| clusterError
    "relocation failure message must contain 1-4096 bytes") fun _ =>
  checked topology (topology.knownRelocation relocationId) fun relocation =>
  checked topology (require (relocation.phase ≠ .completed) <| clusterError <|
    s!"completed relocation {showRelocation relocationId} cannot fail") fun _ =>
    .commit (topology.setRelocation relocationId (relocation.fail message nowMs)) actor nowMs
      s!"{showRelocation relocationId} recorded a resumable failure" ()

/-- The relocation back in its phase. -/
def RangeRelocation.resume (phase : RelocationPhase) (nowMs : Nat) : RangeRelocation :=
  { relocation with
    phase := phase
    resumePhase := none
    lastError := none
    updatedAtMs := nowMs }

/-- Resumes a failed relocation. -/
def retryRelocation (relocationId : RelocationId) (actor : ClusterNodeId) (nowMs : Nat) :
    Edit RelocationPhase :=
  checked topology (topology.ensureActor actor) fun _ =>
  checked topology (topology.knownRelocation relocationId) fun relocation =>
  checked topology (require (relocation.phase = .failed) <| clusterError <|
    s!"relocation {showRelocation relocationId} is not failed") fun _ =>
    match relocation.resumePhase with
    | none => .refuse (clusterError
        s!"relocation {showRelocation relocationId} has no resume phase") topology
    | some phase =>
      .commit (topology.setRelocation relocationId (relocation.resume phase nowMs)) actor nowMs
        s!"{showRelocation relocationId} resumed in phase {phase.debug}" phase

end BicDb.Distribution
