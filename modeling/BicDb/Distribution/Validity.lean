import BicDb.Distribution.Topology
import BicDb.Foundation.Tiling
import Mathlib.Tactic.MkIffOfInductiveProp

/-!
# What a valid topology is

Each validator accepts exactly the values with the property given here; `TopologyOk` is that of the
whole.
-/

namespace BicDb.Distribution

open BicDb.Foundation List ClusterTopology Tiles OrderedMap

/-! ## Nodes -/

@[mk_iff]
structure LabelOk (key value : String) : Prop where
  key_ok : isIdentifier key = true
  value_ok : isLabelValue value = true
  schema : key = schemaCompatibilityNodeLabel ∨ key = schemaCompatibilityTargetNodeLabel →
    isLowerSha256 value = true
  bootstrap : key = schemaBootstrapNodeLabel → value = "true"

/-- A valid node under its key. -/
@[mk_iff]
structure NodeOk (id : ClusterNodeId) (node : ClusterNode) : Prop where
  id_eq : id = node.id
  address : isBlank node.address = false
  certificate : ∀ sha256 ∈ node.tlsCertificateSha256, isLowerSha256 sha256 = true
  pending : ∀ sha256 ∈ node.pendingTlsCertificateSha256, isLowerSha256 sha256 = true ∧
    node.tlsCertificateSha256.isSome = true ∧ node.tlsCertificateSha256 ≠ some sha256
  incarnation : node.incarnation ≠ 0
  capacity : node.capacityBytes ≠ 0
  used : node.usedBytes ≤ node.capacityBytes
  labels : ∀ label ∈ node.labels.entries, LabelOk label.1 label.2

theorem validateLabel_eq_ok {key value : String} :
    validateLabel key value = .ok () ↔ isIdentifier key = true ∧ isLabelValue value = true := by
  simp [validateLabel, validateIdentifier]

theorem validatePendingCertificate_eq_ok {id : ClusterNodeId} {node : ClusterNode} :
    ClusterTopology.validatePendingCertificate id node = .ok () ↔
      ∀ sha256 ∈ node.pendingTlsCertificateSha256, isLowerSha256 sha256 = true ∧
        node.tlsCertificateSha256.isSome = true ∧ node.tlsCertificateSha256 ≠ some sha256 := by
  unfold validatePendingCertificate
  cases node.pendingTlsCertificateSha256 with
  | none => simp
  | some sha256 => simp [validateCertificateSha256]

theorem validateNode_eq_ok {id : ClusterNodeId} {node : ClusterNode} :
    ClusterTopology.validateNode id node = .ok () ↔ NodeOk id node := by
  simp only [validateNode, validateSchemaLabel, andThen_eq_ok,
    require_eq_ok, forAll_eq_ok, validateLabel_eq_ok, validatePendingCertificate_eq_ok,
    validateCertificateSha256, Option.mem_toList, nodeOk_iff, labelOk_iff, and_assoc]
  rfl

/-! ## Ranges -/

/-- The node may hold data. -/
def Hosts (nodes : Nodes) (nodeId : ClusterNodeId) : Prop :=
  ∃ node, nodes.get? nodeId = some node ∧ node.metadataRole = .voter

/-- A valid range. -/
@[mk_iff]
structure RangeOk (nodes : Nodes) (range : RangeDescriptor) : Prop where
  id_ne : range.id ≠ 0
  epoch_ne : range.epoch ≠ 0
  interval : ∀ stop ∈ range.endToken, range.startToken < stop
  placement : range.placement.validate = .ok ()
  replicas_ne : range.replicas ≠ []
  hosts : ∀ replica ∈ range.replicas, Hosts nodes replica.nodeId
  replicaIds : (range.replicas.map (·.id)).Nodup
  replicaNodes : (range.replicas.map (·.nodeId)).Nodup
  leader : range.hasVoter range.leader = true

variable {range : RangeDescriptor} {nodes : Nodes}

theorem validateReplica_eq_ok {seen : List RangeReplica} {replica : RangeReplica} :
    range.validateReplica nodes seen replica = .ok () ↔
      Hosts nodes replica.nodeId ∧
        ∀ other ∈ seen, other.id ≠ replica.id ∧ other.nodeId ≠ replica.nodeId := by
  simp only [RangeDescriptor.validateReplica, andThen_eq_ok, require_eq_ok, Hosts]
  cases nodes.get? replica.nodeId with
  | none => simp
  | some node =>
    simp only [require_eq_ok, Option.some.injEq, exists_eq_left', forall_and]
    tauto

theorem validateRange_eq_ok :
    range.validate nodes = .ok () ↔ RangeOk nodes range := by
  have hreplicas := @forAllSeen_eq_ok _ _ (range.validateReplica nodes) _ _
    (fun _ _ => validateReplica_eq_ok) [] range.replicas ()
  simp only [RangeDescriptor.validate, andThen_eq_ok, require_eq_ok, hreplicas, not_mem_nil,
    false_implies, implies_true, true_and, pairwise_and_iff, rangeOk_iff, Nodup, pairwise_map,
    and_assoc]

/-- The ids of all replicas. -/
def replicaIdsOf (ranges : List RangeDescriptor) : List ReplicaId :=
  ranges.flatMap fun range => range.replicas.map (·.id)

theorem replicaIdsOf_append (l l' : List RangeDescriptor) :
    replicaIdsOf (l ++ l') = replicaIdsOf l ++ replicaIdsOf l' :=
  flatMap_append

theorem mem_replicaIdsOf {ranges : List RangeDescriptor} {id : ReplicaId} :
    id ∈ replicaIdsOf ranges ↔ ∃ range ∈ ranges, ∃ replica ∈ range.replicas, replica.id = id := by
  simp [replicaIdsOf]

/-- The ranges follow each other without gap or overlap. -/
abbrev TokensTiled (start : Nat) (ranges : List RangeDescriptor) : Prop :=
  Tiles RangeDescriptor.startToken RangeDescriptor.endToken start ranges

/-- The ranges tile the tokens and have ids of their own. -/
structure MapOk (ranges : Ranges) : Prop where
  keys : ∀ entry ∈ ranges.entries, entry.1 = entry.2.startToken
  tiled : TokensTiled 0 ranges.values
  rangeIds : (ranges.values.map (·.id)).Nodup

/-- A valid range map. -/
structure RangesOk (nodes : Nodes) (ranges : Ranges) : Prop extends MapOk ranges where
  replicaIds : (replicaIdsOf ranges.values).Nodup
  each : ∀ range ∈ ranges.values, RangeOk nodes range

/-- What the walk over the ranges has left to check. -/
@[mk_iff]
structure WalkOk (nodes : Nodes) (walk : RangeWalk) (rest : List (Nat × RangeDescriptor)) :
    Prop where
  keys : ∀ entry ∈ rest, entry.1 = entry.2.startToken
  tiled : TokensTiled walk.expectedStart (rest.map Prod.snd)
  rangeIds : (rest.map (·.2.id)).Nodup
  newRangeIds : ∀ entry ∈ rest, entry.2.id ∉ walk.rangeIds
  replicaIds : (replicaIdsOf (rest.map Prod.snd)).Nodup
  newReplicaIds : ∀ id ∈ replicaIdsOf (rest.map Prod.snd), id ∉ walk.globalReplicaIds
  each : ∀ entry ∈ rest, RangeOk nodes entry.2

theorem walkRanges_afterEnd {walk walk' : RangeWalk} {rest : List (Nat × RangeDescriptor)}
    (hopen : walk.sawOpenEnd = true) :
    walkRanges nodes walk rest = .ok walk' ↔ rest = [] ∧ walk' = walk := by
  cases rest with
  | nil => simp [walkRanges, eq_comm]
  | cons => simp [walkRanges, hopen]

/-- The walk over the ranges succeeds exactly on what is left to check. -/
theorem walkRanges_eq_ok {rest : List (Nat × RangeDescriptor)} {walk : RangeWalk}
    (hopen : walk.sawOpenEnd = false) :
    (∃ walk', walkRanges nodes walk rest = .ok walk' ∧ walk'.sawOpenEnd = true) ↔
      WalkOk nodes walk rest := by
  induction rest generalizing walk with
  | nil =>
    have hend : ¬ TokensTiled walk.expectedStart [] := not_nil
    simp [walkRanges, walkOk_iff, hopen, hend]
  | cons entry rest ih =>
    obtain ⟨start, range⟩ := entry
    have hids : replicaIdsOf (range :: rest.map Prod.snd) =
        range.replicas.map (·.id) ++ replicaIdsOf (rest.map Prod.snd) := rfl
    simp only [walkRanges, andThen_eq_ok, require_eq_ok, forAll_eq_ok, validateRange_eq_ok,
      walkOk_iff, map_cons, forall_mem_cons, cons_iff, nodup_cons, hids, nodup_append',
      forall_mem_append, forall_mem_map]
    cases hend : range.endToken with
    | none =>
      simp only [@walkRanges_afterEnd _ (RangeWalk.mk _ (Option.isNone none) _ _) _ _ rfl]
      constructor
      · rintro ⟨walk', ⟨rfl, -, hstart, hid, hok, hreplicas, rfl, -⟩, -⟩
        simpa [replicaIdsOf, hstart, hid, hok] using ⟨hok.replicaIds, hreplicas⟩
      · rintro ⟨⟨rfl, -⟩, ⟨hstart, ⟨-, hrest⟩ | ⟨_, ⟨⟩, -⟩⟩, -, ⟨hid, -⟩, -, ⟨hreplicas, -⟩, hok, -⟩
        exact ⟨_, ⟨rfl, hopen, hstart, hid, hok, hreplicas, map_eq_nil_iff.1 hrest, rfl⟩, rfl⟩
    | some stop =>
      have hnext := @ih ⟨stop, false, range.id :: walk.rangeIds,
        range.replicas.map (·.id) ++ walk.globalReplicaIds⟩ rfl
      rw [walkOk_iff] at hnext
      simp only [mem_cons, mem_append, not_or] at hnext
      constructor
      · rintro ⟨walk', ⟨rfl, -, hstart, hid, hok, hreplicas, hwalk⟩, hopen'⟩
        obtain ⟨hkeys, htiled, hrangeIds, hnew, hreplicaIds, hnewReplicas, heach⟩ :=
          hnext.1 ⟨walk', hwalk, hopen'⟩
        refine ⟨⟨rfl, hkeys⟩, ⟨hstart, .inr ⟨stop, rfl, hok.interval stop hend, htiled⟩⟩,
          ⟨fun hmem => ?_, hrangeIds⟩, ⟨hid, fun entry hentry => (hnew entry hentry).2⟩,
          ⟨hok.replicaIds, hreplicaIds, fun id hmem hmem' => (hnewReplicas id hmem').1 hmem⟩,
          ⟨hreplicas, fun id hmem => (hnewReplicas id hmem).2⟩, hok, heach⟩
        obtain ⟨entry, hentry, heq⟩ := mem_map.1 hmem
        exact (hnew entry hentry).1 heq
      · rintro ⟨⟨rfl, hkeys⟩, ⟨hstart, ⟨⟨⟩, -⟩ | ⟨_, ⟨⟩, -, htiled⟩⟩, ⟨hfresh, hrangeIds⟩,
          ⟨hid, hnew⟩, ⟨-, hreplicaIds, hdisjoint⟩, ⟨hreplicas, hnewReplicas⟩, hok, heach⟩
        obtain ⟨walk', hwalk, hopen'⟩ := hnext.2 ⟨hkeys, htiled, hrangeIds,
          fun entry hentry =>
            ⟨fun heq => hfresh (mem_map.2 ⟨entry, hentry, heq⟩), hnew entry hentry⟩,
          hreplicaIds, fun id hmem =>
            ⟨fun hmem' => hdisjoint hmem' hmem, hnewReplicas id hmem⟩, heach⟩
        exact ⟨walk', ⟨rfl, hopen, hstart, hid, hok, hreplicas, hwalk⟩, hopen'⟩

variable {ranges : Ranges}

theorem validateRangeMap_eq_ok :
    validateRangeMap ranges nodes = .ok () ↔ RangesOk nodes ranges := by
  have hwalk := @walkRanges_eq_ok nodes ranges.entries ⟨0, false, [], []⟩ rfl
  rw [validateRangeMap, andThen_eq_ok, bind_eq_ok]
  simp only [require_eq_ok, hwalk]
  constructor
  · rintro ⟨-, h⟩
    refine ⟨⟨h.keys, h.tiled, by simpa [values, Function.comp_def] using h.rangeIds⟩,
      h.replicaIds, fun range hrange => ?_⟩
    obtain ⟨start, hmem⟩ := mem_values_iff.1 hrange
    exact h.each _ hmem
  · intro h
    refine ⟨fun hnil => ?_, ?_⟩
    · have htiled := h.tiled
      rw [values, hnil] at htiled
      exact not_nil htiled
    · exact ⟨h.keys, h.tiled, by simpa [values, Function.comp_def] using h.rangeIds,
        by simp, h.replicaIds, by simp,
        fun entry hentry => h.each _ (mem_values_iff.2 ⟨entry.1, hentry⟩)⟩

/-! ## Relocations -/

/-- The epoch of a range fits the phase of its relocation. -/
def EpochOk (relocation : RangeRelocation) (range : RangeDescriptor) : Prop :=
  if relocation.phase ∈ [.promoted, .cleaningUp] then
    range.epoch = relocation.promotedEpoch.getD 0
  else relocation.phase ∈ [.completed, .failed] ∨ range.epoch = relocation.learnerEpoch

/-- A relocation fits its range and target. -/
@[mk_iff]
structure RelocationAgainst (relocation : RangeRelocation) (range : RangeDescriptor)
    (target : RangeReplica) : Prop where
  node : target.nodeId = relocation.target
  role : target.role = relocation.expectedRole
  epoch : EpochOk relocation range
  resumable : relocation.phase = .failed → relocation.resumePhase.isSome = true
  notResumable : relocation.phase ≠ .failed → relocation.resumePhase.isNone = true
  snapshot : relocation.phase ∈ [.catchingUp, .readyToPromote, .promoted, .cleaningUp, .completed] →
    relocation.hasSnapshotMetadata = true
  parity : relocation.phase = .readyToPromote →
    relocation.sourceCommitSequence.getD u64Max ≤ relocation.destinationDurableCommitSequence.getD 0

/-- A valid relocation. -/
@[mk_iff]
structure RelocationOk (ranges : Ranges) (relocation : RangeRelocation) : Prop where
  id_ne : relocation.id ≠ 0
  expectedEpoch_ne : relocation.expectedEpoch ≠ 0
  learnerEpoch_ne : relocation.learnerEpoch ≠ 0
  planId_ne : relocation.planId ≠ ""
  completed : relocation.phase = .completed →
    relocation.promotedEpoch.isSome = true ∧ relocation.hasSnapshotMetadata = true
  active : relocation.phase ≠ .completed → ∃ range target,
    (ranges.values.find? fun range => range.id = relocation.rangeId) = some range ∧
      (range.replicas.find? fun replica => replica.id = relocation.targetReplicaId) = some target ∧
      RelocationAgainst relocation range target

variable {relocation : RangeRelocation}

theorem validateEpoch_eq_ok :
    relocation.validateEpoch range = .ok () ↔ EpochOk relocation range := by
  unfold RangeRelocation.validateEpoch EpochOk
  split_ifs <;> exact require_eq_ok

theorem validateRelocationRecord_eq_ok :
    relocation.validate ranges = .ok () ↔ RelocationOk ranges relocation := by
  simp only [RangeRelocation.validate, andThen_eq_ok, require_eq_ok, relocationOk_iff]
  by_cases hphase : relocation.phase = .completed
  · simp [hphase, and_assoc]
  cases ranges.values.find? fun range => range.id = relocation.rangeId with
  | none => simp [hphase]
  | some range =>
    cases htarget : range.replicas.find? fun replica => replica.id = relocation.targetReplicaId with
    | none => simp [hphase, htarget]
    | some target => 
      simp [hphase, htarget, RangeRelocation.validateAgainst, validateEpoch_eq_ok,
        relocationAgainst_iff, and_assoc]

/-! ## The whole topology -/

/-- A valid history. -/
@[mk_iff]
structure HistoryOk (generation : Nat) (history : List TopologyChange) : Prop where
  bounds : ∀ change ∈ history, change.generation ≠ 0 ∧ change.generation ≤ generation
  ordered : history.Pairwise fun before after => before.generation ≤ after.generation

theorem validateHistory_eq_ok {generation previous : Nat} {history : List TopologyChange} :
    ClusterTopology.validateHistory generation previous history = .ok () ↔
      HistoryOk generation history ∧ ∀ change ∈ history, previous ≤ change.generation := by
  induction history generalizing previous with
  | nil => simp [validateHistory, HistoryOk.mk]
  | cons change history ih =>
    simp only [validateHistory, andThen_eq_ok, require_eq_ok, ih, historyOk_iff, forall_mem_cons,
      pairwise_cons]
    constructor
    · rintro ⟨⟨hne, hle, hprev⟩, ⟨hbounds, hordered⟩, hafter⟩
      exact ⟨⟨⟨⟨hne, hle⟩, hbounds⟩, hafter, hordered⟩, hprev, fun later hl =>
        hprev.trans (hafter later hl)⟩
    · rintro ⟨⟨⟨⟨hne, hle⟩, hbounds⟩, hafter, hordered⟩, hprev, -⟩
      exact ⟨⟨hne, hle, hprev⟩, ⟨hbounds, hordered⟩, hafter⟩

/-- Not two active relocations of one range. -/
def Apart (r r' : RangeRelocation) : Prop :=
  r.isActive = true → r'.isActive = true → r.rangeId ≠ r'.rangeId

/-- Valid relocations. -/
@[mk_iff]
structure RelocationsOk (ranges : Ranges) (relocations : Relocations) : Prop where
  keys : ∀ entry ∈ relocations.entries, entry.1 = entry.2.id
  each : ∀ entry ∈ relocations.entries, RelocationOk ranges entry.2
  apart : relocations.entries.Pairwise fun entry entry' => Apart entry.2 entry'.2

theorem validateRelocations_eq_ok {relocations : Relocations} :
    forAllSeen (ClusterTopology.validateRelocation ranges) [] relocations.entries = .ok () ↔
      RelocationsOk ranges relocations := by
  have hloop := @forAllSeen_eq_ok _ _ (validateRelocation ranges)
    (fun entry => entry.1 = entry.2.id ∧ RelocationOk ranges entry.2)
    (fun entry entry' => Apart entry.2 entry'.2) (fun seen entry => by
      simp only [validateRelocation, andThen_eq_ok, require_eq_ok,
        validateRelocationRecord_eq_ok, Apart, and_assoc]) [] relocations.entries ()
  simp only [hloop, relocationsOk_iff, not_mem_nil, false_implies, implies_true, true_and,
    forall₂_and, and_assoc]

/-- Valid nodes. -/
@[mk_iff]
structure NodesOk (nodes : Nodes) : Prop where
  nonempty : nodes.entries ≠ []
  voter : nodes.values.any ClusterNode.isMetadataVoter = true
  each : ∀ entry ∈ nodes.entries, NodeOk entry.1 entry.2

/-- A valid topology. -/
@[mk_iff]
structure TopologyOk (topology : ClusterTopology) : Prop where
  formatVersion : topology.formatVersion = distributionFormatVersion
  hashVersion : topology.hashVersion = distributionHashVersion
  generation : topology.generation ≠ 0
  replicationFactor : topology.replicationFactor ≠ 0
  nodes : NodesOk topology.nodes
  nextRangeId : topology.nextRangeId ≠ 0
  nextReplicaId : topology.nextReplicaId ≠ 0
  nextRelocationId : topology.nextRelocationId ≠ 0
  ranges : RangesOk topology.nodes topology.ranges
  rangeIds : ∀ range ∈ topology.ranges.values, range.id < topology.nextRangeId
  replicaIds : ∀ id ∈ replicaIdsOf topology.ranges.values, id < topology.nextReplicaId
  relocationIds : ∀ entry ∈ topology.relocations.entries, entry.1 < topology.nextRelocationId
  relocationBound : topology.relocations.size ≤ defaultRelocationHistoryLimit
  relocations : RelocationsOk topology.ranges topology.relocations
  planBound : topology.appliedRebalancePlans.length ≤ defaultAppliedPlanHistoryLimit
  history : HistoryOk topology.generation topology.history

/-- **The validator accepts exactly the valid topologies.** -/
theorem validate_eq_ok {topology : ClusterTopology} :
    topology.validate = .ok () ↔ TopologyOk topology := by
  have hids : (∀ range ∈ topology.ranges.values, ∀ replica ∈ range.replicas,
      replica.id < topology.nextReplicaId) ↔
      ∀ id ∈ replicaIdsOf topology.ranges.values, id < topology.nextReplicaId := by
    simp only [mem_replicaIdsOf]
    exact ⟨fun h id ⟨range, hrange, replica, hreplica, heq⟩ =>
      heq ▸ h range hrange replica hreplica,
      fun h range hrange replica hreplica => h _ ⟨range, hrange, replica, hreplica, rfl⟩⟩
  have hkeys : (∀ id ∈ topology.relocations.keys, id < topology.nextRelocationId) ↔
      ∀ entry ∈ topology.relocations.entries, entry.1 < topology.nextRelocationId := by
    simp [OrderedMap.keys]
  simp only [validate, andThen_eq_ok, require_eq_ok, forAll_eq_ok,
    validateNode_eq_ok, validateRangeMap_eq_ok, validateRelocations_eq_ok, validateHistory_eq_ok,
    hids, hkeys, topologyOk_iff, nodesOk_iff, Nat.zero_le, implies_true, and_true]
  tauto

end BicDb.Distribution
