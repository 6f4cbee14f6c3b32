import Mathlib.Data.List.Dedup

/-!
# Topologies, restore activations and metadata log entries

The data of `distribution_consensus.rs`. Identifiers are of a type `ι`, the topology fields that
consensus only carries of a type `ρ`; `Platform` gives the checks of these, the SHA-256 digests and
the JSON codec of the state file.
-/

namespace BicDb.Metadata

universe u v w

/-- The errors of the consensus store. -/
inductive MetadataError (ι : Type u) where
  | bootstrapOtherCluster
  | bootstrapOmitsNode (nodeId : ι)
  | stateClusterMismatch (state config : ι)
  | stateNodeMismatch (state config : ι)
  | nonVoterElection
  | onlyCandidateCanLead
  | noVoterQuorum
  | votesOmitSelf
  | onlyLeaderProposesTopology
  | topologyChangeInFlight
  | generationNotAdvanced (generation latest : Nat)
  | onlyLeaderProposesActivation
  | activationOtherTopology
  | metadataChangeInFlight
  | activationNotAdvanced
  | onlyLeaderAppends
  | zeroBatch
  | leaderNotVoter (leaderId : ι)
  | responseNodeMismatch
  | responseFromNonMember (nodeId : ι)
  | committedEntryAbsent
  | snapshotConflict
  | clusterMismatch (localId request : ι)
  | invalidTopology
  | activationBounds
  | activationDigest (kind : String)
  | entryOtherCluster
  | barrierWithActivation
  | activationMismatch
  | unsupportedFormat (format : Nat)
  | checksumMismatch
  | undecodable
  | payloadFormat
  | committedTopologyOtherCluster
  | commitBaseDiffer
  | logNotContiguous
  | barrierRegresses
  | activationChangesTopology
  | generationNotIncreasing
  deriving DecidableEq

/-- The life of a member. -/
inductive ClusterNodeLifecycle where
  | active
  | draining
  | decommissioned
  deriving DecidableEq

/-- Only voters count towards a quorum. -/
inductive MetadataMemberRole where
  | learner
  | voter
  deriving DecidableEq

/-- A node record, as far as consensus reads it. -/
structure ClusterNode (ι : Type u) where
  id : ι
  lifecycle : ClusterNodeLifecycle
  metadataRole : MetadataMemberRole
  deriving DecidableEq

/-- The nodes of a topology: a map keyed by node id, in key order. -/
structure NodeMap (ι : Type u) where
  values : List (ClusterNode ι)
  nodup : (values.map (·.id)).Nodup
  deriving DecidableEq

/-- A topology, seen by consensus: its members, and a rest that only validation reads. -/
structure ClusterTopology (ι : Type u) (ρ : Type v) where
  clusterId : ι
  generation : Nat
  nodes : NodeMap ι
  rest : ρ
  deriving DecidableEq

namespace ClusterTopology

variable {ι : Type u} {ρ : Type v}

/-- A voter that is still a member. -/
def isMetadataVoter (node : ClusterNode ι) : Bool :=
  decide (node.lifecycle ≠ .decommissioned) && decide (node.metadataRole = .voter)

variable (t : ClusterTopology ι ρ)

/-- The ids of the voters. -/
def metadataVoters : List ι :=
  (t.nodes.values.filter isMetadataVoter).map (·.id)

theorem metadataVoters_nodup : t.metadataVoters.Nodup :=
  (List.filter_sublist.map _).nodup t.nodes.nodup

/-- The ids of all members, decommissioned ones included. -/
def memberIds : List ι := t.nodes.values.map (·.id)

end ClusterTopology

/-- A replicated restore activation; digests are characters, UUIDs numbers. -/
structure MetadataRestoreActivation (ι : Type u) where
  formatVersion : Nat
  activationId : Nat
  clusterId : ι
  certificateId : Nat
  certificateChecksumSha256 : List Char
  admissionId : Nat
  admissionChecksumSha256 : List Char
  planId : Nat
  topologyGeneration : Nat
  topologySha256 : List Char
  acknowledgedNodes : Nat
  nodeAckSetSha256 : List Char
  activatedAtMs : Nat
  deriving DecidableEq

def metadataRestoreActivationFormatVersion : Nat := 1

def maxRestoreActivationAcknowledgements : Nat := 100000

/-- A SHA-256 digest in lower-case hex. -/
def isSha256 (digest : List Char) : Bool :=
  decide (digest.length = 64) &&
    digest.all fun c => c.isDigit || ('a' ≤ c && c ≤ 'f') || ('A' ≤ c && c ≤ 'F')

namespace MetadataRestoreActivation

variable {ι : Type u}

/-- The checks of an activation on its own. -/
def validate (a : MetadataRestoreActivation ι) : Except (MetadataError ι) Unit :=
  if a.formatVersion ≠ metadataRestoreActivationFormatVersion ∨ a.activationId = 0 ∨
      a.certificateId = 0 ∨ a.admissionId = 0 ∨ a.planId = 0 ∨ a.topologyGeneration = 0 ∨
      a.acknowledgedNodes = 0 ∨ a.acknowledgedNodes > maxRestoreActivationAcknowledgements ∨
      a.activatedAtMs = 0 then
    .error .activationBounds
  else if !isSha256 a.certificateChecksumSha256 then .error (.activationDigest "certificate")
  else if !isSha256 a.admissionChecksumSha256 then .error (.activationDigest "admission")
  else if !isSha256 a.topologySha256 then .error (.activationDigest "topology")
  else if !isSha256 a.nodeAckSetSha256 then
    .error (.activationDigest "node acknowledgement set")
  else .ok ()

end MetadataRestoreActivation

/-- An entry carries a whole topology. -/
structure MetadataLogEntry (ι : Type u) (ρ : Type v) where
  index : Nat
  term : Nat
  leadershipBarrier : Bool
  topology : ClusterTopology ι ρ
  restoreActivation : Option (MetadataRestoreActivation ι)
  deriving DecidableEq

/-- The role of a node in its term. -/
inductive MetadataConsensusRole where
  | follower
  | candidate
  | leader
  deriving DecidableEq

/-- The state that a node persists. -/
structure MetadataConsensusState (ι : Type u) (ρ : Type v) where
  formatVersion : Nat
  clusterId : ι
  nodeId : ι
  currentTerm : Nat
  votedFor : Option ι
  role : MetadataConsensusRole
  leaderId : Option ι
  baseIndex : Nat
  baseTerm : Nat
  commitIndex : Nat
  committedTopology : ClusterTopology ι ρ
  log : List (MetadataLogEntry ι ρ)
  committedRestoreActivation : Option (MetadataRestoreActivation ι)
  deriving DecidableEq

/-- The file: the state with its digest. -/
structure MetadataConsensusEnvelope (ι : Type u) (ρ : Type v) where
  formatVersion : Nat
  checksumSha256 : List Char
  state : MetadataConsensusState ι ρ
  deriving DecidableEq

/-- What the consensus code takes from elsewhere; the codec reads back what it wrote. -/
structure Platform (ι : Type u) (ρ : Type v) (δ : Type w) where
  restValid : ClusterTopology ι ρ → Bool
  topologySha256 : ClusterTopology ι ρ → List Char
  stateSha256 : MetadataConsensusState ι ρ → List Char
  toVecPretty : MetadataConsensusEnvelope ι ρ → δ
  fromSlice : δ → Option (MetadataConsensusEnvelope ι ρ)
  fromSlice_toVecPretty : ∀ e, fromSlice (toVecPretty e) = some e

section Validation

variable {ι : Type u} {ρ : Type v} {δ : Type w} (P : Platform ι ρ δ)

/-- `ClusterTopology::validate`. -/
def ClusterTopology.isValid (t : ClusterTopology ι ρ) : Bool :=
  decide (t.generation ≠ 0) && decide (t.nodes.values ≠ []) &&
    t.nodes.values.any ClusterTopology.isMetadataVoter && P.restValid t

variable [DecidableEq ι]

/-- The activation names this cluster and topology. -/
def validateActivationAgainstTopology (activation : MetadataRestoreActivation ι)
    (topology : ClusterTopology ι ρ) (clusterId : ι) : Except (MetadataError ι) Unit :=
  match activation.validate with
  | .error e => .error e
  | .ok () =>
    if !topology.isValid P then .error .invalidTopology
    else if activation.clusterId ≠ clusterId ∨ activation.clusterId ≠ topology.clusterId ∨
        activation.topologyGeneration ≠ topology.generation ∨
        activation.topologySha256 ≠ P.topologySha256 topology then
      .error .activationMismatch
    else .ok ()

/-- The check of an activation, where there is one. -/
def validateCarriedActivation (activation : Option (MetadataRestoreActivation ι))
    (topology : ClusterTopology ι ρ) (clusterId : ι) : Except (MetadataError ι) Unit :=
  match activation with
  | none => .ok ()
  | some activation => validateActivationAgainstTopology P activation topology clusterId

/-- The checks of an entry on its own. -/
def validateLogEntryShape (entry : MetadataLogEntry ι ρ) (clusterId : ι) :
    Except (MetadataError ι) Unit :=
  if !entry.topology.isValid P then .error .invalidTopology
  else if entry.topology.clusterId ≠ clusterId then .error .entryOtherCluster
  else if entry.leadershipBarrier && entry.restoreActivation.isSome then
    .error .barrierWithActivation
  else validateCarriedActivation P entry.restoreActivation entry.topology clusterId

end Validation

end BicDb.Metadata
