import BicDb.Foundation.JointQuorum
import BicDb.Foundation.Run
import BicDb.Metadata.Store

/-!
# Clusters of metadata consensus nodes

Nodes bootstrapped from one topology, the messages sent and the terms won. A message may be
delivered late, repeatedly, in any order, or never. `start_election_if_unchanged` is
`start_election` or nothing, so it has no action.
-/

namespace BicDb.Metadata

open BicDb.Foundation

universe u v w

variable {ι : Type u} {ρ : Type v} {δ : Type w}

/-- The nodes and every message sent, with a record of the leaders. -/
structure MetadataCluster (ι : Type u) (ρ : Type v) (δ : Type w) where
  node : ι → MetadataNode ι ρ δ
  voteRequests : List (MetadataVoteRequest ι)
  voteResponses : List (ι × MetadataVoteResponse ι)
  appendRequests : List (MetadataAppendRequest ι ρ)
  appendResponses : List (ι × MetadataAppendResponse ι)
  leaders : List (Nat × ι)

/-- The bootstrap topology, as `open` accepts it. -/
structure Bootstrap (P : Platform ι ρ δ) where
  clusterId : ι
  topology : ClusterTopology ι ρ
  valid : topology.isValid P = true
  cluster : topology.clusterId = clusterId

/-- One call; messages are named by their position. -/
inductive Action (ι : Type u) (ρ : Type v) where
  | startElection (n : ι)
  | handleVoteRequest (n : ι) (message : Nat)
  | becomeLeader (n : ι) (votes : List ι)
  | proposeTopology (n : ι) (topology : ClusterTopology ι ρ)
  | proposeRestoreActivation (n : ι) (activation : MetadataRestoreActivation ι)
  | appendRequestFrom (n : ι) (nextIndex maxEntries : Nat)
  | handleAppendRequest (n : ι) (message : Nat)
  | recordAppendResponse (n expected : ι) (message : Nat)
  | observeRemoteTerm (n : ι) (term : Nat)
  | relinquishLeadership (n : ι)
  | restart (n : ι)

namespace MetadataCluster

variable (c : MetadataCluster ι ρ δ)

def state (n : ι) : MetadataConsensusState ι ρ := (c.node n).store.state

variable [DecidableEq ι]

/-- All nodes started from one topology. -/
def init (P : Platform ι ρ δ) (B : Bootstrap P) : MetadataCluster ι ρ δ where
  node := fun n =>
    MetadataNode.started P (MetadataNode.freshState B.clusterId n B.topology) [] []
  voteRequests := []
  voteResponses := []
  appendRequests := []
  appendResponses := []
  leaders := []

def set (n : ι) (nd : MetadataNode ι ρ δ) : MetadataCluster ι ρ δ :=
  { c with node := Function.update c.node n nd }

/-- The cluster after a node has answered and sent. -/
def after {α : Type*} (n : ι) (out : Except (MetadataError ι) α × MetadataNode ι ρ δ)
    (send : α → MetadataCluster ι ρ δ → MetadataCluster ι ρ δ) :
    Except (MetadataError ι) Unit × MetadataCluster ι ρ δ :=
  match out with
  | (.error e, nd) => (.error e, c.set n nd)
  | (.ok value, nd) => (.ok (), send value (c.set n nd))

/-- A granting answer of `v` came back to `n`, or `v` is `n`. -/
def granted (n v : ι) : Bool :=
  decide (v = n) ||
    c.voteResponses.any fun m =>
      decide (m.1 = n) && decide (m.2.voterId = v) &&
        decide (m.2.term = (c.state n).currentTerm) && m.2.voteGranted

end MetadataCluster

open MetadataCluster

variable [DecidableEq ι] [DecidableEq ρ] (P : Platform ι ρ δ) (B : Bootstrap P)

variable (c : MetadataCluster ι ρ δ)

/-- One call and its result; `none` when there is no such message, or a vote was not granted. -/
def call : Action ι ρ → Option (Except (MetadataError ι) Unit × MetadataCluster ι ρ δ)
  | .startElection n =>
    some (c.after n ((c.node n).startElection P) fun request c =>
      { c with voteRequests := c.voteRequests ++ [request] })
  | .handleVoteRequest n message =>
    match c.voteRequests[message]? with
    | none => none
    | some request =>
      some (c.after n ((c.node n).handleVoteRequest P request) fun response c =>
        { c with voteResponses := c.voteResponses ++ [(request.candidateId, response)] })
  | .becomeLeader n votes =>
    if votes.all (c.granted n) then
      some (c.after n ((c.node n).becomeLeader P (fun v => decide (v ∈ votes))) fun _ c' =>
        { c' with leaders := c'.leaders ++ [((c.state n).currentTerm, n)] })
    else none
  | .proposeTopology n topology =>
    some (c.after n ((c.node n).proposeTopology P topology) fun _ c => c)
  | .proposeRestoreActivation n activation =>
    some (c.after n ((c.node n).proposeRestoreActivation P activation) fun _ c => c)
  | .appendRequestFrom n nextIndex maxEntries =>
    some (c.after n ((c.node n).appendRequestFrom nextIndex maxEntries, c.node n)
      fun request c => { c with appendRequests := c.appendRequests ++ [request] })
  | .handleAppendRequest n message =>
    match c.appendRequests[message]? with
    | none => none
    | some request =>
      some (c.after n ((c.node n).handleAppendRequest P request) fun response c =>
        { c with appendResponses := c.appendResponses ++ [(request.leaderId, response)] })
  | .recordAppendResponse n expected message =>
    match c.appendResponses[message]? with
    | none => none
    | some (leader, response) =>
      if leader = n then
        some (c.after n ((c.node n).recordAppendResponse P expected response) fun _ c => c)
      else none
  | .observeRemoteTerm n term =>
    some (c.after n ((c.node n).observeRemoteTerm P term) fun _ c => c)
  | .relinquishLeadership n =>
    some (c.after n ((c.node n).relinquishLeadership P) fun _ c => c)
  | .restart n =>
    match MetadataNode.openStore P B.clusterId n B.topology (some (c.node n).disk)
      (c.node n).store.committed (c.node n).store.installed with
    | .error e => some (.error e, c)
    | .ok nd => some (.ok (), c.set n nd)

/-- One step of the cluster. -/
def clusterStep (a : Action ι ρ) : Option (MetadataCluster ι ρ δ) :=
  (call P B c a).map (·.2)

/-! ## The conditions on steps -/

omit [DecidableEq ι] [DecidableEq ρ] in
/-- Term and index counters have room. -/
def CountersBelow : Action ι ρ → Prop
  | .startElection n => (c.state n).currentTerm < u64Max
  | .becomeLeader n _ => (c.state n).lastLogIndex + 1 < u64Max
  | .proposeTopology n _ => (c.state n).lastLogIndex + 1 < u64Max
  | .proposeRestoreActivation n _ => (c.state n).lastLogIndex + 1 < u64Max
  | _ => True

omit [DecidableEq ι] [DecidableEq ρ] in
/-- The log goes on behind the entries sent, with entries that nothing contradicts and that do not
end in the request's term; the answer would count them as matched. -/
def StaleSuffix (s : MetadataConsensusState ι ρ) (request : MetadataAppendRequest ι ρ) : Prop :=
  (s.termAt request.prevLogIndex = some request.prevLogTerm ∨
      ∃ S ∈ request.snapshot, s.commitIndex ≤ S.lastIncludedIndex) ∧
    request.prevLogIndex + request.entries.length < s.lastLogIndex ∧
    s.lastLogTerm ≠ request.term ∧
    ∀ e ∈ request.entries, ∀ x ∈ s.log, x.index = e.index → x = e

omit [DecidableEq ι] [DecidableEq ρ] in
/-- No request meets a stale suffix. -/
def NoStaleSuffix : Action ι ρ → Prop
  | .handleAppendRequest n message =>
    ∀ request ∈ c.appendRequests[message]?,
      (c.state n).currentTerm ≤ request.term → ¬ StaleSuffix (c.state n) request
  | _ => True

/-- A proposal changes at most one voter. -/
def SingleVoterChange : Action ι ρ → Prop
  | .proposeTopology n topology =>
    voterDistance (topologyVoters (c.state n).committedTopology) (topologyVoters topology) ≤ 1
  | _ => True

/-- Old and new voters of a proposal overlap. -/
def VotersOverlap : Action ι ρ → Prop
  | .proposeTopology n topology =>
    Overlap (topologyVoters (c.state n).committedTopology) (topologyVoters topology)
  | _ => True

omit [DecidableEq ι] [DecidableEq ρ] in
/-- No node becomes leader with an activation in its log, and no append request moves a commit index
past one. -/
def CarriesActivations : Action ι ρ → Prop
  | .becomeLeader n _ => ∀ e ∈ (c.state n).log, e.restoreActivation = none
  | .handleAppendRequest n message =>
    ∀ request ∈ c.appendRequests[message]?,
      (c.state n).currentTerm ≤ request.term → request.snapshot = none →
        ∀ e ∈ (c.state n).log, e.index < request.leaderCommit → e.restoreActivation = none
  | _ => True

omit [DecidableEq ι] [DecidableEq ρ] in
/-- A topology is proposed only before any activation is committed. -/
def TopologyFrozen : Action ι ρ → Prop
  | .proposeTopology n _ => (c.state n).committedRestoreActivation = none
  | _ => True

/-- The call of the action does not fail. -/
def ReturnsOk (a : Action ι ρ) : Prop :=
  ∀ out ∈ call P B c a, out.1 = .ok ()

instance (s : MetadataConsensusState ι ρ) (request : MetadataAppendRequest ι ρ) :
    Decidable (StaleSuffix s request) := by
  unfold StaleSuffix
  infer_instance

instance (c : MetadataCluster ι ρ δ) (a : Action ι ρ) : Decidable (CountersBelow c a) := by
  cases a <;> dsimp only [CountersBelow] <;> infer_instance

instance (c : MetadataCluster ι ρ δ) (a : Action ι ρ) : Decidable (NoStaleSuffix c a) := by
  cases a <;> dsimp only [NoStaleSuffix] <;> infer_instance

instance (c : MetadataCluster ι ρ δ) (a : Action ι ρ) : Decidable (SingleVoterChange c a) := by
  cases a <;> dsimp only [SingleVoterChange] <;> infer_instance

instance (c : MetadataCluster ι ρ δ) (a : Action ι ρ) : Decidable (VotersOverlap c a) := by
  cases a <;> dsimp only [VotersOverlap] <;> infer_instance

instance (c : MetadataCluster ι ρ δ) (a : Action ι ρ) : Decidable (CarriesActivations c a) := by
  cases a <;> dsimp only [CarriesActivations] <;> infer_instance

omit [DecidableEq ρ] in
instance (c : MetadataCluster ι ρ δ) (a : Action ι ρ) : Decidable (TopologyFrozen c a) := by
  cases a <;> dsimp only [TopologyFrozen] <;> infer_instance

instance (c : MetadataCluster ι ρ δ) (a : Action ι ρ) : Decidable (ReturnsOk P B c a) :=
  match h : call P B c a with
  | none => .isTrue (by simp [ReturnsOk, h])
  | some (.ok (), _) => .isTrue (by simp [ReturnsOk, h])
  | some (.error _, _) => .isFalse (by simp [ReturnsOk, h])

end BicDb.Metadata
