import BicDb.Foundation.Run
import BicDb.Replication.Consensus

/-!
# Clusters of consensus nodes

The nodes of a cluster, the messages sent and what each node has applied. A message may be delivered
late, more than once, in any order, or never. `clusterStep` performs one call of the consensus
interface. A cluster that takes `Admissible` steps is safe.
-/

namespace BicDb.Replication

open BicDb.Foundation

universe u v

variable {ι : Type u} {β : Type v}

/-- Nodes, messages sent so far and the frames each node has applied, with their log index. -/
structure Cluster (ι : Type u) (β : Type v) where
  node : ι → ConsensusState ι β
  voteRequests : List (RequestVote ι)
  voteResponses : List (ι × VoteResponse ι)
  appendRequests : List (AppendEntries ι β)
  appendResponses : List (ι × AppendResponse ι)
  applied : ι → List (Nat × CommitFrame β)

/-- One call on a node; messages are named by their position among those sent. -/
inductive Action (ι : Type u) (β : Type v) where
  | becomeCandidate (n : ι)
  | handleRequestVote (n : ι) (message : Nat)
  | becomeLeader (n : ι) (votes : List ι)
  | appendLocalCommit (n : ι) (frame : CommitFrame β)
  | appendEntriesFrom (n : ι) (nextIndex : Nat)
  | handleAppendEntries (n : ι) (message : Nat)
  | recordAppendResponse (n : ι) (message : Nat)
  | applyCommittedPrefix (n : ι)

namespace Cluster

variable [DecidableEq ι]

/-- All nodes new. -/
def init (clusterId : ι) (peers : List (ConsensusPeer ι)) : Cluster ι β where
  node := fun n => ConsensusState.new ⟨clusterId, n, peers⟩
  voteRequests := []
  voteResponses := []
  appendRequests := []
  appendResponses := []
  applied := fun _ => []

variable (c : Cluster ι β)

def set (n : ι) (st : ConsensusState ι β) : Cluster ι β :=
  { c with node := Function.update c.node n st }

/-- `v` granted `n` its vote in the current term of `n`: a granting answer came back, or `v` is `n`
itself. -/
def granted (n v : ι) : Bool :=
  decide (v = n) ||
    c.voteResponses.any fun m =>
      decide (m.1 = n) && decide (m.2.voterId = v) &&
        decide (m.2.term = (c.node n).currentTerm) && m.2.voteGranted

/-- The votes are a quorum with the node itself. -/
def wins (n : ι) (votes : List ι) : Bool :=
  decide votes.Nodup && decide (n ∈ votes) &&
    votes.all (fun v => decide (v ∈ (c.node n).voters.ids) && c.granted n v) &&
    decide ((c.node n).voters.ids.length < 2 * votes.length)

end Cluster

open Cluster

variable [DecidableEq ι]

/-- One call; `none` when there is no such message or the call returns an error. -/
def clusterStep (c : Cluster ι β) : Action ι β → Option (Cluster ι β)
  | .becomeCandidate n =>
    let out := (c.node n).becomeCandidate
    some { c.set n out.2 with voteRequests := c.voteRequests ++ [out.1] }
  | .handleRequestVote n message =>
    match c.voteRequests[message]? with
    | none => none
    | some request =>
      match (c.node n).handleRequestVote request with
      | .error _ => none
      | .ok (response, st) => some { c.set n st with
          voteResponses := c.voteResponses ++ [(request.candidateId, response)] }
  | .becomeLeader n votes =>
    if c.wins n votes then
      match (c.node n).becomeLeader with
      | .error _ => none
      | .ok st => some (c.set n st)
    else none
  | .appendLocalCommit n frame =>
    match (c.node n).appendLocalCommit frame with
    | .error _ => none
    | .ok (_, st) => some (c.set n st)
  | .appendEntriesFrom n nextIndex =>
    some { c with
      appendRequests := c.appendRequests ++ [(c.node n).appendEntriesFrom nextIndex] }
  | .handleAppendEntries n message =>
    match c.appendRequests[message]? with
    | none => none
    | some request =>
      match (c.node n).handleAppendEntries request with
      | .error _ => none
      | .ok (response, st) => some { c.set n st with
          appendResponses := c.appendResponses ++ [(request.leaderId, response)] }
  | .recordAppendResponse n message =>
    match c.appendResponses[message]? with
    | none => none
    | some (leader, response) =>
      if leader = n then
        match (c.node n).recordAppendResponse response.nodeId response with
        | .error _ => none
        | .ok (_, st) => some (c.set n st)
      else none
  | .applyCommittedPrefix n =>
    let out := (c.node n).applyCommittedPrefix
    some { c.set n out.2 with
      applied := Function.update c.applied n
        (c.applied n ++ (out.1.zipIdx ((c.node n).lastApplied + 1)).map fun fi => (fi.2, fi.1)) }

/-! ## The condition on steps -/

/-- The entry before those sent is there. -/
def HoldsPrev (st : ConsensusState ι β) (request : AppendEntries ι β) : Prop :=
  request.prevLogIndex = 0 ∨
    ∃ prev ∈ st.entryAt request.prevLogIndex, prev.term = request.prevLogTerm

/-- The log goes on behind the entries sent, with entries that none sent contradicts; the answer
would count them as matched. -/
def StaleSuffix (st : ConsensusState ι β) (request : AppendEntries ι β) : Prop :=
  HoldsPrev st request ∧ request.prevLogIndex + request.entries.length < st.lastLogIndex ∧
    st.lastLogTerm ≠ request.term ∧
    ∀ e ∈ request.entries, ∀ x ∈ st.log, x.index = e.index → x.term = e.term

/-- Counters stay below their limit. A new leader remembers of the other voters no match index above
its commit index. Append requests are made by leaders, from no further than one past their log, and
never meet a stale suffix. No successful answer of an earlier term is counted. -/
def Admissible (c : Cluster ι β) : Action ι β → Prop
  | .becomeCandidate n => (c.node n).currentTerm < u64Max
  | .handleRequestVote _ _ => True
  | .becomeLeader n _ =>
    ∀ v ∈ (c.node n).voters.ids, v ≠ n → (c.node n).matched v ≤ (c.node n).commitIndex
  | .appendLocalCommit n _ => (c.node n).lastLogIndex < u64Max
  | .appendEntriesFrom n nextIndex =>
    (c.node n).role = .leader ∧ nextIndex ≤ (c.node n).lastLogIndex + 1
  | .handleAppendEntries n message =>
    ∀ request ∈ c.appendRequests[message]?,
      (c.node n).currentTerm ≤ request.term → ¬ StaleSuffix (c.node n) request
  | .recordAppendResponse n message =>
    ∀ answer ∈ c.appendResponses[message]?, (c.node n).role = .leader → answer.2.success = true →
      (c.node n).currentTerm ≤ answer.2.term
  | .applyCommittedPrefix _ => True

instance (st : ConsensusState ι β) (request : AppendEntries ι β) :
    Decidable (StaleSuffix st request) := by
  unfold StaleSuffix HoldsPrev
  infer_instance

instance (c : Cluster ι β) (a : Action ι β) : Decidable (Admissible c a) := by
  cases a <;> dsimp only [Admissible] <;> infer_instance

/-- What admissible steps reach. -/
abbrev Reachable (clusterId : ι) (peers : List (ConsensusPeer ι)) : Cluster ι β → Prop :=
  Reach clusterStep Admissible (Cluster.init clusterId peers)

end BicDb.Replication
