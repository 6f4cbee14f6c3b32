import BicDb.Foundation.IndexedLog
import Mathlib.Data.List.Dedup
import Mathlib.Data.List.Sort

/-!
# The replication consensus of one node

`ConsensusState` of `consensus.rs`. Identifiers have a type `ι` and are only compared; what
consensus does not look at in a commit frame has a type `β`. Counters are natural numbers with the
saturation of the source's. A method that fails leaves the state as it was.
-/

namespace BicDb.Replication

open BicDb.Foundation

universe u v

/-- The errors of the replica. -/
inductive ConsensusError (ι : Type u) where
  | onlyCandidateCanLead
  | onlyLeaderCanAppend
  | nonVotingNode (nodeId : ι)
  | clusterIdMismatch (expected got : ι)
  deriving DecidableEq

/-- A peer of the cluster. -/
structure ConsensusPeer (ι : Type u) where
  nodeId : ι
  voting : Bool

/-- Voters, each once. -/
structure VoterSet (ι : Type u) where
  ids : List ι
  nodup : ids.Nodup

/-- The part of `ConsensusConfig` that the state is built from. -/
structure ConsensusConfig (ι : Type u) where
  clusterId : ι
  nodeId : ι
  peers : List (ConsensusPeer ι)

/-- The voting peers. -/
def ConsensusConfig.voterIds {ι : Type u} [DecidableEq ι] (config : ConsensusConfig ι) :
    VoterSet ι where
  ids := ((config.peers.filter (·.voting)).map (·.nodeId)).dedup
  nodup := List.nodup_dedup _

/-- The role of a node in its term. -/
inductive ConsensusRole where
  | follower
  | candidate
  | leader
  deriving DecidableEq

/-- A commit of the database. -/
structure CommitFrame (β : Type v) where
  commitSeq : Nat
  body : β
  deriving DecidableEq

/-- A commit in the log. -/
structure ConsensusLogEntry (β : Type v) where
  index : Nat
  term : Nat
  commitSeq : Nat
  frame : CommitFrame β
  deriving DecidableEq

/-- The state of a node. -/
structure ConsensusState (ι : Type u) (β : Type v) where
  clusterId : ι
  nodeId : ι
  currentTerm : Nat
  votedFor : Option ι
  role : ConsensusRole
  leaderId : Option ι
  commitIndex : Nat
  lastApplied : Nat
  log : List (ConsensusLogEntry β)
  voters : VoterSet ι
  matchIndex : ι → Option Nat

/-- A candidate asks for a vote. -/
structure RequestVote (ι : Type u) where
  clusterId : ι
  term : Nat
  candidateId : ι
  lastLogIndex : Nat
  lastLogTerm : Nat

/-- The answer to it. -/
structure VoteResponse (ι : Type u) where
  clusterId : ι
  term : Nat
  voterId : ι
  voteGranted : Bool

/-- Entries for a follower. -/
structure AppendEntries (ι : Type u) (β : Type v) where
  clusterId : ι
  term : Nat
  leaderId : ι
  prevLogIndex : Nat
  prevLogTerm : Nat
  entries : List (ConsensusLogEntry β)
  leaderCommit : Nat

/-- The answer to them. -/
structure AppendResponse (ι : Type u) where
  clusterId : ι
  term : Nat
  nodeId : ι
  success : Bool
  matchIndex : Nat

namespace ConsensusState

variable {ι : Type u} {β : Type v}

/-- The state of a new node. -/
def new [DecidableEq ι] (config : ConsensusConfig ι) : ConsensusState ι β where
  clusterId := config.clusterId
  nodeId := config.nodeId
  currentTerm := 0
  votedFor := none
  role := .follower
  leaderId := none
  commitIndex := 0
  lastApplied := 0
  log := []
  voters := config.voterIds
  matchIndex := fun v => if v ∈ config.voterIds.ids then some 0 else none

variable (st : ConsensusState ι β)

def lastLogIndex : Nat := (st.log.getLast?).elim 0 (·.index)

def lastLogTerm : Nat := (st.log.getLast?).elim 0 (·.term)

/-- The entry at an index. -/
def entryAt (index : Nat) : Option (ConsensusLogEntry β) :=
  st.log.find? fun entry => entry.index == index

/-- The recorded match index of a voter, `0` when there is none. -/
def matched (voter : ι) : Nat := (st.matchIndex voter).getD 0

/-- Starts an election and votes for itself. -/
def becomeCandidate : RequestVote ι × ConsensusState ι β :=
  let st' := { st with
    currentTerm := satSucc st.currentTerm
    role := .candidate
    votedFor := some st.nodeId
    leaderId := none }
  (⟨st'.clusterId, st'.currentTerm, st'.nodeId, st'.lastLogIndex, st'.lastLogTerm⟩, st')

/-- What a node is known to hold. -/
def insertMatch [DecidableEq ι] (nodeId : ι) (index : Nat) : ConsensusState ι β :=
  { st with matchIndex := Function.update st.matchIndex nodeId (some index) }

/-- A candidate leads. -/
def becomeLeader [DecidableEq ι] : Except (ConsensusError ι) (ConsensusState ι β) :=
  if st.role ≠ .candidate then .error .onlyCandidateCanLead
  else
    .ok (({ st with role := .leader, leaderId := some st.nodeId } : ConsensusState ι β).insertMatch
      st.nodeId st.lastLogIndex)

/-- Adopt a later term, without a vote in it, and follow. -/
def stepDown (term : Nat) (leaderId : Option ι) : ConsensusState ι β :=
  let st' := if term > st.currentTerm then { st with currentTerm := term, votedFor := none } else st
  { st' with role := .follower, leaderId := leaderId }

/-- The answer to a vote request. -/
def voteResponse (voteGranted : Bool) : VoteResponse ι :=
  ⟨st.clusterId, st.currentTerm, st.nodeId, voteGranted⟩

/-- The answer to append entries. -/
def appendResponse (success : Bool) : AppendResponse ι :=
  ⟨st.clusterId, st.currentTerm, st.nodeId, success, if success then st.lastLogIndex else 0⟩

/-- Whether a vote is granted. -/
def grants [DecidableEq ι] (request : RequestVote ι) : Bool :=
  let logIsCurrent := decide (request.lastLogTerm > st.lastLogTerm) ||
    (decide (request.lastLogTerm = st.lastLogTerm) &&
      decide (request.lastLogIndex ≥ st.lastLogIndex))
  let canVote := st.votedFor.isNone || decide (st.votedFor = some request.candidateId)
  canVote && logIsCurrent && decide (request.candidateId ∈ st.voters.ids)

/-- Answers a vote request. -/
def handleRequestVote [DecidableEq ι] (request : RequestVote ι) :
    Except (ConsensusError ι) (VoteResponse ι × ConsensusState ι β) :=
  if request.clusterId ≠ st.clusterId then
    .error (.clusterIdMismatch st.clusterId request.clusterId)
  else if request.term < st.currentTerm then .ok (st.voteResponse false, st)
  else
    let st₁ := if request.term > st.currentTerm then st.stepDown request.term none else st
    let granted := st₁.grants request
    let st₂ := if granted then { st₁ with votedFor := some request.candidateId } else st₁
    .ok (st₂.voteResponse granted, st₂)

/-- Drop the entries from `index` on and pull the watermarks back. -/
def truncateFrom (index : Nat) : ConsensusState ι β :=
  let st₁ := { st with log := st.log.filter fun entry => decide (entry.index < index) }
  let st₂ := { st₁ with commitIndex := min st₁.commitIndex st₁.lastLogIndex }
  { st₂ with lastApplied := min st₂.lastApplied st₂.commitIndex }

def push (entry : ConsensusLogEntry β) : ConsensusState ι β :=
  { st with log := st.log ++ [entry] }

/-- The loop of `handle_append_entries` over the incoming entries: whether it ran to its end, and
the state it left. -/
def appendIncoming : ConsensusState ι β → List (ConsensusLogEntry β) → Bool × ConsensusState ι β
  | st, [] => (true, st)
  | st, incoming :: rest =>
    match st.entryAt incoming.index with
    | some existing =>
      if existing.term ≠ incoming.term then
        appendIncoming ((st.truncateFrom incoming.index).push incoming) rest
      else appendIncoming st rest
    | none =>
      if incoming.index ≠ satSucc st.lastLogIndex then (false, st)
      else appendIncoming (st.push incoming) rest

/-- `handle_append_entries` once the leader is accepted. -/
def acceptEntries (request : AppendEntries ι β) : AppendResponse ι × ConsensusState ι β :=
  let store :=
    let out := st.appendIncoming request.entries
    if out.1 then
      let st' := { out.2 with
        commitIndex := max out.2.commitIndex (min request.leaderCommit out.2.lastLogIndex) }
      (st'.appendResponse true, st')
    else (out.2.appendResponse false, out.2)
  if request.prevLogIndex > 0 then
    match st.entryAt request.prevLogIndex with
    | none => (st.appendResponse false, st)
    | some prev =>
      if prev.term ≠ request.prevLogTerm then
        let st' := st.truncateFrom request.prevLogIndex
        (st'.appendResponse false, st')
      else store
  else store

/-- Answers append entries. -/
def handleAppendEntries [DecidableEq ι] (request : AppendEntries ι β) :
    Except (ConsensusError ι) (AppendResponse ι × ConsensusState ι β) :=
  if request.clusterId ≠ st.clusterId then
    .error (.clusterIdMismatch st.clusterId request.clusterId)
  else if request.term < st.currentTerm then .ok (st.appendResponse false, st)
  else .ok ((st.stepDown request.term (some request.leaderId)).acceptEntries request)

/-- Appends a commit of the leader's own. -/
def appendLocalCommit [DecidableEq ι] (frame : CommitFrame β) :
    Except (ConsensusError ι) (ConsensusLogEntry β × ConsensusState ι β) :=
  if st.role ≠ .leader then .error .onlyLeaderCanAppend
  else
    let entry : ConsensusLogEntry β :=
      ⟨satSucc st.lastLogIndex, st.currentTerm, frame.commitSeq, frame⟩
    .ok (entry, (st.push entry).insertMatch st.nodeId entry.index)

/-- The middle of the sorted match indexes, if it is new and of the current term. -/
def recomputeCommitIndex : ConsensusState ι β :=
  let matches' := (st.voters.ids.map st.matched).insertionSort (· ≤ ·)
  match matches'[matches'.length / 2]? with
  | none => st
  | some majorityIndex =>
    if majorityIndex ≤ st.commitIndex then st
    else
      match st.entryAt majorityIndex with
      | none => st
      | some entry =>
        if entry.term = st.currentTerm then { st with commitIndex := majorityIndex } else st

/-- Counts an answer and moves the commit index. -/
def recordAppendResponse [DecidableEq ι] (nodeId : ι) (response : AppendResponse ι) :
    Except (ConsensusError ι) (Nat × ConsensusState ι β) :=
  if response.clusterId ≠ st.clusterId then
    .error (.clusterIdMismatch st.clusterId response.clusterId)
  else if response.term > st.currentTerm then
    let st' := st.stepDown response.term none
    .ok (st'.commitIndex, st')
  else if st.role ≠ .leader ∨ response.success = false then .ok (st.commitIndex, st)
  else if nodeId ∉ st.voters.ids then .error (.nonVotingNode nodeId)
  else
    let st' := (st.insertMatch nodeId response.matchIndex).recomputeCommitIndex
    .ok (st'.commitIndex, st')

/-- The loop of `apply_committed_prefix`, run at most `fuel` times. -/
def applyLoop : Nat → ConsensusState ι β → List (CommitFrame β) →
    List (CommitFrame β) × ConsensusState ι β
  | 0, st, frames => (frames, st)
  | fuel + 1, st, frames =>
    if st.lastApplied < st.commitIndex then
      let next := satSucc st.lastApplied
      match st.entryAt next with
      | some entry => applyLoop fuel { st with lastApplied := next } (frames ++ [entry.frame])
      | none => (frames, st)
    else (frames, st)

/-- The distance of the watermarks bounds the turns. -/
def applyCommittedPrefix : List (CommitFrame β) × ConsensusState ι β :=
  applyLoop (st.commitIndex - st.lastApplied) st []

/-- The request for a follower at an index. -/
def appendEntriesFrom (nextIndex : Nat) : AppendEntries ι β :=
  let prevLogIndex := nextIndex - 1
  { clusterId := st.clusterId
    term := st.currentTerm
    leaderId := st.nodeId
    prevLogIndex := prevLogIndex
    prevLogTerm := if prevLogIndex = 0 then 0 else ((st.entryAt prevLogIndex).map (·.term)).getD 0
    entries := st.log.filter fun entry => decide (nextIndex ≤ entry.index)
    leaderCommit := st.commitIndex }

end ConsensusState

end BicDb.Replication
