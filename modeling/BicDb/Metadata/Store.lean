import BicDb.Foundation.IndexedLog
import BicDb.Metadata.Topology

/-!
# The metadata consensus store

`MetadataConsensusStore`, function by function. A node is its store in memory with the bytes of its
state file; a call that fails half way has changed only the store. Writing always succeeds, and the
clock feeds no decision. The store also records the entries its commits covered and the snapshots it
installed, which no function reads.
-/

namespace BicDb.Metadata

open BicDb.Foundation

universe u v w

def clusterMetadataConsensusFormatVersion : Nat := 1

/-! ## Messages -/

/-- A candidate asks for a vote. -/
structure MetadataVoteRequest (ι : Type u) where
  clusterId : ι
  term : Nat
  candidateId : ι
  lastLogIndex : Nat
  lastLogTerm : Nat
  deriving DecidableEq

/-- The answer to it. -/
structure MetadataVoteResponse (ι : Type u) where
  clusterId : ι
  term : Nat
  voterId : ι
  voteGranted : Bool
  deriving DecidableEq

/-- The committed state in place of the entries that led to it. -/
structure MetadataSnapshot (ι : Type u) (ρ : Type v) where
  lastIncludedIndex : Nat
  lastIncludedTerm : Nat
  topology : ClusterTopology ι ρ
  restoreActivation : Option (MetadataRestoreActivation ι)
  deriving DecidableEq

/-- Entries for a follower, behind a snapshot where it needs one. -/
structure MetadataAppendRequest (ι : Type u) (ρ : Type v) where
  clusterId : ι
  term : Nat
  leaderId : ι
  prevLogIndex : Nat
  prevLogTerm : Nat
  entries : List (MetadataLogEntry ι ρ)
  leaderCommit : Nat
  snapshot : Option (MetadataSnapshot ι ρ)
  deriving DecidableEq

/-- The answer to them. -/
structure MetadataAppendResponse (ι : Type u) where
  clusterId : ι
  term : Nat
  nodeId : ι
  success : Bool
  matchIndex : Nat
  conflictIndex : Nat
  deriving DecidableEq

variable {ι : Type u} {ρ : Type v} {δ : Type w}

/-! ## The persisted state -/

namespace MetadataConsensusState

variable (s : MetadataConsensusState ι ρ)

/-- The index of the last entry, or of the base. -/
def lastLogIndex : Nat :=
  (s.log.getLast?).elim s.baseIndex (·.index)

/-- Its term. -/
def lastLogTerm : Nat :=
  (s.log.getLast?).elim s.baseTerm (·.term)

/-- The topology of the last entry. -/
def latestTopology : ClusterTopology ι ρ :=
  (s.log.getLast?).elim s.committedTopology (·.topology)

/-- The term at an index that is still known. -/
def termAt (index : Nat) : Option Nat :=
  if index = s.baseIndex then some s.baseTerm
  else (s.log.find? (fun e => e.index == index)).map (·.term)

/-- A later term clears the vote. -/
def stepDown (term : Nat) (leaderId : Option ι) : MetadataConsensusState ι ρ :=
  if s.currentTerm < term then
    { s with currentTerm := term, votedFor := none, role := .follower, leaderId := leaderId }
  else { s with role := .follower, leaderId := leaderId }

/-- `commit_entry`: the entry becomes the base. -/
def commit (entry : MetadataLogEntry ι ρ) : MetadataConsensusState ι ρ :=
  { s with
    commitIndex := entry.index
    baseIndex := entry.index
    baseTerm := entry.term
    committedTopology := entry.topology
    committedRestoreActivation :=
      match entry.restoreActivation with
      | some activation => some activation
      | none => s.committedRestoreActivation
    log := s.log.filter (fun candidate => decide (entry.index < candidate.index)) }

/-- `install_snapshot`: the snapshot becomes the base. -/
def install (snapshot : MetadataSnapshot ι ρ) : MetadataConsensusState ι ρ :=
  { s with
    baseIndex := snapshot.lastIncludedIndex
    baseTerm := snapshot.lastIncludedTerm
    commitIndex := snapshot.lastIncludedIndex
    committedTopology := snapshot.topology
    committedRestoreActivation := snapshot.restoreActivation
    log := s.log.filter (fun entry => decide (snapshot.lastIncludedIndex < entry.index)) }

end MetadataConsensusState

/-- The voters of a topology. -/
def topologyVoters (topology : ClusterTopology ι ρ) : List ι := topology.metadataVoters

/-- The nodes are given by a membership test. -/
def hasQuorum (acks : ι → Bool) (voters : List ι) : Bool :=
  !voters.isEmpty && decide (voters.length / 2 < (voters.filter acks).length)

/-! ## The store -/

/-- State and match indexes, with records of what was committed and installed. -/
structure MetadataConsensusStore (ι : Type u) (ρ : Type v) where
  state : MetadataConsensusState ι ρ
  matchIndex : ι → Option Nat
  committed : List (MetadataLogEntry ι ρ)
  installed : List (MetadataSnapshot ι ρ)

namespace MetadataConsensusStore

variable (s : MetadataConsensusStore ι ρ)

/-- The answer to a vote request. -/
def voteResponse (voteGranted : Bool) : MetadataVoteResponse ι :=
  ⟨s.state.clusterId, s.state.currentTerm, s.state.nodeId, voteGranted⟩

/-- The answer to an append request. -/
def appendResponse (success : Bool) (conflictIndex : Nat) : MetadataAppendResponse ι where
  clusterId := s.state.clusterId
  term := s.state.currentTerm
  nodeId := s.state.nodeId
  success := success
  matchIndex := if success then s.state.lastLogIndex else 0
  conflictIndex := conflictIndex

variable [DecidableEq ι]

/-- Members start at zero, the node itself at its last index. -/
def resetMatchIndexes : MetadataConsensusStore ι ρ :=
  { s with
    matchIndex := fun n =>
      if n = s.state.nodeId then some s.state.lastLogIndex
      else if s.state.committedTopology.nodes.values.any
          (fun m => decide (m.lifecycle ≠ .decommissioned) && decide (m.id = n)) then some 0
      else none }

/-- What a node is known to hold. -/
def insertMatch (n : ι) (index : Nat) : MetadataConsensusStore ι ρ :=
  { s with matchIndex := Function.update s.matchIndex n (some index) }

/-- Appends an entry of the leader's own. -/
def pushEntry (entry : MetadataLogEntry ι ρ) : MetadataConsensusStore ι ρ :=
  let pushed := { s with state := { s.state with log := s.state.log ++ [entry] } }
  pushed.insertMatch s.state.nodeId entry.index

variable (P : Platform ι ρ δ)

/-- Commits an entry and all before it. -/
def commitEntry (entry : MetadataLogEntry ι ρ) :
    Except (MetadataError ι) Unit × MetadataConsensusStore ι ρ :=
  match validateLogEntryShape P entry s.state.clusterId with
  | .error e => (.error e, s)
  | .ok () =>
    let moved : MetadataConsensusStore ι ρ :=
      { s with
        state := s.state.commit entry
        committed := s.committed ++
          s.state.log.filter (fun candidate => decide (candidate.index ≤ entry.index)) }
    (.ok (), moved.resetMatchIndexes)

/-- Whether a node is known to hold an index. -/
def replicated (index : Nat) (n : ι) : Bool :=
  (s.matchIndex n).any (fun known => decide (index ≤ known))

/-- Commits the last entry of the term on a quorum of old and new voters. -/
def maybeCommitLeaderProposal : Except (MetadataError ι) Bool × MetadataConsensusStore ι ρ :=
  match s.state.log.reverse.find? (fun e => e.term == s.state.currentTerm) with
  | none => (.ok false, s)
  | some entry =>
    let acks := s.replicated entry.index
    if !hasQuorum acks (topologyVoters s.state.committedTopology) ||
        !hasQuorum acks (topologyVoters entry.topology) then (.ok false, s)
    else
      match s.commitEntry P entry with
      | (.error e, s') => (.error e, s')
      | (.ok (), s') => (.ok true, s')

/-- Follows the leader's commit index as far as the log goes. -/
def advanceFollowerCommit (leaderCommit : Nat) :
    Except (MetadataError ι) Unit × MetadataConsensusStore ι ρ :=
  let target := min leaderCommit s.state.lastLogIndex
  if target ≤ s.state.commitIndex then (.ok (), s)
  else
    match s.state.log.find? (fun e => e.index == target) with
    | none => (.error .committedEntryAbsent, s)
    | some entry => s.commitEntry P entry

/-- The checks of `install_snapshot` on the snapshot itself. -/
def validateSnapshot (clusterId : ι) (snapshot : MetadataSnapshot ι ρ) :
    Except (MetadataError ι) Unit :=
  if !snapshot.topology.isValid P then .error .invalidTopology
  else if snapshot.topology.clusterId ≠ clusterId then
    .error (.clusterMismatch clusterId snapshot.topology.clusterId)
  else validateCarriedActivation P snapshot.restoreActivation snapshot.topology clusterId

/-- Takes a snapshot that is not behind the commit index. -/
def installSnapshot [DecidableEq ρ] (snapshot : MetadataSnapshot ι ρ) :
    Except (MetadataError ι) Unit × MetadataConsensusStore ι ρ :=
  match validateSnapshot P s.state.clusterId snapshot with
  | .error e => (.error e, s)
  | .ok () =>
    if snapshot.lastIncludedIndex < s.state.commitIndex then (.ok (), s)
    else if snapshot.lastIncludedIndex = s.state.commitIndex ∧
        (snapshot.lastIncludedTerm ≠ s.state.baseTerm ∨
          snapshot.topology ≠ s.state.committedTopology ∨
          snapshot.restoreActivation ≠ s.state.committedRestoreActivation) then
      (.error .snapshotConflict, s)
    else
      (.ok (), { s with
        state := s.state.install snapshot
        installed := s.installed ++ [snapshot] })

/-- Takes the snapshot of a request, if any. -/
def installCarried [DecidableEq ρ] (snapshot : Option (MetadataSnapshot ι ρ)) :
    Except (MetadataError ι) Unit × MetadataConsensusStore ι ρ :=
  match snapshot with
  | none => (.ok (), s)
  | some snapshot => s.installSnapshot P snapshot

end MetadataConsensusStore

/-! ## Storing the entries of an append request -/

/-- All stored, stopped at a gap, or failed. -/
inductive Incoming (ι : Type u) (ρ : Type v) where
  | stored (s : MetadataConsensusState ι ρ)
  | gap (s : MetadataConsensusState ι ρ)
  | failed (e : MetadataError ι) (s : MetadataConsensusState ι ρ)

section Entries

variable [DecidableEq ι] [DecidableEq ρ] (P : Platform ι ρ δ)

/-- Stores the entries one by one, cutting the log at the first that differs. -/
def storeIncoming (s : MetadataConsensusState ι ρ) : List (MetadataLogEntry ι ρ) → Incoming ι ρ
  | [] => .stored s
  | incoming :: rest =>
    match validateLogEntryShape P incoming s.clusterId with
    | .error e => .failed e s
    | .ok () =>
      if incoming.index ≤ s.baseIndex then storeIncoming s rest
      else
        match s.log.findIdx? (fun existing => existing.index == incoming.index) with
        | some position =>
          if s.log[position]? = some incoming then storeIncoming s rest
          else storeIncoming { s with log := s.log.take position ++ [incoming] } rest
        | none =>
          if incoming.index = satSucc s.lastLogIndex then
            storeIncoming { s with log := s.log ++ [incoming] } rest
          else .gap s

end Entries

/-! ## Validating a loaded state -/

section Validate

variable [DecidableEq ι] [DecidableEq ρ] (P : Platform ι ρ δ)

/-- The loop of `validate_state`, with its four accumulators. -/
def validateLog (clusterId : ι) (expected latestGeneration : Nat)
    (latestTopology : ClusterTopology ι ρ) (latestActivationMs : Nat) :
    List (MetadataLogEntry ι ρ) → Except (MetadataError ι) Unit
  | [] => .ok ()
  | entry :: rest =>
    match validateLogEntryShape P entry clusterId with
    | .error e => .error e
    | .ok () =>
      if entry.index ≠ expected then .error .logNotContiguous
      else if entry.leadershipBarrier then
        if entry.topology.generation < latestGeneration then .error .barrierRegresses
        else validateLog clusterId (satSucc expected) entry.topology.generation entry.topology
          latestActivationMs rest
      else
        match entry.restoreActivation with
        | some activation =>
          if entry.topology ≠ latestTopology ∨ activation.activatedAtMs ≤ latestActivationMs then
            .error .activationChangesTopology
          else validateLog clusterId (satSucc expected) entry.topology.generation
            latestTopology activation.activatedAtMs rest
        | none =>
          if entry.topology.generation ≤ latestGeneration then
            .error .generationNotIncreasing
          else validateLog clusterId (satSucc expected) entry.topology.generation
            entry.topology latestActivationMs rest

/-- The checks of a state read from a file. -/
def validateState (s : MetadataConsensusState ι ρ) : Except (MetadataError ι) Unit :=
  if s.formatVersion ≠ clusterMetadataConsensusFormatVersion then .error .payloadFormat
  else if !s.committedTopology.isValid P then .error .invalidTopology
  else if s.committedTopology.clusterId ≠ s.clusterId then .error .committedTopologyOtherCluster
  else if s.commitIndex ≠ s.baseIndex then .error .commitBaseDiffer
  else
    match validateCarriedActivation P s.committedRestoreActivation s.committedTopology
      s.clusterId with
    | .error e => .error e
    | .ok () =>
      validateLog P s.clusterId (satSucc s.baseIndex) s.committedTopology.generation
        s.committedTopology ((s.committedRestoreActivation.map (·.activatedAtMs)).getD 0) s.log

end Validate

/-- Reads a file. -/
def decodeState (P : Platform ι ρ δ) (bytes : δ) :
    Except (MetadataError ι) (MetadataConsensusState ι ρ) :=
  match P.fromSlice bytes with
  | none => .error .undecodable
  | some envelope =>
    if envelope.formatVersion ≠ clusterMetadataConsensusFormatVersion then
      .error (.unsupportedFormat envelope.formatVersion)
    else if envelope.checksumSha256 ≠ P.stateSha256 envelope.state then .error .checksumMismatch
    else .ok envelope.state

/-! ## Nodes -/

/-- A node: its store and its file. -/
structure MetadataNode (ι : Type u) (ρ : Type v) (δ : Type w) where
  store : MetadataConsensusStore ι ρ
  disk : δ

/-- What is written to the file. -/
def encodeState (P : Platform ι ρ δ) (s : MetadataConsensusState ι ρ) : δ :=
  P.toVecPretty ⟨clusterMetadataConsensusFormatVersion, P.stateSha256 s, s⟩

namespace MetadataNode

/-- Writes the state. -/
def persist (P : Platform ι ρ δ) (store : MetadataConsensusStore ι ρ) : MetadataNode ι ρ δ :=
  ⟨store, encodeState P store.state⟩

/-- The state of a node that starts without a file. -/
def freshState (clusterId nodeId : ι) (bootstrap : ClusterTopology ι ρ) :
    MetadataConsensusState ι ρ where
  formatVersion := clusterMetadataConsensusFormatVersion
  clusterId := clusterId
  nodeId := nodeId
  currentTerm := 0
  votedFor := none
  role := .follower
  leaderId := none
  baseIndex := 0
  baseTerm := 0
  commitIndex := 0
  committedTopology := bootstrap
  log := []
  committedRestoreActivation := none

section Calls

variable [DecidableEq ι] (P : Platform ι ρ δ)

/-- The end of `open`: leadership is not preserved. -/
def started (s : MetadataConsensusState ι ρ) (committed : List (MetadataLogEntry ι ρ))
    (installed : List (MetadataSnapshot ι ρ)) : MetadataNode ι ρ δ :=
  let store : MetadataConsensusStore ι ρ :=
    ⟨{ s with role := .follower, leaderId := none }, fun _ => none, committed, installed⟩
  persist P store.resetMatchIndexes

/-- `open`, given the bytes of the state file if there is one. -/
def openStore [DecidableEq ρ] (clusterId nodeId : ι) (bootstrap : ClusterTopology ι ρ)
    (file : Option δ) (committed : List (MetadataLogEntry ι ρ))
    (installed : List (MetadataSnapshot ι ρ)) :
    Except (MetadataError ι) (MetadataNode ι ρ δ) :=
  if !bootstrap.isValid P then .error .invalidTopology
  else if bootstrap.clusterId ≠ clusterId then .error .bootstrapOtherCluster
  else if !decide (nodeId ∈ bootstrap.memberIds) then .error (.bootstrapOmitsNode nodeId)
  else
    let loaded :=
      match file with
      | some bytes => decodeState P bytes
      | none => .ok (freshState clusterId nodeId bootstrap)
    match loaded with
    | .error e => .error e
    | .ok state =>
      match validateState P state with
      | .error e => .error e
      | .ok () =>
        if state.clusterId ≠ clusterId then
          .error (.stateClusterMismatch state.clusterId clusterId)
        else if state.nodeId ≠ nodeId then
          .error (.stateNodeMismatch state.nodeId nodeId)
        else .ok (started P state committed installed)

variable (nd : MetadataNode ι ρ δ)

/-- Starts an election and votes for itself. -/
def startElection : Except (MetadataError ι) (MetadataVoteRequest ι) × MetadataNode ι ρ δ :=
  let s := nd.store.state
  if !decide (s.nodeId ∈ topologyVoters s.committedTopology) then
    (.error .nonVoterElection, nd)
  else
    let s' := { s with
      currentTerm := satSucc s.currentTerm
      role := .candidate
      votedFor := some s.nodeId
      leaderId := none }
    (.ok ⟨s'.clusterId, s'.currentTerm, s'.nodeId, s'.lastLogIndex, s'.lastLogTerm⟩,
      persist P { nd.store with state := s' })

/-- Steps down for a later term. -/
def observeRemoteTerm (term : Nat) : Except (MetadataError ι) Bool × MetadataNode ι ρ δ :=
  let s := nd.store.state
  if term ≤ s.currentTerm then (.ok false, nd)
  else (.ok true, persist P { nd.store with state := s.stepDown term none })

/-- Gives up leadership. -/
def relinquishLeadership : Except (MetadataError ι) Bool × MetadataNode ι ρ δ :=
  let s := nd.store.state
  if s.role = .follower then (.ok false, nd)
  else (.ok true, persist P { nd.store with state := s.stepDown s.currentTerm none })

/-- The three tests of `handle_vote_request`. -/
def grants (s : MetadataConsensusState ι ρ) (request : MetadataVoteRequest ι) : Bool :=
  decide (request.candidateId ∈ topologyVoters s.committedTopology) &&
    (decide (s.lastLogTerm < request.lastLogTerm) ||
      (decide (request.lastLogTerm = s.lastLogTerm) &&
        decide (s.lastLogIndex ≤ request.lastLogIndex))) &&
    (s.votedFor.isNone || decide (s.votedFor = some request.candidateId))

/-- Answers a vote request. -/
def handleVoteRequest (request : MetadataVoteRequest ι) :
    Except (MetadataError ι) (MetadataVoteResponse ι) × MetadataNode ι ρ δ :=
  let s := nd.store.state
  if request.clusterId ≠ s.clusterId then
    (.error (.clusterMismatch s.clusterId request.clusterId), nd)
  else if request.term < s.currentTerm then (.ok (nd.store.voteResponse false), nd)
  else
    let s₁ := if s.currentTerm < request.term then s.stepDown request.term none else s
    let granted := grants s₁ request
    let s₂ := if granted then { s₁ with votedFor := some request.candidateId } else s₁
    let store := { nd.store with state := s₂ }
    (.ok (store.voteResponse granted), persist P store)

/-- A leader's entry is appended, committed if it can be, and written; a failed commit changes only
memory. -/
def propose (store : MetadataConsensusStore ι ρ) (entry : MetadataLogEntry ι ρ) :
    Except (MetadataError ι) (MetadataLogEntry ι ρ) × MetadataNode ι ρ δ :=
  match (store.pushEntry entry).maybeCommitLeaderProposal P with
  | (.error e, store') => (.error e, ⟨store', nd.disk⟩)
  | (.ok _, store') => (.ok entry, persist P store')

/-- The votes are given by their membership test. -/
def becomeLeader (votes : ι → Bool) : Except (MetadataError ι) Unit × MetadataNode ι ρ δ :=
  let s := nd.store.state
  if s.role ≠ .candidate then (.error .onlyCandidateCanLead, nd)
  else if !hasQuorum votes (topologyVoters s.committedTopology) then
    (.error .noVoterQuorum, nd)
  else if !votes s.nodeId then (.error .votesOmitSelf, nd)
  else
    let store := { nd.store with
      state := { s with role := .leader, leaderId := some s.nodeId } }.resetMatchIndexes
    let barrier : MetadataLogEntry ι ρ :=
      ⟨satSucc s.lastLogIndex, s.currentTerm, true, s.latestTopology, none⟩
    match propose P nd store barrier with
    | (.error e, nd') => (.error e, nd')
    | (.ok _, nd') => (.ok (), nd')

/-- Proposes a topology. -/
def proposeTopology (topology : ClusterTopology ι ρ) :
    Except (MetadataError ι) (MetadataLogEntry ι ρ) × MetadataNode ι ρ δ :=
  let s := nd.store.state
  if s.role ≠ .leader then (.error .onlyLeaderProposesTopology, nd)
  else if !topology.isValid P then (.error .invalidTopology, nd)
  else if topology.clusterId ≠ s.clusterId then
    (.error (.clusterMismatch s.clusterId topology.clusterId), nd)
  else if s.log.any (fun e => !e.leadershipBarrier) then (.error .topologyChangeInFlight, nd)
  else if topology.generation ≤ s.latestTopology.generation then
    (.error (.generationNotAdvanced topology.generation s.latestTopology.generation), nd)
  else propose P nd nd.store ⟨satSucc s.lastLogIndex, s.currentTerm, false, topology, none⟩

/-- Proposes an activation. -/
def proposeRestoreActivation (activation : MetadataRestoreActivation ι) :
    Except (MetadataError ι) (MetadataLogEntry ι ρ) × MetadataNode ι ρ δ :=
  let s := nd.store.state
  if s.role ≠ .leader then (.error .onlyLeaderProposesActivation, nd)
  else
    match activation.validate with
    | .error e => (.error e, nd)
    | .ok () =>
      let topology := s.latestTopology
      if !topology.isValid P then (.error .invalidTopology, nd)
      else if activation.clusterId ≠ s.clusterId ∨
          activation.topologyGeneration ≠ topology.generation ∨
          activation.topologySha256 ≠ P.topologySha256 topology then
        (.error .activationOtherTopology, nd)
      else if s.log.any (fun e => !e.leadershipBarrier) then
        (.error .metadataChangeInFlight, nd)
      else if s.committedRestoreActivation.any (fun committed =>
          decide (committed.activationId = activation.activationId) ||
            decide (activation.activatedAtMs ≤ committed.activatedAtMs)) then
        (.error .activationNotAdvanced, nd)
      else propose P nd nd.store
        ⟨satSucc s.lastLogIndex, s.currentTerm, false, topology, some activation⟩

omit [DecidableEq ι] in
/-- The request for a follower at an index. -/
def appendRequestFrom (nextIndex maxEntries : Nat) :
    Except (MetadataError ι) (MetadataAppendRequest ι ρ) :=
  let s := nd.store.state
  if s.role ≠ .leader then .error .onlyLeaderAppends
  else if maxEntries = 0 then .error .zeroBatch
  else
    let snapshot : Option (MetadataSnapshot ι ρ) :=
      if nextIndex ≤ s.baseIndex then
        some ⟨s.baseIndex, s.baseTerm, s.committedTopology, s.committedRestoreActivation⟩
      else none
    let effectiveNext :=
      match snapshot with
      | some snapshot => satSucc snapshot.lastIncludedIndex
      | none => nextIndex
    .ok
      { clusterId := s.clusterId
        term := s.currentTerm
        leaderId := s.nodeId
        prevLogIndex := effectiveNext - 1
        prevLogTerm := (s.termAt (effectiveNext - 1)).getD 0
        entries := (s.log.filter (fun e => decide (effectiveNext ≤ e.index))).take maxEntries
        leaderCommit := s.commitIndex
        snapshot := snapshot }

/-- `handle_append_request` from the previous entry on. -/
def acceptEntries [DecidableEq ρ] (store : MetadataConsensusStore ι ρ)
    (request : MetadataAppendRequest ι ρ) :
    Except (MetadataError ι) (MetadataAppendResponse ι) × MetadataNode ι ρ δ :=
  if store.state.termAt request.prevLogIndex ≠ some request.prevLogTerm then
    let conflictIndex := max (min request.prevLogIndex (satSucc store.state.lastLogIndex))
      (satSucc store.state.baseIndex)
    (.ok (store.appendResponse false conflictIndex), persist P store)
  else
    match storeIncoming P store.state request.entries with
    | .failed e s => (.error e, ⟨{ store with state := s }, nd.disk⟩)
    | .gap s =>
      let store := { store with state := s }
      (.ok (store.appendResponse false (satSucc s.lastLogIndex)), persist P store)
    | .stored s =>
      match ({ store with state := s } : MetadataConsensusStore ι ρ).advanceFollowerCommit P
        request.leaderCommit with
      | (.error e, store) => (.error e, ⟨store, nd.disk⟩)
      | (.ok (), store) =>
        (.ok (store.appendResponse true (satSucc store.state.lastLogIndex)), persist P store)

omit [DecidableEq ι] in
/-- The store that follows the sender. -/
def steppedDown (store : MetadataConsensusStore ι ρ) (request : MetadataAppendRequest ι ρ) :
    MetadataConsensusStore ι ρ :=
  { store with state := store.state.stepDown request.term (some request.leaderId) }

/-- Answers an append request. -/
def handleAppendRequest [DecidableEq ρ] (request : MetadataAppendRequest ι ρ) :
    Except (MetadataError ι) (MetadataAppendResponse ι) × MetadataNode ι ρ δ :=
  let s := nd.store.state
  if request.clusterId ≠ s.clusterId then
    (.error (.clusterMismatch s.clusterId request.clusterId), nd)
  else if request.term < s.currentTerm then
    (.ok (nd.store.appendResponse false (satSucc s.lastLogIndex)), nd)
  else if !decide (request.leaderId ∈ topologyVoters s.committedTopology) then
    (.error (.leaderNotVoter request.leaderId), nd)
  else
    match (steppedDown nd.store request).installCarried P request.snapshot with
    | (.error e, store) => (.error e, ⟨store, nd.disk⟩)
    | (.ok (), store) => acceptEntries P nd store request

/-- Counts an answer, and commits where it completes a quorum. -/
def recordAppendResponse (expectedNodeId : ι) (response : MetadataAppendResponse ι) :
    Except (MetadataError ι) Bool × MetadataNode ι ρ δ :=
  let s := nd.store.state
  if response.clusterId ≠ s.clusterId then
    (.error (.clusterMismatch s.clusterId response.clusterId), nd)
  else if response.nodeId ≠ expectedNodeId then (.error .responseNodeMismatch, nd)
  else if s.currentTerm < response.term then
    (.ok false, persist P { nd.store with state := s.stepDown response.term none })
  else if response.term ≠ s.currentTerm ∨ s.role ≠ .leader ∨ !response.success then
    (.ok false, nd)
  else
    let newVoters := (s.log.head?).elim (topologyVoters s.committedTopology)
      (fun e => topologyVoters e.topology)
    if !decide (expectedNodeId ∈ s.committedTopology.memberIds) &&
        !decide (expectedNodeId ∈ newVoters) then
      (.error (.responseFromNonMember expectedNodeId), nd)
    else
      let known := ((nd.store.matchIndex expectedNodeId).map
        (max · response.matchIndex)).getD response.matchIndex
      match (nd.store.insertMatch expectedNodeId known).maybeCommitLeaderProposal P with
      | (.error e, store) => (.error e, ⟨store, nd.disk⟩)
      | (.ok committed, store) => (.ok committed, persist P store)

end Calls

end MetadataNode

end BicDb.Metadata
