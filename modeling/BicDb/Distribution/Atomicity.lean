import BicDb.Distribution.SafeRelocations

/-!
# What a failed operation leaves behind

Operations edit the topology in memory before `commit_change` reads the file, validates and writes,
and nothing undoes the edit when a later step fails. A heartbeat with a bad reserved label is
refused by the validation alone, and memory keeps it.

## What this module delivers

* `editOf_ends`: how the body of every call ends, from the lemmas of the single operations.
* `Kept`: memory is as it was or has the newer topology of the file, it is valid, and the next
  operation is stale only if it would have been stale anyway.
* `Spared`: the calls whose failure does that, told from the call, the topology before it, the file
  and the outcome of the i/o.
* `failed_operation_changes_nothing`: a call that fails leaves everything kept exactly where it is
  spared.
* `refused_heartbeat_is_kept`: a heartbeat that is not spared.
-/

namespace BicDb.Distribution

open BicDb.Foundation Edit

/-! ## How calls end -/

/-- The body goes as far as `commit_change`. -/
def Edit.commits {α : Type} : Edit α → Bool
  | .commit _ _ _ _ _ => true
  | _ => false

/-- A body that stops before `commit_change` stops before its first edit. Five operations take ids
or edit a range before the last thing that can fail. -/
def StopsFirst (limits : LivenessLimits) (topology : ClusterTopology) : Call → Prop
  | .splitRange rangeId splitToken actor _ => SplitStopsFirst topology rangeId splitToken actor
  | .setRangePlacement rangeId placement actor _ =>
    PlacementStopsFirst topology rangeId placement actor
  | .applyRebalancePlan plan actor nowMs =>
    ∀ immediate, PlanChecked topology limits plan actor nowMs immediate →
      PlanStopsFirst topology plan immediate
  | .promoteRelocation relocationId actor _ => PromotionStopsFirst topology relocationId actor
  | .finishRelocationCleanup relocationId actor _ => CleanupStopsFirst topology relocationId actor
  | _ => True

/-- What the call would commit is valid. Five operations write what only the validation of the whole
topology looks at. -/
def CommitsValid (limits : LivenessLimits) (topology : ClusterTopology) : Call → Prop
  | .joinNode node _ _ => NodeOk node.id node
  | .joinMetadataLearner node _ _ => NodeOk node.id node ∧
      ∀ range ∈ topology.ranges.values, range.hasReplica node.id = false
  | .heartbeatWithCertificate nodeId _ _ _ labels _ _ => HeartbeatLabelsOk topology nodeId labels
  | .applyRebalancePlan plan actor nowMs =>
    ∀ immediate, PlanChecked topology limits plan actor nowMs immediate →
      PlanValid topology plan immediate
  | .retryRelocation relocationId _ nowMs => ResumesValid topology relocationId nowMs
  | _ => True

/-- The call would commit the topology it has found. -/
def CommitsSame (topology : ClusterTopology) : Call → Prop
  | .checkpointRelocationCatchUp relocationId durable source _ nowMs =>
    Repeats topology relocationId fun relocation => relocation.caughtUp durable source nowMs
  | .failRelocation relocationId message _ nowMs =>
    Repeats topology relocationId fun relocation => relocation.fail message nowMs
  | _ => False

theorem editOf_ends {config : DistributionConfig} {topology : ClusterTopology} {call : Call}
    (h : TopologyOk topology) :
    Ends topology (StopsFirst config.limits topology call)
      (CommitsValid config.limits topology call)
      (CommitsSame topology call) (editOf config topology call) := by
  cases call with
  | joinNode => exact all_map (joinNode_ends h)
  | joinMetadataLearner => exact all_map (joinMetadataLearner_ends h)
  | promoteMetadataLearner => exact all_map (promoteMetadataLearner_safe h)
  | stageTlsCertificateRotation => exact all_map (stageTlsCertificateRotation_safe h)
  | abortTlsCertificateRotation => exact all_map (abortTlsCertificateRotation_safe h)
  | splitRange => exact all_map (splitRange_ends h)
  | mergeRanges => exact all_map (mergeRanges_safe h)
  | setRangePlacement => exact all_map (setRangePlacement_ends h)
  | updateRangeLoad => exact all_map (updateRangeLoad_safe h)
  | heartbeatWithCertificate => exact all_map (heartbeatWithCertificate_ends h)
  | beginDrain => exact all_map (beginDrain_safe h)
  | decommissionNode => exact all_map (decommissionNode_safe h)
  | applyRebalancePlan => exact all_map (applyRebalancePlan_ends h)
  | certifyRelocationSchemaInstall => exact all_map (certifyRelocationSchemaInstall_safe h)
  | beginRelocationSnapshot => exact all_map (beginRelocationSnapshot_safe h)
  | checkpointRelocationSnapshot => exact all_map (checkpointRelocationSnapshot_safe h)
  | finishRelocationSnapshot relocationId snapshotId snapshotSha256 sequence bytesCopied actor
      nowMs => exact all_map (finishRelocationSnapshot_safe h)
  | checkpointRelocationCatchUp => exact all_map (checkpointRelocationCatchUp_ends h)
  | promoteRelocation => exact all_map (promoteRelocation_ends h)
  | beginRelocationCleanup => exact all_map (beginRelocationCleanup_safe h)
  | finishRelocationCleanup => exact all_map (finishRelocationCleanup_ends h)
  | checkpointRelocationCleanup => exact all_map (checkpointRelocationCleanup_safe h)
  | failRelocation => exact all_map (failRelocation_ends h)
  | retryRelocation => exact all_map (retryRelocation_ends h)

/-! ## The file -/

variable {digest : ClusterTopology → String} {io io' : Io} {file : TopologyFile}
  {topology : ClusterTopology}

theorem loadTopology_eq_ok (h : loadTopology digest io file = .ok topology) :
    TopologyOk topology ∧ ∀ io' : Io, loadTopology digest io' file =
      if io'.readable then .ok topology else .error .io := by
  cases file with
  | missing => cases h
  | garbled =>
    unfold loadTopology at h
    split_ifs at h
  | envelope =>
    simp only [loadTopology] at h ⊢
    split_ifs at h
    have hvalid := h
    rw [TopologyEnvelope.verify, andThen_eq_ok, andThen_eq_ok] at hvalid
    obtain ⟨-, hvalid, ⟨⟩⟩ := hvalid
    exact ⟨validate_eq_ok.1 hvalid, fun io' => by rw [h]⟩

/-- The file has another generation than memory. -/
def Stale (digest : ClusterTopology → String) (io : Io) (topology : ClusterTopology)
    (file : TopologyFile) : Prop :=
  ∃ disk, loadTopology digest io file = .ok disk ∧ disk.generation ≠ topology.generation

/-- A store that has been opened holds a valid topology. -/
theorem openStore_valid {config : DistributionConfig} {store : DistributionStore}
    (h : openStore digest io config file = .ok store) : store.topology.validate = .ok () := by
  rw [openStore, andThen_eq_ok, andThen_eq_ok, bind_eq_ok] at h
  obtain ⟨-, -, topology, hload, hstore⟩ := h
  rw [andThen_eq_ok] at hstore
  cases hstore.2
  exact validate_eq_ok.2 (loadTopology_eq_ok hload).1

theorem not_stale_of_load (h : loadTopology digest io file = .ok topology) :
    ¬ Stale digest io' topology file := by
  rintro ⟨disk, hdisk, hne⟩
  rw [(loadTopology_eq_ok h).2 io'] at hdisk
  split_ifs at hdisk
  cases hdisk
  exact hne rfl

/-! ## What is kept -/

/-- Memory is as it was or has taken the newer topology of the file, it is valid, and the next
operation is stale only if it would have been stale without this one. -/
structure Kept {α : Type} (digest : ClusterTopology → String) (topology : ClusterTopology)
    (file : TopologyFile) (after : Outcome α) : Prop where
  memory : after.topology = topology ∨
    (loadTopology digest ⟨true, .done⟩ after.file = .ok after.topology ∧
      topology.generation < after.topology.generation)
  valid : after.topology.validate = .ok ()
  fresh : ∀ io', Stale digest io' after.topology after.file → Stale digest io' topology file

variable {α : Type} {after : Outcome α}

/-- At the same generation memory is kept only where it is the same. -/
theorem kept_iff_same (hvalid : topology.validate = .ok ()) (hfile : after.file = file)
    (hgeneration : after.topology.generation = topology.generation) :
    Kept digest topology file after ↔ after.topology = topology := by
  constructor
  · rintro ⟨hsame | ⟨-, hnewer⟩, -, -⟩
    · exact hsame
    · exact absurd hgeneration hnewer.ne'
  · intro hsame
    exact ⟨.inl hsame, hsame ▸ hvalid, fun _ hstale => by rwa [hsame, hfile] at hstale⟩

theorem kept_of_newer (hload : loadTopology digest io after.file = .ok after.topology)
    (hnewer : topology.generation < after.topology.generation) :
    Kept digest topology file after := by
  obtain ⟨hok, hread⟩ := loadTopology_eq_ok hload
  exact ⟨.inr ⟨(hread _).trans (if_pos rfl), hnewer⟩, validate_eq_ok.2 hok,
    fun _ hstale => absurd hstale (not_stale_of_load hload)⟩

/-- `commit_change` takes a topology whose log is that of a valid one: recording the change is not
what makes it invalid. -/
theorem recordChange_ok_iff {topology' : ClusterTopology} {actor : ClusterNodeId}
    {nowMs limit : Nat}
    {summary : String} (h : TopologyOk topology) (hlog : SameLog topology topology') :
    TopologyOk (topology'.recordChange actor nowMs summary limit) ↔ TopologyOk topology' := by
  refine ⟨fun hrecorded => { hrecorded with generation := ?_, history := ?_ },
    fun hok => hok.recordChange actor nowMs summary limit⟩
  · rw [hlog.generation]
    exact h.generation
  · rw [hlog.generation, hlog.history]
    exact h.history

/-- The calls whose failure leaves everything kept. -/
def Spared (digest : ClusterTopology → String) (store : DistributionStore) (io : Io)
    (file : TopologyFile) (call : Call) : Prop :=
  if (editOf store.config store.topology call).commits = true then
    if store.ephemeral then CommitsValid store.config.limits store.topology call
    else
      match loadTopology digest io file with
      | .error _ => CommitsSame store.topology call
      | .ok onDisk => store.topology.generation < onDisk.generation ∨
          (onDisk.generation = store.topology.generation ∧
            CommitsValid store.config.limits store.topology call ∧ io.write ≠ .failedBefore)
  else StopsFirst store.config.limits store.topology call

/-! ## Failed calls -/

section Commit

variable {store : DistributionStore} {topology' : ClusterTopology} {actor : ClusterNodeId}
  {nowMs : Nat} {summary : String} {error : BicDbError}

theorem commitChange_ephemeral_error (hephemeral : store.ephemeral = true)
    (h : (commitChange digest store io file topology' actor nowMs summary).result = .error error) :
    ¬ Kept digest store.topology file
        (commitChange digest store io file topology' actor nowMs summary) ∧
      ¬ TopologyOk
        (topology'.recordChange actor nowMs summary store.config.topologyHistoryLimit) := by
  have hinvalid : (topology'.recordChange actor nowMs summary
      store.config.topologyHistoryLimit).validate = .error error := by
    simpa only [commitChange, if_pos hephemeral] using h
  constructor
  · intro hkept
    have hvalid := hkept.valid
    simp only [commitChange, if_pos hephemeral] at hvalid
    cases hvalid.symm.trans hinvalid
  · intro hok
    cases (validate_eq_ok.2 hok).symm.trans hinvalid

variable (hok : TopologyOk store.topology) (hroom : store.topology.generation < u64Max)
  (hlog : SameLog store.topology topology')

include hok hroom hlog

/-- On a durable store whose file is at the generation of memory. -/
theorem commitChange_current_error {onDisk : ClusterTopology} (hdurable : store.ephemeral = false)
    (hload : loadTopology digest io file = .ok onDisk)
    (hcurrent : onDisk.generation = store.topology.generation)
    (h : (commitChange digest store io file topology' actor nowMs summary).result = .error error) :
    Kept digest store.topology file
        (commitChange digest store io file topology' actor nowMs summary) ↔
      TopologyOk topology' ∧ io.write ≠ .failedBefore := by
  have hvalidity := @recordChange_ok_iff _ _ actor nowMs store.config.topologyHistoryLimit summary
    hok hlog
  have hnewer : (topology'.recordChange actor nowMs summary
      store.config.topologyHistoryLimit).generation = store.topology.generation + 1 := by
    simp only [ClusterTopology.recordChange, hlog.generation, checkedSucc_of_lt hroom,
      Option.getD_some]
  have hmatch : ¬ onDisk.generation ≠ topology'.generation :=
    not_not.2 (hcurrent.trans hlog.generation.symm)
  simp only [commitChange, hdurable, Bool.false_eq_true, if_false, hload, if_neg hmatch] at h ⊢
  generalize htopology : topology'.recordChange actor nowMs summary
    store.config.topologyHistoryLimit = recorded at hvalidity hnewer h ⊢
  cases hvalidate : recorded.validate with
  | error failure =>
    -- memory keeps what has just been found invalid
    have hinvalid : ¬ TopologyOk recorded := fun hvalid => by
      cases (validate_eq_ok.2 hvalid).symm.trans hvalidate
    refine iff_of_false (fun hkept => ?_) fun hsound => hinvalid (hvalidity.2 hsound.1)
    exact hinvalid (validate_eq_ok.1 hkept.valid)
  | ok value =>
    have hsound := hvalidity.1 (validate_eq_ok.1 hvalidate)
    simp only [hvalidate, persistTopology] at h ⊢
    cases hio : io.write with
    | done => simp [hio] at h
    | failedBefore =>
      -- memory is one generation ahead of the file
      refine iff_of_false (fun hkept => ?_) fun hwrite => hwrite.2 rfl
      rcases hkept.memory with hsame | ⟨hread, -⟩
      · have hgeneration := congrArg ClusterTopology.generation hsame
        exact absurd (hnewer.symm.trans hgeneration) (Nat.succ_ne_self _)
      · rw [(loadTopology_eq_ok hload).2, if_pos rfl, Except.ok.injEq] at hread
        have hgeneration := congrArg ClusterTopology.generation hread
        exact absurd (hnewer.symm.trans (hgeneration.symm.trans hcurrent)) (Nat.succ_ne_self _)
    | failedAfter =>
      refine iff_of_true (@kept_of_newer _ ⟨true, .done⟩ _ _ _ _ ?_ ?_) ⟨hsound, nofun⟩
      · simp only [loadTopology, if_true]
        rw [TopologyEnvelope.verify, andThen_eq_ok, andThen_eq_ok, require_eq_ok]
        exact ⟨rfl, hvalidate, rfl⟩
      · exact hnewer ▸ Nat.lt_succ_self _

/-- When a commit that fails leaves everything kept. -/
theorem commitChange_kept_iff
    (h : (commitChange digest store io file topology' actor nowMs summary).result = .error error) :
    Kept digest store.topology file
        (commitChange digest store io file topology' actor nowMs summary) ↔
      if store.ephemeral then TopologyOk topology'
      else
        match loadTopology digest io file with
        | .error _ => topology' = store.topology
        | .ok onDisk => store.topology.generation < onDisk.generation ∨
            (onDisk.generation = store.topology.generation ∧ TopologyOk topology' ∧
              io.write ≠ .failedBefore) := by
  split_ifs with hephemeral
  · obtain ⟨hlost, hinvalid⟩ := commitChange_ephemeral_error hephemeral h
    exact iff_of_false hlost fun hvalid => hinvalid ((recordChange_ok_iff hok hlog).2 hvalid)
  have hdurable : store.ephemeral = false := by simpa using hephemeral
  cases hload : loadTopology digest io file with
  | error failure =>
    have hafter : commitChange digest store io file topology' actor nowMs summary =
        ⟨.error failure, topology', file⟩ := by
      simp only [commitChange, hdurable, Bool.false_eq_true, if_false, hload]
    rw [hafter]
    exact kept_iff_same (validate_eq_ok.2 hok) rfl hlog.generation
  | ok onDisk =>
    by_cases hcurrent : onDisk.generation = store.topology.generation
    · rw [commitChange_current_error hok hroom hlog hdurable hload hcurrent h]
      simp [hcurrent]
    · -- memory takes what is in the file, newer or older
      have hstale : onDisk.generation ≠ topology'.generation :=
        fun heq => hcurrent (heq.trans hlog.generation)
      simp only [commitChange, hdurable, Bool.false_eq_true, if_false, hload, if_pos hstale,
        hcurrent, false_and, or_false]
      constructor
      · rintro ⟨hsame | ⟨-, hnewer⟩, -, -⟩
        · exact absurd (congrArg ClusterTopology.generation hsame) hcurrent
        · exact hnewer
      · exact fun hnewer => kept_of_newer hload hnewer

end Commit

/-- **Failed topology operations change nothing** exactly where the call is spared: its body stops
before its first edit, or what it commits is valid and neither the read nor the write of the file
goes wrong before the new file is in place. -/
theorem failed_operation_changes_nothing (digest : ClusterTopology → String)
    (store : DistributionStore) (io : Io) (file : TopologyFile) (call : Call) (error : BicDbError)
    (hvalid : store.topology.validate = .ok ()) (hroom : store.topology.generation < u64Max)
    (herror : (store.call digest io file call).result = .error error) :
    Kept digest store.topology file (store.call digest io file call) ↔
      Spared digest store io file call := by
  have hok := validate_eq_ok.1 hvalid
  have hends : Ends store.topology _ _ _ (editOf store.config store.topology call) :=
    editOf_ends hok
  unfold DistributionStore.call at herror ⊢
  unfold Spared
  cases hedit : editOf store.config store.topology call with
  | refuse failure topology' =>
    rw [hedit] at hends
    obtain ⟨hlog, hclean⟩ := hends
    simp only [commits, Bool.false_eq_true, if_false]
    rw [← hclean]
    exact kept_iff_same hvalid rfl hlog.generation
  | answer value =>
    rw [hedit] at herror
    cases herror
  | commit topology' actor nowMs summary value =>
    rw [hedit] at hends herror
    obtain ⟨hlog, hcommits, hsame⟩ := hends
    simp only [commits, if_true, ← hcommits, ← hsame]
    simp only [DistributionStore.carryOut] at herror ⊢
    have hcommit := @commitChange_kept_iff digest io file store topology' actor nowMs summary error
      hok hroom hlog
    -- a failed call ends as its commit does
    revert herror hcommit
    rcases commitChange digest store io file topology' actor nowMs summary with
      ⟨_ | _, after, file'⟩
    · intro herror hcommit
      cases herror
      exact ⟨fun ⟨hmemory, hafter, hfresh⟩ => (hcommit rfl).1 ⟨hmemory, hafter, hfresh⟩,
        fun hspared => ⟨((hcommit rfl).2 hspared).memory, ((hcommit rfl).2 hspared).valid,
          ((hcommit rfl).2 hspared).fresh⟩⟩
    · simp

/-! ## A cluster of one node -/

/-- A cluster of one node. -/
def soloConfig : DistributionConfig where
  enabled := true
  clusterId := ⟨"c", by decide +kernel⟩
  nodeId := ⟨"a", by decide +kernel⟩
  nodeAddress := "a:1"
  nodeTlsCertificateSha256 := none
  nodeIncarnation := 1
  nodeCapacityBytes := 100
  replicationFactor := 1
  initialRanges := 1
  defaultPlacement := ⟨∅, []⟩
  suspectAfterMs := 10
  deadAfterMs := 20
  topologyHistoryLimit := 4
  metadataElectionTimeoutMs := 1000
  metadataHeartbeatIntervalMs := 100
  transport := ⟨1000, 1000, minClusterFrameBytes, 8, true, none⟩

def blankDigest (_ : ClusterTopology) : String := ""

/-- No i/o fails. -/
def calm : Io := ⟨true, .done⟩

theorem exists_initialized (digest : ClusterTopology → String) (config : DistributionConfig)
    (P : DistributionStore → TopologyFile → Prop) [∀ store file, Decidable (P store file)]
    (h : (match initializeAt digest calm config 0 with
      | (.ok store, file) => decide (P store file)
      | (.error _, _) => false) = true) :
    ∃ store file, initializeAt digest calm config 0 = (.ok store, file) ∧ P store file := by
  split at h
  · rename_i store file hinit
    exact ⟨store, file, hinit, of_decide_eq_true h⟩
  · cases h

/-- A heartbeat of that node. -/
def soloHeartbeat (labels : Labels) (nowMs : Nat) : Call :=
  .heartbeatWithCertificate soloConfig.nodeId 1 0 100 labels none nowMs

/-- The loser of a race takes over the winner's topology, and a bad label for a node that is not
known changes nothing. -/
theorem lost_race_takes_newer : ∃ store file,
    initializeAt blankDigest calm soloConfig 0 = (.ok store, file) ∧
    let won := store.call blankDigest calm file (soloHeartbeat ∅ 5)
    let lost := store.call blankDigest calm won.file (soloHeartbeat ∅ 6)
    let unknown := store.call blankDigest calm file (.heartbeatWithCertificate
      ⟨"b", by decide +kernel⟩ 1 0 100
        ((∅ : Labels).insert schemaBootstrapNodeLabel "false") none 5)
    lost.result = .error (clusterError
        "stale cluster topology generation: memory=1, disk=2; refresh and retry") ∧
      lost.topology = won.topology ∧ Kept blankDigest store.topology won.file lost ∧
      unknown.result = .error (clusterError "unknown cluster node b") ∧
      Kept blankDigest store.topology file unknown := by
  obtain ⟨store, file, hinit, hvalid, hroom, hcommits, hload, hdurable, hnewer, herror, htaken,
      hstops, hunknown⟩ :=
    exists_initialized blankDigest soloConfig (fun store file =>
      let won := store.call blankDigest calm file (soloHeartbeat ∅ 5)
      let lost := store.call blankDigest calm won.file (soloHeartbeat ∅ 6)
      let stray := Call.heartbeatWithCertificate ⟨"b", by decide +kernel⟩ 1 0 100
        ((∅ : Labels).insert schemaBootstrapNodeLabel "false") none 5
      store.topology.validate = .ok () ∧ store.topology.generation < u64Max ∧
      (editOf store.config store.topology (soloHeartbeat ∅ 6)).commits = true ∧
      loadTopology blankDigest calm won.file = .ok won.topology ∧
      store.ephemeral = false ∧ store.topology.generation < won.topology.generation ∧
      lost.result = .error (clusterError
        "stale cluster topology generation: memory=1, disk=2; refresh and retry") ∧
      lost.topology = won.topology ∧
      (editOf store.config store.topology stray).commits = false ∧
      (store.call blankDigest calm file stray).result =
        .error (clusterError "unknown cluster node b")) (by decide +kernel)
  refine ⟨store, file, hinit, herror, htaken, ?_, hunknown, ?_⟩
  · rw [failed_operation_changes_nothing _ _ _ _ _ _ hvalid hroom herror]
    simp only [Spared, hcommits, hload, hdurable, if_true, Bool.false_eq_true, if_false]
    exact .inl hnewer
  · rw [failed_operation_changes_nothing _ _ _ _ _ _ hvalid hroom hunknown]
    simp only [Spared, hstops, Bool.false_eq_true, if_false]
    trivial

/-- **A refused heartbeat is kept** in memory, and the next one is stale. -/
theorem refused_heartbeat_is_kept : ∃ store file,
    initializeAt blankDigest calm soloConfig 0 = (.ok store, file) ∧
    let failed := store.call blankDigest calm file
      (soloHeartbeat ((∅ : Labels).insert schemaBootstrapNodeLabel "false") 5)
    failed.result = .error (clusterError "cluster node a has an invalid schema bootstrap claim") ∧
    failed.topology ≠ store.topology ∧ failed.file = file ∧
    loadTopology blankDigest calm failed.file = .ok store.topology ∧
    failed.topology.validate ≠ .ok () ∧
    (store.call blankDigest calm file (soloHeartbeat ∅ 6)).result = .ok (.changed true) ∧
    (DistributionStore.call blankDigest { store with topology := failed.topology } calm failed.file
      (soloHeartbeat ∅ 6)).result = .error (clusterError
        "stale cluster topology generation: memory=2, disk=1; refresh and retry") := by
  refine exists_initialized blankDigest soloConfig _ ?_
  decide +kernel

end BicDb.Distribution
