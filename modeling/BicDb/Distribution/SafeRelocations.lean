import BicDb.Distribution.SafeEdits

/-!
# How relocations and plans end

The phases of a relocation are edits of one record, promotion and cleanup also of its range. A plan
is a loop over its transfers and one over its moves, and each step may be the one that stops it.

## What this module delivers

* `beginRelocationSnapshot_safe` and the other phases that only write the record.
* `checkpointRelocationCatchUp_ends`, `failRelocation_ends`: the two that may write what is there.
* `retryRelocation_ends`: the resumed record is looked at by the validation alone.
* `promoteRelocation_ends`, `finishRelocationCleanup_ends`: the range is edited before its epoch is
  raised.
* `applyRebalancePlan_ends`: `PlanStopsFirst` and `PlanValid` are when a plan stops before its first
  edit and when what it makes is valid.
-/

namespace BicDb.Distribution

open BicDb.Foundation List RangeRelocation OrderedMap

/-! ## Moving on -/

/-- What the phases of a relocation do not change. -/
structure SameMove (old new : RangeRelocation) : Prop where
  id : new.id = old.id
  planId : new.planId = old.planId
  rangeId : new.rangeId = old.rangeId
  expectedEpoch : new.expectedEpoch = old.expectedEpoch
  learnerEpoch : new.learnerEpoch = old.learnerEpoch
  targetReplicaId : new.targetReplicaId = old.targetReplicaId

variable {topology topology' : ClusterTopology} {ranges : Ranges} {relocationId : RelocationId}
  {relocation old new : RangeRelocation} {range : RangeDescriptor} {actor : ClusterNodeId}
  {nowMs : Nat}

theorem RelocationOk.progress (h : RelocationOk ranges old) (hold : old.phase ≠ .completed)
    (hsame : SameMove old new) (hphase : new.phase ≠ .completed)
    (hagainst : ∀ range target, RelocationAgainst old range target →
      RelocationAgainst new range target) : RelocationOk ranges new := by
  obtain ⟨range, target, hrange, htarget, hold⟩ := h.active hold
  refine ⟨hsame.id ▸ h.id_ne, hsame.expectedEpoch ▸ h.expectedEpoch_ne,
    hsame.learnerEpoch ▸ h.learnerEpoch_ne, hsame.planId ▸ h.planId_ne,
    fun hcompleted => absurd hcompleted hphase, fun _ => ⟨range, target, ?_, ?_, ?_⟩⟩
  · rwa [hsame.rangeId]
  · rwa [hsame.targetReplicaId]
  · exact hagainst range target hold

theorem setRelocation_ne
    (hget : topology.relocations.get? relocationId = some old) (hne : new ≠ old) :
    topology'.setRelocation relocationId new ≠ topology := by
  intro heq
  rw [← heq, ClusterTopology.setRelocation, get?_insert, if_pos rfl, Option.some.injEq] at hget
  exact hne hget

theorem ne_of_phase (h : new.phase ≠ old.phase) : new ≠ old :=
  fun heq => h (congrArg RangeRelocation.phase heq)

/-- The relocation is there, and the change leaves it as it is. -/
def Repeats (topology : ClusterTopology) (relocationId : RelocationId)
    (change : RangeRelocation → RangeRelocation) : Prop :=
  ∃ relocation, topology.relocations.get? relocationId = some relocation ∧
    change relocation = relocation

theorem setRelocation_eq_iff (change : RangeRelocation → RangeRelocation)
    (hget : topology.relocations.get? relocationId = some relocation) :
    topology.setRelocation relocationId (change relocation) = topology ↔
      Repeats topology relocationId change := by
  constructor
  · intro heq
    by_contra hchanged
    exact setRelocation_ne hget (fun hsame => hchanged ⟨relocation, hget, hsame⟩) heq
  · rintro ⟨found, hfound, hsame⟩
    cases hget.symm.trans hfound
    rw [hsame, ClusterTopology.setRelocation, insert_eq_self hget]

/-- What a checkpoint of the catch-up writes. -/
def RangeRelocation.caughtUp (relocation : RangeRelocation) (durable source nowMs : Nat) :
    RangeRelocation :=
  { relocation with
    destinationDurableCommitSequence := some durable
    sourceCommitSequence := some source
    phase := if durable = source then .readyToPromote else .catchingUp
    updatedAtMs := nowMs }

section

variable (h : TopologyOk topology)

include h

theorem TopologyOk.relocationOk (hget : topology.relocations.get? relocationId = some relocation) :
    RelocationOk topology.ranges relocation :=
  h.relocations.each (relocationId, relocation) (get?_eq_some_iff.1 hget)

theorem TopologyOk.progress (hget : topology.relocations.get? relocationId = some old)
    (hold : old.phase ≠ .completed) (hsame : SameMove old new) (hphase : new.phase ≠ .completed)
    (hagainst : ∀ range target, RelocationAgainst old range target →
      RelocationAgainst new range target) : TopologyOk (topology.setRelocation relocationId new) :=
  h.setRelocation hget hsame.id hsame.rangeId (fun _ => isActive_iff.2 hold)
    ((h.relocationOk hget).progress hold hsame hphase hagainst)

theorem certifyRelocationSchemaInstall_safe :
    Safe topology (certifyRelocationSchemaInstall topology relocationId actor nowMs) := by
  refine .checked fun _ _ => .checked fun relocation _ => .checked fun _ _ =>
    .checked fun range _ => .checked fun _ _ => ?_
  split
  · trivial
  rename_i required hrequired
  split
  · exact .refuse trivial
  rename_i target htarget
  refine .checked fun _ _ => ?_
  split_ifs with hcertified
  · trivial
  refine .checked fun _ _ => Safe.commit ⟨rfl, rfl⟩ (h.updateNode htarget { h.nodeOk htarget with
    labels := fun label hmem => ?_ } id id) (setNode_ne ?_)
  · -- the schema is the one that the leader of the range is labelled with
    obtain ⟨leader, hleader, hlabel⟩ := Option.bind_eq_some_iff.1 hrequired
    exact forall_mem_insert ((h.nodeOk hleader).labels _ (get?_eq_some_iff.1 hlabel))
      (h.nodeOk htarget).labels label (mem_erase_iff.1 hmem).1
  · rw [htarget, ne_eq, Option.some.injEq]
    intro heq
    have hlabels : target.labels = certifiedLabels target.labels required :=
      congrArg ClusterNode.labels heq
    apply hcertified
    rw [hlabels, certifiedLabels, OrderedMap.contains, get?_erase, get?_erase, if_pos rfl,
      if_neg (by decide), get?_insert, if_pos rfl]
    exact ⟨rfl, rfl⟩

theorem beginRelocationSnapshot_safe :
    Safe topology (beginRelocationSnapshot topology relocationId actor nowMs) := by
  refine .checked fun _ _ => .checked fun relocation hget => ?_
  rw [knownRelocation_eq_ok] at hget
  split
  · rename_i hphase
    refine Safe.commit ⟨rfl, rfl⟩
      (h.progress hget (by simp [hphase]) ⟨rfl, rfl, rfl, rfl, rfl, rfl⟩ nofun ?_)
      (setRelocation_ne hget (ne_of_phase (by simp [hphase])))
    intro range target hold
    exact ⟨hold.node, by simpa [expectedRole, hphase] using hold.role,
      by simpa [EpochOk, hphase] using hold.epoch, nofun,
      fun _ => hold.notResumable (by simp [hphase]), by simp, nofun⟩
  · trivial
  · exact .refuse trivial

theorem checkpointRelocationSnapshot_safe {bytesCopied : Nat} {resumeAfterKey : Option String} :
    Safe topology (checkpointRelocationSnapshot topology relocationId bytesCopied resumeAfterKey
      actor nowMs) := by
  refine .checked fun _ _ => .checked fun relocation hget => .require fun hphase =>
    .checked fun _ _ => ?_
  rw [knownRelocation_eq_ok] at hget
  split_ifs with hsame
  · trivial
  · have hactive : relocation.phase ≠ .completed := by simp [hphase]
    refine Safe.commit ⟨rfl, rfl⟩ (h.progress hget hactive ⟨rfl, rfl, rfl, rfl, rfl, rfl⟩ hactive
      fun _ _ hold => { hold with }) (setRelocation_ne hget fun heq => hsame ?_)
    exact ⟨congrArg RangeRelocation.snapshotBytesCopied heq,
      congrArg RangeRelocation.snapshotResumeAfterKey heq⟩

theorem finishRelocationSnapshot_safe {snapshotId snapshotSha256 : String}
    {sequence bytesCopied : Nat} :
    Safe topology (finishRelocationSnapshot topology relocationId snapshotId snapshotSha256 sequence
      bytesCopied actor nowMs) := by
  refine .checked fun _ _ => .checked fun _ _ => .checked fun relocation hget =>
    .require fun hphase => .checked fun _ _ => ?_
  rw [knownRelocation_eq_ok] at hget
  refine Safe.commit ⟨rfl, rfl⟩
    (h.progress hget (by simp [hphase]) ⟨rfl, rfl, rfl, rfl, rfl, rfl⟩ nofun ?_)
    (setRelocation_ne hget (ne_of_phase (by simp [hphase])))
  intro range target hold
  exact ⟨hold.node, by simpa [expectedRole, hphase] using hold.role,
    by simpa [EpochOk, hphase] using hold.epoch, nofun,
    fun _ => hold.notResumable (by simp [hphase]), fun _ => rfl, nofun⟩

theorem checkpointRelocationCatchUp_ends {durable source : Nat} :
    Ends topology True True (Repeats topology relocationId fun relocation =>
        relocation.caughtUp durable source nowMs)
      (checkpointRelocationCatchUp topology relocationId durable source actor nowMs) := by
  refine .checked fun _ _ => .checked fun relocation hget => .checked fun _ hcheck => ?_
  rw [knownRelocation_eq_ok] at hget
  rw [checkCatchUp, andThen_eq_ok, require_eq_ok, mem_cons, mem_singleton] at hcheck
  have hphase := hcheck.1
  have hactive : relocation.phase ≠ .completed := by
    rcases hphase with hphase | hphase <;> simp [hphase]
  have hrole : relocation.expectedRole = .learner := by
    rcases hphase with hphase | hphase <;> simp [expectedRole, hphase]
  refine ⟨⟨rfl, rfl⟩, iff_of_true (h.progress hget hactive ⟨rfl, rfl, rfl, rfl, rfl, rfl⟩ ?_ ?_)
    trivial, setRelocation_eq_iff (fun relocation => relocation.caughtUp durable source nowMs) hget⟩
  · simp only
    split_ifs <;> simp
  · intro range target hold
    have hepoch : range.epoch = relocation.learnerEpoch := by
      rcases hphase with hphase | hphase <;> simpa [EpochOk, hphase] using hold.epoch
    have hsnapshot : relocation.hasSnapshotMetadata = true :=
      hold.snapshot (by rcases hphase with hphase | hphase <;> simp [hphase])
    have hresume : relocation.resumePhase.isNone = true :=
      hold.notResumable (by rcases hphase with hphase | hphase <;> simp [hphase])
    refine ⟨hold.node, ?_, ?_, ?_, fun _ => hresume, fun _ => hsnapshot, ?_⟩
    · rw [hold.role, hrole]
      simp only [expectedRole]
      split_ifs <;> simp_all
    · simp only [EpochOk]
      split_ifs <;> simp_all
    · intro hfailed
      split_ifs at hfailed
    · intro hready
      split_ifs at hready with hparity
      simp [hparity]

theorem beginRelocationCleanup_safe :
    Safe topology (beginRelocationCleanup topology relocationId actor nowMs) := by
  refine .checked fun _ _ => .checked fun relocation hget => ?_
  rw [knownRelocation_eq_ok] at hget
  split
  · rename_i hphase
    refine Safe.commit ⟨rfl, rfl⟩
      (h.progress hget (by simp [hphase]) ⟨rfl, rfl, rfl, rfl, rfl, rfl⟩ nofun ?_)
      (setRelocation_ne hget (ne_of_phase (by simp [hphase])))
    intro range target hold
    exact ⟨hold.node, by simpa [expectedRole, hphase] using hold.role,
      by simpa [EpochOk, hphase] using hold.epoch, nofun,
      fun _ => hold.notResumable (by simp [hphase]),
      fun _ => hold.snapshot (by simp [hphase]), nofun⟩
  · trivial
  · exact .refuse trivial

theorem checkpointRelocationCleanup_safe {recordsDeleted : Nat} {resumeAfterKey : Option String} :
    Safe topology (checkpointRelocationCleanup topology relocationId recordsDeleted resumeAfterKey
      actor nowMs) := by
  refine .checked fun _ _ => .checked fun relocation hget => .require fun hphase =>
    .checked fun _ _ => ?_
  rw [knownRelocation_eq_ok] at hget
  split_ifs with hsame
  · trivial
  · have hactive : relocation.phase ≠ .completed := by simp [hphase]
    refine Safe.commit ⟨rfl, rfl⟩ (h.progress hget hactive ⟨rfl, rfl, rfl, rfl, rfl, rfl⟩ hactive
      fun _ _ hold => { hold with }) (setRelocation_ne hget fun heq => hsame ?_)
    exact ⟨congrArg RangeRelocation.cleanupRecordsDeleted heq,
      congrArg RangeRelocation.cleanupResumeAfterKey heq⟩

end

theorem RelocationAgainst.fail {target : RangeReplica} {message : String}
    (h : RelocationAgainst relocation range target) (hactive : relocation.phase ≠ .completed) :
    RelocationAgainst (relocation.fail message nowMs) range target := by
  refine ⟨h.node, ?_, by simp [EpochOk, RangeRelocation.fail], fun _ => ?_,
    by simp [RangeRelocation.fail], by simp [RangeRelocation.fail], by simp [RangeRelocation.fail]⟩
  · rw [h.role]
    by_cases hfailed : relocation.phase = .failed
    · simp [RangeRelocation.expectedRole, RangeRelocation.fail, hfailed]
    · simp [RangeRelocation.expectedRole, RangeRelocation.fail, hfailed, hactive]
  · by_cases hfailed : relocation.phase = .failed
    · simpa [RangeRelocation.fail, hfailed] using h.resumable hfailed
    · simp [RangeRelocation.fail, hfailed]

theorem failRelocation_ends {message : String} (h : TopologyOk topology) :
    Ends topology True True
      (Repeats topology relocationId fun relocation => relocation.fail message nowMs)
      (failRelocation topology relocationId message actor nowMs) := by
  refine .checked fun _ _ => .checked fun _ _ => .checked fun relocation hget =>
    .require fun hphase => ?_
  rw [knownRelocation_eq_ok] at hget
  exact ⟨⟨rfl, rfl⟩, iff_of_true (h.progress hget hphase ⟨rfl, rfl, rfl, rfl, rfl, rfl⟩ nofun
    fun _ _ hold => hold.fail hphase) trivial,
    setRelocation_eq_iff (fun relocation => relocation.fail message nowMs) hget⟩

/-- The relocation would be valid in the phase that it resumes in. -/
def ResumesValid (topology : ClusterTopology) (relocationId : RelocationId) (nowMs : Nat) : Prop :=
  ∀ relocation, topology.relocations.get? relocationId = some relocation →
    ∀ phase ∈ relocation.resumePhase, RelocationOk topology.ranges (relocation.resume phase nowMs)

theorem retryRelocation_ends (h : TopologyOk topology) :
    Ends topology True (ResumesValid topology relocationId nowMs) False
      (retryRelocation topology relocationId actor nowMs) := by
  refine .checked fun _ _ => .checked fun relocation hget => .require fun hfailed => ?_
  rw [knownRelocation_eq_ok] at hget
  split
  · exact .refuse trivial
  rename_i phase hphase
  refine .commit ⟨rfl, rfl⟩ ⟨fun h' found hfound resumed hresumed => ?_, fun hresume =>
    h.setRelocation hget rfl rfl (fun _ => isActive_iff.2 (by simp [hfailed]))
      (hresume relocation hget phase hphase)⟩ (setRelocation_ne hget fun heq => ?_)
  · cases hget.symm.trans hfound
    cases hphase.symm.trans hresumed
    exact h'.relocations.each (relocationId, _) (mem_insert_iff.2 (.inl rfl))
  · -- the phase to resume in is dropped
    have hdropped := congrArg RangeRelocation.resumePhase heq
    rw [hphase] at hdropped
    cases hdropped

/-! ## Promotion -/

variable {replicaId : ReplicaId} {replicas : List RangeReplica}

theorem map_promoteReplica {α : Type} {f : RangeReplica → α}
    (hf : ∀ replica, f { replica with role := .voter } = f replica) :
    (promoteReplica replicaId replicas).map f = replicas.map f := by
  induction replicas with
  | nil => rfl
  | cons replica rest ih =>
    unfold promoteReplica
    split_ifs
    · rw [map_cons, hf, map_cons]
    · rw [map_cons, ih, map_cons]

theorem mem_promoteReplica {replica : RangeReplica}
    (h : replica ∈ promoteReplica replicaId replicas) :
    ∃ old ∈ replicas, old.id = replica.id ∧ old.nodeId = replica.nodeId := by
  have hmem := mem_map_of_mem (f := fun replica => (replica.id, replica.nodeId)) h
  rw [map_promoteReplica fun _ => rfl] at hmem
  obtain ⟨old, hold, heq⟩ := mem_map.1 hmem
  exact ⟨old, hold, Prod.mk.inj heq⟩

theorem find?_promoteReplica {target : RangeReplica}
    (h : (replicas.find? fun replica => replica.id = replicaId) = some target) :
    ((promoteReplica replicaId replicas).find? fun replica => replica.id = replicaId) =
      some { target with role := .voter } := by
  induction replicas with
  | nil => cases h
  | cons replica rest ih =>
    unfold promoteReplica
    by_cases hid : replica.id = replicaId
    · rw [find?_cons_of_pos (by simpa using hid)] at h
      cases h
      rw [if_pos hid, find?_cons_of_pos (by simpa using hid)]
    · rw [find?_cons_of_neg (by simpa using hid)] at h
      rw [if_neg hid, find?_cons_of_neg (by simpa using hid)]
      exact ih h

theorem voter_promoteReplica {nodeId : ClusterNodeId}
    (h : (nodeId, RangeReplicaRole.voter) ∈ replicas.map fun replica =>
      (replica.nodeId, replica.role)) :
    (nodeId, RangeReplicaRole.voter) ∈ (promoteReplica replicaId replicas).map fun replica =>
      (replica.nodeId, replica.role) := by
  induction replicas with
  | nil => cases h
  | cons replica rest ih =>
    unfold promoteReplica
    rw [map_cons, mem_cons] at h
    split_ifs
    · rw [map_cons, mem_cons]
      exact h.imp_left fun heq => by rw [(Prod.mk.inj heq).1]
    · rw [map_cons, mem_cons]
      exact h.imp_right ih

theorem RangeOk.promoteLearner {nodes : Nodes} {target : RangeReplica} {epoch : Nat}
    (h : RangeOk nodes range) (hepoch : epoch ≠ 0)
    (htarget : (range.replicas.find? fun replica => replica.id = relocation.targetReplicaId) =
      some target) (hnode : target.nodeId = relocation.target) :
    RangeOk nodes { range.promoteLearner relocation with epoch := epoch } := by
  have hnodes : (promoteReplica relocation.targetReplicaId range.replicas).map (·.nodeId) =
      range.replicas.map (·.nodeId) :=
    map_promoteReplica fun _ => rfl
  refine ⟨h.id_ne, hepoch, h.interval, h.placement, fun hnil => h.replicas_ne ?_, ?_, ?_, ?_, ?_⟩
  · simp only [RangeDescriptor.promoteLearner] at hnil
    rw [hnil] at hnodes
    exact map_eq_nil_iff.1 hnodes.symm
  · intro replica hreplica
    obtain ⟨old, hold, -, heq⟩ := mem_promoteReplica hreplica
    exact heq ▸ h.hosts old hold
  · simp only [RangeDescriptor.promoteLearner]
    rw [map_promoteReplica fun _ => rfl]
    exact h.replicaIds
  · simp only [RangeDescriptor.promoteLearner]
    exact hnodes ▸ h.replicaNodes
  · rw [hasVoter_iff]
    simp only [RangeDescriptor.promoteLearner, RangeDescriptor.layout]
    split_ifs
    · exact mem_map.2 ⟨_, mem_of_find?_eq_some (find?_promoteReplica htarget), by rw [hnode]⟩
    · exact voter_promoteReplica (hasVoter_iff.1 h.leader)

theorem checkPromotion_eq_ok (hmap : MapOk topology.ranges)
    (h : checkPromotion topology relocationId relocation = .ok range) :
    relocation.phase = .readyToPromote ∧ range ∈ topology.ranges.values ∧
      range.id = relocation.rangeId ∧ ∃ target,
        (range.replicas.find? fun replica => replica.id = relocation.targetReplicaId) =
          some target ∧
          target.role = .learner := by
  rw [checkPromotion, andThen_eq_ok, require_eq_ok, andThen_eq_ok, require_eq_ok, bind_eq_ok] at h
  obtain ⟨hphase, -, found, hfound, h⟩ := h
  obtain ⟨hr, hid⟩ := (knownRange_eq_ok hmap).1 hfound
  split at h
  · cases h
  rw [andThen_eq_ok, andThen_eq_ok] at h
  obtain ⟨-, -, h⟩ := h
  split at h
  · cases h
  · rename_i target htarget
    rw [andThen_eq_ok, require_eq_ok] at h
    obtain ⟨hrole, ⟨⟩⟩ := h
    exact ⟨hphase, hr, hid, target, htarget, hrole⟩

theorem promoteLearner_ne {target : RangeReplica}
    (htarget : (range.replicas.find? fun replica => replica.id = relocation.targetReplicaId) =
      some target) (hrole : target.role = .learner) : range.promoteLearner relocation ≠ range := by
  intro heq
  have hpromoted := find?_promoteReplica htarget
  have hreplicas : promoteReplica relocation.targetReplicaId range.replicas = range.replicas :=
    congrArg RangeDescriptor.replicas heq
  rw [hreplicas, htarget, Option.some.injEq] at hpromoted
  rw [hpromoted] at hrole
  cases hrole

/-- A promotion that passes its checks does not stop. -/
def PromotionStopsFirst (topology : ClusterTopology) (relocationId : RelocationId)
    (actor : ClusterNodeId) : Prop :=
  ∀ relocation range, topology.ensureActor actor = .ok () →
    topology.knownRelocation relocationId = .ok relocation →
      checkPromotion topology relocationId relocation ≠ .ok range

theorem promoteRelocation_ends (h : TopologyOk topology) :
    Ends topology (PromotionStopsFirst topology relocationId actor) True False
      (promoteRelocation topology relocationId actor nowMs) := by
  refine .checkedIf (fun _ herror _ _ hok => ?_) fun _ hactor =>
    .checkedIf (fun _ herror _ _ _ hok => ?_) fun relocation hknown =>
    .checkedIf (fun _ herror found _ _ hfound hok => ?_) fun range hcheck => ?_
  · cases hok.symm.trans herror
  · cases hok.symm.trans herror
  · cases hfound.symm.trans hknown
    cases hok.symm.trans herror
  have hget := knownRelocation_eq_ok.1 hknown
  have hmap := h.ranges.toMapOk
  obtain ⟨hphase, hr, hid, learner, hlearner, hrole⟩ := checkPromotion_eq_ok hmap hcheck
  rw [← hid]
  split
  · refine ⟨⟨rfl, rfl⟩, iff_of_false (fun heq => ?_) fun hstops =>
      hstops relocation range hactor hknown hcheck⟩
    exact promoteLearner_ne hlearner hrole ((modifyRange_eq_iff hmap.rangeIds hr rfl).1 heq)
  rename_i epoch hepoch
  obtain ⟨-, rfl⟩ := checkedSucc_eq_some.1 hepoch
  have hactive : relocation.phase ≠ .completed := by simp [hphase]
  have hold := h.relocationOk hget
  obtain ⟨found, target, hfound, htarget, hagainst⟩ := hold.active hactive
  obtain ⟨hfoundMem, hfoundId⟩ := (find?_eq_some_iff_of_nodup hmap.rangeIds).1 hfound
  have hsame : found = range :=
    inj_on_of_nodup_map hmap.rangeIds hfoundMem hr (hfoundId.trans hid.symm)
  subst hsame
  have hok := (h.ranges.each found hr).promoteLearner
    (Nat.succ_ne_zero found.epoch) htarget hagainst.node
  refine Safe.commit ⟨rfl, rfl⟩ (h.advanceRelocation hget (isActive_iff.2 hactive) hr hid.symm
    ⟨rfl, rfl, rfl⟩ hok ?_ rfl hid ⟨hold.id_ne, hold.expectedEpoch_ne, hold.learnerEpoch_ne,
      hold.planId_ne, nofun, fun _ => ?_⟩) (setRelocation_ne hget (ne_of_phase (by simp [hphase])))
  · intro replica hreplica
    obtain ⟨old, hold, heq, -⟩ := mem_promoteReplica hreplica
    exact mem_map.2 ⟨old, hold, heq⟩
  · refine ⟨{ found.promoteLearner relocation with epoch := found.epoch + 1 },
      { target with role := .voter }, ?_, find?_promoteReplica htarget, ?_⟩
    · exact (find?_eq_some_iff_of_nodup (hmap.modify hr ⟨rfl, rfl, rfl⟩).rangeIds).2
          ⟨(mem_modified hmap hr).2 (.inl rfl), rfl⟩
    · exact ⟨hagainst.node, by simp [expectedRole], by simp [EpochOk], nofun,
        fun _ => hagainst.notResumable (by simp [hphase]),
        fun _ => hagainst.snapshot (by simp [hphase]), nofun⟩

/-! ## Cleanup -/

theorem RangeOk.removeSource {nodes : Nodes} {source : Option ClusterNodeId} {epoch : Nat}
    (h : RangeOk nodes range) (hepoch : epoch ≠ 0) (hsource : source ≠ some range.leader) :
    RangeOk nodes { range.removeSource source with epoch := epoch } := by
  have hsub : (range.removeSource source).replicas.Sublist range.replicas := filter_sublist
  -- the leader's replica stays
  have hleader : (range.removeSource source).hasVoter range.leader = true := by
    obtain ⟨replica, hmem, hvoter⟩ := any_eq_true.1 h.leader
    refine any_eq_true.2 ⟨replica, mem_filter.2 ⟨hmem, ?_⟩, hvoter⟩
    simp only [Bool.and_eq_true, decide_eq_true_eq] at hvoter
    simpa [hvoter.1] using hsource
  refine ⟨h.id_ne, hepoch, h.interval, h.placement, fun hnil => ?_,
    fun replica hreplica => h.hosts replica (hsub.subset hreplica),
    h.replicaIds.sublist (hsub.map _), h.replicaNodes.sublist (hsub.map _), hleader⟩
  have hempty : (range.removeSource source).replicas = [] := hnil
  rw [RangeDescriptor.hasVoter, hempty] at hleader
  cases hleader

theorem checkCleanup_eq_ok (hmap : MapOk topology.ranges)
    (h : checkCleanup topology relocationId relocation = .ok range) :
    relocation.phase = .cleaningUp ∧ relocation.promotedEpoch.isSome = true ∧
      range ∈ topology.ranges.values ∧ range.id = relocation.rangeId ∧
      relocation.source ≠ some range.leader := by
  rw [checkCleanup, andThen_eq_ok, require_eq_ok] at h
  obtain ⟨hphase, h⟩ := h
  split at h
  · cases h
  rename_i promotedEpoch hpromoted
  rw [bind_eq_ok] at h
  obtain ⟨found, hfound, h⟩ := h
  obtain ⟨hr, hid⟩ := (knownRange_eq_ok hmap).1 hfound
  rw [andThen_eq_ok, require_eq_ok, andThen_eq_ok, require_eq_ok] at h
  obtain ⟨-, hsource, ⟨⟩⟩ := h
  exact ⟨hphase, by rw [hpromoted]; rfl, hr, hid, hsource⟩

/-- A cleanup that passes its checks stops, if at all, where there is no replica to remove. -/
def CleanupStopsFirst (topology : ClusterTopology) (relocationId : RelocationId)
    (actor : ClusterNodeId) : Prop :=
  ∀ relocation range, topology.ensureActor actor = .ok () →
    topology.knownRelocation relocationId = .ok relocation →
    checkCleanup topology relocationId relocation = .ok range →
      ∀ replica ∈ range.replicas, relocation.source ≠ some replica.nodeId

theorem finishRelocationCleanup_ends (h : TopologyOk topology) :
    Ends topology (CleanupStopsFirst topology relocationId actor) True False
      (finishRelocationCleanup topology relocationId actor nowMs) := by
  refine .checkedIf (fun _ herror _ _ hok => ?_) fun _ hactor =>
    .checkedIf (fun _ herror _ _ _ hok => ?_) fun relocation hknown =>
    .checkedIf (fun _ herror found _ _ hfound hok => ?_) fun range hcheck => ?_
  · cases hok.symm.trans herror
  · cases hok.symm.trans herror
  · cases hfound.symm.trans hknown
    cases hok.symm.trans herror
  have hget := knownRelocation_eq_ok.1 hknown
  obtain ⟨hphase, hpromoted, hr, hid, hsource⟩ := checkCleanup_eq_ok h.ranges.toMapOk hcheck
  rw [← hid]
  split
  · refine ⟨⟨rfl, rfl⟩, (modifyRange_eq_iff h.ranges.rangeIds hr rfl).trans ⟨fun heq => ?_,
      fun hstops => ?_⟩⟩
    · intro found range' _ hfound hcheck'
      cases hknown.symm.trans hfound
      cases hcheck.symm.trans hcheck'
      have hkept := congrArg RangeDescriptor.replicas heq
      rw [RangeDescriptor.removeSource, filter_eq_self] at hkept
      simpa using hkept
    · have hkept := hstops relocation range hactor hknown hcheck
      rw [RangeDescriptor.removeSource, filter_eq_self.2 fun replica hmem =>
        decide_eq_true (hkept replica hmem)]
  rename_i epoch hepoch
  obtain ⟨-, rfl⟩ := checkedSucc_eq_some.1 hepoch
  have hactive : relocation.phase ≠ .completed := by simp [hphase]
  have hold := h.relocationOk hget
  obtain ⟨_, _, _, _, hagainst⟩ := hold.active hactive
  have hsnapshot := hagainst.snapshot (by simp [hphase])
  refine Safe.commit ⟨rfl, rfl⟩ (h.advanceRelocation hget (isActive_iff.2 hactive) hr hid.symm
    ⟨rfl, rfl, rfl⟩ ((h.ranges.each range hr).removeSource (Nat.succ_ne_zero _) hsource) ?_ rfl hid
    ⟨hold.id_ne, hold.expectedEpoch_ne, hold.learnerEpoch_ne, hold.planId_ne,
      fun _ => ⟨hpromoted, hsnapshot⟩, fun hne => absurd rfl hne⟩)
    (setRelocation_ne hget (ne_of_phase (by simp [hphase])))
  intro replica hreplica
  exact mem_map_of_mem (mem_of_mem_filter hreplica)

/-! ## Plans -/

variable {limits : LivenessLimits} {planId : String}

/-- A move that the checks accept. -/
def MoveOk (topology : ClusterTopology) (limits : LivenessLimits) (nowMs : Nat)
    (movement : PlannedReplicaMove) : Prop :=
  ∃ range, topology.rangeById movement.rangeId = some range ∧
    range.epoch = movement.expectedEpoch ∧ topology.isRelocating movement.rangeId = false ∧
    ∃ target, topology.nodes.get? movement.target = some target ∧
      targetIsEligible limits nowMs topology.nodes range target = true ∧
      range.hasReplica movement.target = false ∧
      ∀ source ∈ movement.source, range.hasReplica source = true

theorem checkMoves_eq_ok {moves : List PlannedReplicaMove} :
    forAllSeen (checkMove topology limits nowMs planId) [] moves = .ok () ↔
      (∀ movement ∈ moves, MoveOk topology limits nowMs movement) ∧
        (moves.map (·.rangeId)).Nodup := by
  have hcheck : ∀ seen movement, checkMove topology limits nowMs planId seen movement = .ok () ↔
      MoveOk topology limits nowMs movement ∧
        ∀ other ∈ seen, other.rangeId ≠ movement.rangeId := by
    intro seen movement
    rw [checkMove, andThen_eq_ok, require_eq_ok, and_comm]
    unfold MoveOk
    cases topology.rangeById movement.rangeId with
    | none => simp
    | some range =>
      cases topology.nodes.get? movement.target with
      | none => simp
      | some target => simp
  rw [forAllSeen_eq_ok hcheck]
  simp only [not_mem_nil, false_implies, implies_true, true_and]
  exact and_congr_right fun _ => pairwise_map.symm

/-- A transfer that is made at once. -/
def TransferNow (topology : ClusterTopology) (limits : LivenessLimits) (nowMs : Nat)
    (transfer : PlannedLeaderTransfer) (range : RangeDescriptor) : Prop :=
  range.hasVoter transfer.target = true ∧
    ∃ target, topology.nodes.get? transfer.target = some target ∧
      target.lifecycle ≠ .decommissioned ∧
      range.nodeSchemaIsCompatible topology.nodes target = true ∧
      limits.of target nowMs ≠ .dead

theorem checkTransfer_eq_ok {moving : List RangeId} {transfer : PlannedLeaderTransfer}
    {now : Bool} :
    checkTransfer topology limits nowMs moving transfer = .ok now ↔
      ∃ range, topology.rangeById transfer.rangeId = some range ∧
        (range.epoch = transfer.expectedEpoch ∧ range.leader = transfer.source) ∧
        ((now = true ∧ TransferNow topology limits nowMs transfer range) ∨
          (now = false ∧ range.hasVoter transfer.target = false ∧ transfer.rangeId ∈ moving)) := by
  unfold checkTransfer TransferNow
  cases topology.rangeById transfer.rangeId with
  | none => simp
  | some range =>
    simp only [andThen_eq_ok, require_eq_ok, Option.some.injEq, exists_eq_left']
    refine and_congr_right fun _ => ?_
    cases hvoter : range.hasVoter transfer.target with
    | false =>
      simp only [Bool.false_eq_true, if_false, andThen_eq_ok, require_eq_ok, false_and, and_false,
        true_and, false_or, pure, Except.pure, Except.ok.injEq]
      rw [and_comm, eq_comm]
    | true =>
      simp only [if_true, true_and, Bool.true_eq_false, false_and, and_false, or_false]
      cases topology.nodes.get? transfer.target with
      | none => simp
      | some target =>
        simp only [andThen_eq_ok, require_eq_ok, Option.some.injEq, exists_eq_left', pure,
          Except.pure, Except.ok.injEq]
        rw [and_comm, eq_comm]

theorem mem_checkTransfers {moving immediate : List RangeId}
    {transfers : List PlannedLeaderTransfer}
    (h : checkTransfers topology limits nowMs moving transfers = .ok immediate) {rangeId : RangeId}
    (hmem : rangeId ∈ immediate) :
    ∃ transfer ∈ transfers, transfer.rangeId = rangeId ∧
      ∃ range, topology.rangeById rangeId = some range ∧
        TransferNow topology limits nowMs transfer range := by
  induction transfers generalizing immediate with
  | nil =>
    cases h
    cases hmem
  | cons transfer rest ih =>
    rw [checkTransfers, bind_eq_ok] at h
    obtain ⟨now, hchecked, h⟩ := h
    rw [bind_eq_ok] at h
    obtain ⟨others, hothers, ⟨⟩⟩ := h
    have hrest : rangeId ∈ others → ∃ transfer' ∈ transfer :: rest, transfer'.rangeId = rangeId ∧
        ∃ range, topology.rangeById rangeId = some range ∧
          TransferNow topology limits nowMs transfer' range := by
      intro hmem
      obtain ⟨transfer', hmem', h'⟩ := ih hothers hmem
      exact ⟨transfer', mem_cons_of_mem _ hmem', h'⟩
    obtain ⟨range, hrange, -, hnow⟩ := checkTransfer_eq_ok.1 hchecked
    rcases hnow with ⟨rfl, hnow⟩ | ⟨rfl, -, -⟩
    · rcases mem_cons.1 hmem with rfl | hmem
      · exact ⟨transfer, mem_cons_self, rfl, range, hrange, hnow⟩
      · exact hrest hmem
    · exact hrest hmem

/-- A plan that passes its checks stops, if at all, before it has changed anything: the history is
full of relocations on their way; or the first transfer is one to the leader itself, at the last
epoch; or there is no transfer and no replica id to take. -/
def PlanStopsFirst (topology : ClusterTopology) (plan : RebalancePlan) (immediate : List RangeId) :
    Prop :=
  if topology.relocations.size + plan.replicaMoves.length ≤ defaultRelocationHistoryLimit then
    match plan.leaderTransfers.find? fun transfer => transfer.rangeId ∈ immediate with
    | some transfer => ∃ range, topology.rangeById transfer.rangeId = some range ∧
        u64Max ≤ range.epoch ∧ range.leader = transfer.target
    | none => u64Max ≤ topology.nextReplicaId
  else ∀ entry ∈ topology.relocations.entries, entry.2.phase ≠ .completed

/-- The transfers that a plan makes at once are of ranges without a relocation on its way, and the
last one of each range is to a voter of it. -/
structure PlanValid (topology : ClusterTopology) (plan : RebalancePlan) (immediate : List RangeId) :
    Prop where
  settled : ∀ rangeId ∈ immediate, Settled topology.relocations rangeId
  voters : ∀ range ∈ topology.ranges.values, range.id ∈ immediate →
    ∀ transfer ∈ (plan.leaderTransfers.filter fun transfer =>
      transfer.rangeId = range.id).getLast?, range.hasVoter transfer.target = true

theorem TopologyOk.recordPlan (h : TopologyOk topology) :
    TopologyOk (topology.recordPlan planId) := by
  refine { h with planBound := ?_ }
  simp only [ClusterTopology.recordPlan, length_drop]
  omega

theorem MoveOk.fits {topology' : ClusterTopology} {movement : PlannedReplicaMove}
    (hmove : MoveOk topology limits nowMs movement) (h : RangesOk topology.nodes topology.ranges)
    (hnodes : topology'.nodes = topology.nodes)
    (hprogress : SameInProgress topology.relocations topology'.relocations)
    (hseats : ∀ range ∈ topology.ranges.values, ∃ range' ∈ topology'.ranges.values,
      range'.id = range.id ∧ range'.replicas = range.replicas) : MoveFits topology' movement := by
  obtain ⟨range, hfind, hepoch, hidle, target, hget, heligible, hnew, -⟩ := hmove
  obtain ⟨hr, hid⟩ := (rangeById_eq_some h.toMapOk).1 hfind
  obtain ⟨range', hr', hid', hreplicas⟩ := hseats range hr
  simp only [targetIsEligible, Bool.and_eq_true, decide_eq_true_eq] at heligible
  refine ⟨hepoch ▸ (h.each range hr).epoch_ne, hprogress.idle (isRelocating_eq_false.1 hidle),
    ⟨target, hnodes ▸ hget, heligible.1.1.1.2⟩, range', hr', hid'.trans hid, ?_⟩
  rwa [RangeDescriptor.hasReplica, hreplicas]

/-- The transfers that are made, on a range that has some and on one that has none. -/
theorem filter_immediate {transfers : List PlannedLeaderTransfer} {immediate : List RangeId} :
    ((madeAtOnce immediate transfers).filter fun transfer => transfer.rangeId = range.id) =
      if range.id ∈ immediate then transfers.filter fun transfer => transfer.rangeId = range.id
      else [] := by
  rw [madeAtOnce, filter_filter]
  split_ifs with hin
  · refine filter_congr fun transfer _ => ?_
    by_cases hid : transfer.rangeId = range.id
    · simp [hid, hin]
    · simp [hid]
  · refine filter_eq_nil_iff.2 fun transfer _ => ?_
    simp only [Bool.and_eq_true, decide_eq_true_eq, not_and]
    intro hid
    rwa [hid]

section Plan

variable {plan : RebalancePlan} {moving immediate : List RangeId} (h : TopologyOk topology)
  (hplan : plan.id ≠ "")
  (hmoves : ∀ movement ∈ plan.replicaMoves, MoveOk topology limits nowMs movement)
  (hdistinct : (plan.replicaMoves.map (·.rangeId)).Nodup)
  (himmediate : checkTransfers topology limits nowMs moving plan.leaderTransfers = .ok immediate)

include himmediate in
theorem exists_transfer {rangeId : RangeId} (hin : rangeId ∈ immediate) :
    ∃ transfer ∈ plan.leaderTransfers, transfer.rangeId = rangeId ∧
      ∃ range, topology.rangeById rangeId = some range := by
  obtain ⟨transfer, hmem, hid, range, hrange, -⟩ := mem_checkTransfers himmediate hin
  exact ⟨transfer, hmem, hid, range, hrange⟩

variable {relocations : Relocations} {topology₁ topology₂ : ClusterTopology}
  (hevict : evictCompleted plan.replicaMoves.length topology.relocations.entries
    topology.relocations = (true, relocations))
  (htransfers : applyTransfers immediate plan.leaderTransfers
    { topology with relocations := relocations } = (true, topology₁))

include h hevict htransfers

include hplan hmoves hdistinct in
theorem plan_valid_of_planValid {ids : List RelocationId}
    (happly : applyMoves plan.id nowMs plan.replicaMoves topology₁ = (.ok ids, topology₂))
    (hvalid : PlanValid topology plan immediate) : TopologyOk topology₂ := by
  obtain ⟨hsub, hprogress, hok, hle, hsize, -⟩ :=
    @evictCompleted_spec topology.ranges _ _ _ _ _ hevict (List.Sublist.refl _)
  have hevicted : TopologyOk { topology with relocations := relocations } :=
    { h with
      relocationIds := fun entry hentry => h.relocationIds entry (hsub entry hentry)
      relocationBound := hle.trans h.relocationBound
      relocations := hok h.relocations }
  have hranges := applyTransfers_eq hevicted.ranges.rangeIds htransfers
  have hframe := applyTransfers_frame htransfers
  have hok₁ : TopologyOk topology₁ := by
    rw [hframe, hranges]
    refine hevicted.handedOver (fun transfer hmem entry hentry => ?_) fun range hr => ?_
    · exact hvalid.settled _ (by simpa using (mem_filter.1 hmem).2) entry (hsub entry hentry)
    · simp only [handedOver, filter_immediate]
      split_ifs with hin
      · cases hlast : (plan.leaderTransfers.filter fun transfer =>
            transfer.rangeId = range.id).getLast? with
        | none => exact (h.ranges.each range hr).leader
        | some transfer => exact hvalid.voters range hr hin transfer hlast
      · exact (h.ranges.each range hr).leader
  -- the moves find their ranges as they were
  have hrelocations : topology₁.relocations = relocations := by rw [hframe]
  refine applyMoves_valid hok₁ hplan (fun movement hmem => ?_) hdistinct
    (hrelocations ▸ hsize rfl) happly
  refine (hmoves movement hmem).fits h.ranges (by rw [hframe]) (hrelocations ▸ hprogress)
    fun range hr => ⟨handedOver (madeAtOnce immediate plan.leaderTransfers) range, ?_, rfl, rfl⟩
  rw [hranges, values_mapValues]
  exact mem_map_of_mem hr

include himmediate in
theorem planValid_of_plan_valid
    {result : Except BicDbError (List RelocationId)}
    (happly : applyMoves plan.id nowMs plan.replicaMoves topology₁ = (result, topology₂))
    (hok : TopologyOk topology₂) : PlanValid topology plan immediate := by
  obtain ⟨-, hprogress, -, -, -, -⟩ :=
    @evictCompleted_spec topology.ranges _ _ _ _ _ hevict (List.Sublist.refl _)
  have hids := h.ranges.rangeIds
  have hframe := applyTransfers_frame htransfers
  have hranges := @applyTransfers_eq { topology with relocations := relocations } _ _ _ hids
    htransfers
  have hids₁ : (topology₁.ranges.values.map (·.id)).Nodup := by
    rw [hranges, values_mapValues, map_map]
    exact hids
  obtain ⟨hlearns, -, -⟩ := applyMoves_learns hids₁ happly
  -- each range, after its transfers and with the learners of its moves
  have hend : ∀ range ∈ topology.ranges.values, ∃ range' ∈ topology₂.ranges.values,
      range'.id = range.id ∧
        range'.leader = (handedOver (madeAtOnce immediate plan.leaderTransfers) range).leader ∧
        (handedOver (madeAtOnce immediate plan.leaderTransfers) range).epoch ≤ range'.epoch ∧
        ∀ nodeId, range'.hasVoter nodeId = true → range.hasVoter nodeId = true := by
    intro range hr
    apply hlearns.ranges (handedOver (madeAtOnce immediate plan.leaderTransfers) range)
    rw [hranges, values_mapValues]
    exact mem_map_of_mem hr
  refine ⟨fun rangeId hin entry hentry hrange => ?_, fun range hr hin transfer hlast => ?_⟩
  · by_contra hbusy
    rw [not_or] at hbusy
    obtain ⟨range, target, hfind, -, hagainst⟩ := (h.relocations.each entry hentry).active hbusy.1
    have hkept : entry ∈ topology₂.relocations.entries := by
      refine hlearns.relocations entry ?_ ?_
      · rw [hframe]
        exact (hprogress entry hbusy.1).2 hentry
      · rw [hframe]
        exact h.relocationIds entry hentry
    obtain ⟨range₂, _, hfind₂, -, hagainst₂⟩ := (hok.relocations.each entry hkept).active hbusy.1
    obtain ⟨hr, hid⟩ := (find?_eq_some_iff_of_nodup hids).1 hfind
    obtain ⟨hr₂, hid₂⟩ := (find?_eq_some_iff_of_nodup hok.ranges.rangeIds).1 hfind₂
    obtain ⟨range', hr', hid', -, hepoch, -⟩ := hend range hr
    have hsame := inj_on_of_nodup_map hok.ranges.rangeIds hr' hr₂
      (hid'.trans (hid.trans hid₂.symm))
    subst hsame
    -- the transfer has raised the epoch that the relocation is for
    obtain ⟨transfer, hmem, htransfer, -⟩ := exists_transfer himmediate hin
    have hraised : range.epoch < range'.epoch := by
      refine lt_of_lt_of_le (Nat.lt_add_of_pos_right (length_pos_of_mem (a := transfer) ?_))
        hepoch
      rw [filter_immediate, if_pos (hid.trans hrange ▸ hin)]
      exact mem_filter.2 ⟨hmem, decide_eq_true (htransfer.trans (hid.trans hrange).symm)⟩
    have hold := hagainst.epoch
    have hnew := hagainst₂.epoch
    unfold EpochOk at hold hnew
    split_ifs at hold hnew
    · omega
    · simp only [mem_cons, not_mem_nil, or_false, hbusy.1, hbusy.2, false_or] at hold hnew
      omega
  · obtain ⟨range', hr', -, hleader, -, hvoter⟩ := hend range hr
    have hvotes := (hok.ranges.each range' hr').leader
    rw [hleader] at hvotes
    simp only [handedOver, filter_immediate, if_pos hin] at hvotes
    rw [Option.mem_def.1 hlast] at hvotes
    exact hvoter _ hvotes

end Plan

/-! ### Plans that stop -/

theorem recordPlan_ne (happlied : topology'.appliedRebalancePlans = topology.appliedRebalancePlans)
    (hnew : planId ∉ topology.appliedRebalancePlans) : topology'.recordPlan planId ≠ topology := by
  intro heq
  have hplans := congrArg ClusterTopology.appliedRebalancePlans heq
  simp only [ClusterTopology.recordPlan, happlied, length_append, length_singleton] at hplans
  apply hnew
  rw [← hplans, drop_append_of_le_length (by simp only [defaultAppliedPlanHistoryLimit]; omega)]
  exact mem_append_right _ (mem_singleton_self _)

section Stops

variable {plan : RebalancePlan} {moving immediate : List RangeId} {relocations : Relocations}
  {topology₁ topology₂ : ClusterTopology} {made : Bool}

/-- What is dropped for the moves is missed. -/
theorem evicted_ne
    (hevict : evictCompleted plan.replicaMoves.length topology.relocations.entries
      topology.relocations = (true, relocations))
    (hfull : ¬ topology.relocations.size + plan.replicaMoves.length ≤
      defaultRelocationHistoryLimit) :
    relocations ≠ topology.relocations ∧
      ¬ ∀ entry ∈ topology.relocations.entries, entry.2.phase ≠ .completed := by
  obtain ⟨-, -, -, -, hsize, -⟩ :=
    @evictCompleted_spec topology.ranges _ _ _ _ _ hevict (List.Sublist.refl _)
  have hne : relocations ≠ topology.relocations := fun heq => hfull (heq ▸ hsize rfl)
  refine ⟨hne, fun hactive => hne ?_⟩
  have hkept := @evictCompleted_of_active plan.replicaMoves.length _ topology.relocations hactive
  rwa [hevict] at hkept

variable (hids : (topology.ranges.values.map (·.id)).Nodup)
  (himmediate : checkTransfers topology limits nowMs moving plan.leaderTransfers = .ok immediate)
  (hevict : evictCompleted plan.replicaMoves.length topology.relocations.entries
    topology.relocations = (true, relocations))
  (htransfers : applyTransfers immediate plan.leaderTransfers
    { topology with relocations := relocations } = (made, topology₁))

include hids himmediate hevict htransfers

theorem transfers_stop_iff (hstop : made = false) :
    topology₁ = topology ↔ PlanStopsFirst topology plan immediate := by
  unfold PlanStopsFirst
  split_ifs with hroom
  · rw [evictCompleted_of_room hroom, Prod.mk.injEq] at hevict
    obtain ⟨-, rfl⟩ := hevict
    cases hfirst : plan.leaderTransfers.find? fun transfer => transfer.rangeId ∈ immediate with
    | none =>
      rw [applyTransfers_of_none hfirst, Prod.mk.injEq, hstop] at htransfers
      cases htransfers.1
    | some transfer =>
      have hin : transfer.rangeId ∈ immediate := by simpa using find?_some hfirst
      obtain ⟨-, -, -, range, hrange⟩ := exists_transfer himmediate hin
      have hfound := applyTransfers_of_some hids hfirst hrange htransfers
      simp only [hrange, Option.some.injEq, exists_eq_left']
      split_ifs at hfound with hlt
      · exact iff_of_false hfound fun hend => absurd hlt (not_lt.2 hend.1)
      · rw [hfound.2, and_iff_right (not_lt.1 hlt)]
  · obtain ⟨hne, hcompleted⟩ := evicted_ne hevict hroom
    refine iff_of_false (fun heq => hne ?_) hcompleted
    rw [applyTransfers_frame htransfers] at heq
    exact congrArg ClusterTopology.relocations heq

theorem moves_stop_iff (hmade : made = true) {error : BicDbError}
    (happly : applyMoves plan.id nowMs plan.replicaMoves topology₁ = (.error error, topology₂)) :
    topology₂ = topology ↔ PlanStopsFirst topology plan immediate := by
  have hframe := applyTransfers_frame htransfers
  have hnext : topology₁.nextReplicaId = topology.nextReplicaId := by rw [hframe]
  have hids₁ : (topology₁.ranges.values.map (·.id)).Nodup := by
    subst hmade
    rw [@applyTransfers_eq { topology with relocations := relocations } _ _ _ hids htransfers,
      values_mapValues, map_map]
    exact hids
  obtain ⟨-, hfull, htaken⟩ := applyMoves_learns hids₁ happly
  have hmoves : plan.replicaMoves ≠ [] := by
    intro hnil
    rw [hnil, applyMoves] at happly
    cases happly
  -- a move that stops after a replica id has been taken has changed the next one
  have hiff : topology₂ = topology ↔ topology₁ = topology ∧ u64Max ≤ topology.nextReplicaId := by
    rw [hnext] at hfull htaken
    constructor
    · intro heq
      have hmax : u64Max ≤ topology.nextReplicaId := by
        by_contra hlt
        have := htaken hmoves (not_le.1 hlt)
        rw [heq] at this
        exact lt_irrefl _ this
      exact ⟨(hfull hmax).symm.trans heq, hmax⟩
    · rintro ⟨heq, hmax⟩
      exact (hfull hmax).trans heq
  rw [hiff]
  unfold PlanStopsFirst
  split_ifs with hroom
  · rw [evictCompleted_of_room hroom, Prod.mk.injEq] at hevict
    obtain ⟨-, rfl⟩ := hevict
    cases hfirst : plan.leaderTransfers.find? fun transfer => transfer.rangeId ∈ immediate with
    | none =>
      rw [applyTransfers_of_none hfirst, Prod.mk.injEq] at htransfers
      exact and_iff_right htransfers.2.symm
    | some transfer =>
      have hin : transfer.rangeId ∈ immediate := by simpa using find?_some hfirst
      obtain ⟨-, -, -, range, hrange⟩ := exists_transfer himmediate hin
      have hfound := applyTransfers_of_some hids hfirst hrange htransfers
      simp only [hrange, Option.some.injEq, exists_eq_left']
      split_ifs at hfound with hlt
      · exact iff_of_false (fun heq => hfound heq.1) fun hend => absurd hlt (not_lt.2 hend.1)
      · rw [hmade] at hfound
        cases hfound.1
  · obtain ⟨hne, hcompleted⟩ := evicted_ne hevict hroom
    refine iff_of_false (fun heq => hne ?_) hcompleted
    rw [hframe] at heq
    exact congrArg ClusterTopology.relocations heq.1

end Stops

theorem applyChecked_ends {plan : RebalancePlan} {moving immediate : List RangeId}
    (h : TopologyOk topology) (hplan : plan.id ≠ "")
    (hnew : plan.id ∉ topology.appliedRebalancePlans)
    (hmoves : ∀ movement ∈ plan.replicaMoves, MoveOk topology limits nowMs movement)
    (hdistinct : (plan.replicaMoves.map (·.rangeId)).Nodup)
    (himmediate :
      checkTransfers topology limits nowMs moving plan.leaderTransfers = .ok immediate) :
    Ends topology (PlanStopsFirst topology plan immediate) (PlanValid topology plan immediate) False
      (applyChecked topology plan immediate actor nowMs) := by
  have hids := h.ranges.rangeIds
  unfold applyChecked
  rcases hevict : evictCompleted plan.replicaMoves.length topology.relocations.entries
    topology.relocations with ⟨_ | _, relocations⟩
  · -- nothing is left to drop and there is still no room
    obtain ⟨-, -, -, -, -, hgone⟩ :=
      @evictCompleted_spec topology.ranges _ _ _ _ _ hevict (List.Sublist.refl _)
    have hfull : ¬ topology.relocations.size + plan.replicaMoves.length ≤
        defaultRelocationHistoryLimit := by
      intro hroom
      rw [evictCompleted_of_room hroom] at hevict
      cases hevict
    refine ⟨⟨rfl, rfl⟩, ?_⟩
    rw [PlanStopsFirst, if_neg hfull]
    constructor
    · intro heq entry hentry hphase
      refine hgone rfl entry hentry hphase ?_
      have hsame : relocations = topology.relocations :=
        congrArg ClusterTopology.relocations heq
      rwa [hsame]
    · intro hactive
      have hkept :=
        @evictCompleted_of_active plan.replicaMoves.length _ topology.relocations hactive
      rw [hevict] at hkept
      rw [show relocations = topology.relocations from hkept]
  dsimp only
  rcases htransfers : applyTransfers immediate plan.leaderTransfers
    { topology with relocations := relocations } with ⟨_ | _, topology₁⟩
  · have hframe := applyTransfers_frame htransfers
    refine ⟨⟨by rw [hframe], by rw [hframe]⟩, ?_⟩
    exact transfers_stop_iff hids himmediate hevict htransfers rfl
  have hframe := applyTransfers_frame htransfers
  have hids₁ : (topology₁.ranges.values.map (·.id)).Nodup := by
    rw [@applyTransfers_eq { topology with relocations := relocations } _ _ _ hids htransfers,
      values_mapValues, map_map]
    exact hids
  dsimp only
  rcases happly : applyMoves plan.id nowMs plan.replicaMoves topology₁ with ⟨error | ids, topology₂⟩
  · obtain ⟨hlearns, -, -⟩ := applyMoves_learns hids₁ happly
    refine ⟨⟨by rw [hlearns.frame, hframe], by rw [hlearns.frame, hframe]⟩, ?_⟩
    exact moves_stop_iff hids himmediate hevict htransfers rfl happly
  · obtain ⟨hlearns, -, -⟩ := applyMoves_learns hids₁ happly
    have happlied : topology₂.appliedRebalancePlans = topology.appliedRebalancePlans := by
      rw [hlearns.frame, hframe]
    refine .commit ⟨?_, ?_⟩ ⟨fun hok => ?_, fun hvalid => ?_⟩ (recordPlan_ne happlied hnew)
    · show topology₂.generation = _
      rw [hlearns.frame, hframe]
    · show topology₂.history = _
      rw [hlearns.frame, hframe]
    · refine planValid_of_plan_valid h himmediate hevict htransfers happly
        { hok with planBound := ?_ }
      rw [happlied]
      exact h.planBound
    · exact (plan_valid_of_planValid h hplan hmoves hdistinct hevict htransfers happly
        hvalid).recordPlan

/-- A plan that has passed all its checks, at `immediate`. -/
structure PlanChecked (topology : ClusterTopology) (limits : LivenessLimits) (plan : RebalancePlan)
    (actor : ClusterNodeId) (nowMs : Nat) (immediate : List RangeId) : Prop where
  actor : topology.ensureActor actor = .ok ()
  new : plan.id ∉ topology.appliedRebalancePlans
  id : plan.id ≠ ""
  generation : plan.topologyGeneration = topology.generation
  moves : forAllSeen (checkMove topology limits nowMs plan.id) [] plan.replicaMoves = .ok ()
  transfers : checkTransfers topology limits nowMs (plan.replicaMoves.map (·.rangeId))
    plan.leaderTransfers = .ok immediate

theorem applyRebalancePlan_ends {plan : RebalancePlan} (h : TopologyOk topology) :
    Ends topology
      (∀ immediate, PlanChecked topology limits plan actor nowMs immediate →
        PlanStopsFirst topology plan immediate)
      (∀ immediate, PlanChecked topology limits plan actor nowMs immediate →
        PlanValid topology plan immediate) False
      (applyRebalancePlan topology limits plan actor nowMs) := by
  refine .checkedIf (fun _ herror _ hchecked => ?_) fun _ hactor => ?_
  · cases hchecked.actor.symm.trans herror
  split_ifs with hnew
  · trivial
  refine .checkedIf (fun _ herror _ hchecked => ?_) fun _ hplan =>
    .checkedIf (fun _ herror _ hchecked => ?_) fun _ hgeneration =>
    .checkedIf (fun _ herror _ hchecked => ?_) fun _ hmoves =>
    .checkedIf (fun _ herror _ hchecked => ?_) fun immediate himmediate => ?_
  · rw [require, if_pos hchecked.id] at herror
    cases herror
  · rw [require, if_pos hchecked.generation] at herror
    cases herror
  · cases hchecked.moves.symm.trans herror
  · cases hchecked.transfers.symm.trans herror
  rw [require_eq_ok] at hplan hgeneration
  have hall := checkMoves_eq_ok.1 hmoves
  have hchecked : PlanChecked topology limits plan actor nowMs immediate :=
    ⟨hactor, hnew, hplan, hgeneration, hmoves, himmediate⟩
  -- the transfers to be made at once are determined by the checks
  have honly : ∀ P : List RangeId → Prop, P immediate ↔
      ∀ found, PlanChecked topology limits plan actor nowMs found → P found := by
    intro P
    refine ⟨fun hp found hfound => ?_, fun hall => hall immediate hchecked⟩
    cases himmediate.symm.trans hfound.transfers
    exact hp
  have hends := @applyChecked_ends _ actor _ _ _ _ _ h hplan hnew hall.1 hall.2 himmediate
  rwa [Ends, ← honly, ← honly]

end BicDb.Distribution
