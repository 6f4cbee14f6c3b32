import BicDb.Metadata.Activation

/-!
# Reopening persisted metadata

Every state file is decoded and validated, `open` accepts it, and every snapshot sent passes the
checks. But a commit of a topology keeps the activation of an older one, which `validate_state`
refuses: `laterTopology_blocks_reopen`.
-/

namespace BicDb.Metadata

open BicDb.Foundation MetadataCluster List MetadataConsensusStore

variable {ι ρ δ : Type*} [DecidableEq ι]
  {P : Platform ι ρ δ} {B : Bootstrap P} {M : Care}
  {H : History ι (MetadataLogEntry ι ρ)} {a : ι → Replica ι (MetadataLogEntry ι ρ)}
  {c : MetadataCluster ι ρ δ}

def frozenCare : Care := ⟨True, True⟩

/-! ## Validation of logs in order -/

theorem LogOk.carriedActivation {l : List (MetadataLogEntry ι ρ)} (h : LogOk B frozenCare l) :
    validateCarriedActivation P (lastActivation l) (topologyAt B.topology l) B.clusterId =
      .ok () := by
  induction l using reverseRecOn with
  | nil => rfl
  | append_singleton p e ih =>
    have hprev := ih (h.anti (prefix_append p [e]))
    have hok := h p e prefix_rfl
    rw [lastActivation_concat, topologyAt_concat, nextActivation]
    cases hact : e.restoreActivation with
    | some =>
      have hshape := (validateLogEntryShape_ok.mp hok.shape).2.2.2
      rwa [hact] at hshape
    | none =>
      cases hknown : lastActivation p with
      | none => rfl
      | some known =>
        -- topologies are frozen behind the known activation
        have hsame := hok.frozen trivial trivial (by simp [hknown])
        rw [hknown] at hprev
        rwa [hsame]

variable {activation : MetadataRestoreActivation ι}

/-- When the known activation was made. -/
def activationMs (known : Option (MetadataRestoreActivation ι)) : Nat :=
  (known.map (·.activatedAtMs)).getD 0

theorem EntryOk.activationMs_lt {p : List (MetadataLogEntry ι ρ)} {e : MetadataLogEntry ι ρ}
    (h : EntryOk B M p e) (hcarry : M.carry) (hact : e.restoreActivation = some activation) :
    activationMs (lastActivation p) < activation.activatedAtMs := by
  cases hknown : lastActivation p with
  | none =>
    have hshape := (validateLogEntryShape_ok.mp h.shape).2.2.2
    simp only [hact, validateCarriedActivation, validateActivationAgainstTopology] at hshape
    split at hshape
    · cases hshape
    · next hvalid =>
        unfold MetadataRestoreActivation.validate at hvalid
        split at hvalid
        · cases hvalid
        · next hbounds =>
            simp only [not_or] at hbounds
            exact Nat.pos_of_ne_zero hbounds.2.2.2.2.2.2.2.2
  | some known => exact h.later hcarry known hknown activation hact

/-- Every log in order passes the validation of a file. -/
theorem LogOk.validateLog_ok [DecidableEq ρ] (hcarry : M.carry) {p s : List (MetadataLogEntry ι ρ)}
    (h : LogOk B M (p ++ s)) (hshort : (p ++ s).length < u64Max) :
    validateLog P B.clusterId (p.length + 1) (topologyAt B.topology p).generation
      (topologyAt B.topology p) (activationMs (lastActivation p)) s = .ok () := by
  induction s generalizing p with
  | nil => rfl
  | cons e s ih =>
    rw [append_cons] at h hshort
    have hrest := ih h hshort
    have hok := h p e (prefix_append _ _)
    have hsucc : satSucc (p.length + 1) = (p ++ [e]).length + 1 := by
      simp only [length_append, length_singleton] at hshort ⊢
      exact satSucc_of_lt (by omega)
    rw [lastActivation_concat, topologyAt_concat, nextActivation] at hrest
    simp only [validateLog, hok.shape, hok.index, ne_eq, not_true_eq_false, if_false, hsucc]
    cases hbarrier : e.leadershipBarrier with
    | true =>
      have htopo := hok.keeps (.inl hbarrier)
      rw [(validateLogEntryShape_ok.mp hok.shape).2.2.1 hbarrier] at hrest
      rw [if_pos rfl, if_neg (by rw [htopo]; exact lt_irrefl _)]
      exact hrest
    | false =>
      cases hact : e.restoreActivation with
      | some =>
        have htopo := hok.keeps (.inr (by simp [hact]))
        have hlater := hok.activationMs_lt hcarry hact
        rw [hact, htopo] at hrest
        simp only [htopo, not_true_eq_false, false_or, if_neg (Nat.not_le.mpr hlater)]
        exact hrest
      | none =>
        have hgen := (hok.advances hbarrier hact).1
        rw [hact] at hrest
        simp only [if_neg (Nat.not_le.mpr hgen)]
        exact hrest

/-! ## Reopening and installing -/

variable [DecidableEq ρ]

variable {n : ι}

variable (h : Inv B frozenCare c H a)

include h

theorem Inv.file_valid (n : ι) :
    ∃ s, decodeState P (c.node n).disk = .ok s ∧ validateState P s = .ok () ∧
      s.clusterId = B.clusterId ∧ s.nodeId = n := by
  obtain ⟨l, hdisk⟩ := (h.node n).disk
  rw [(h.node n).committed.2.1 trivial] at hdisk
  refine ⟨_, by rw [hdisk, decodeState_encodeState], ?_, rfl, rfl⟩
  have hok := h.logOk n
  have hcommit := (h.protocol.node n).commit_le
  have hshort := h.short_of_matched (h.protocol.sound.log_matched n)
  have htake := hok.anti (List.take_prefix (a n).commit _)
  rw [← take_append_drop (a n).commit (a n).log] at hok
  have hloop := hok.validateLog_ok trivial (by rwa [take_append_drop])
  rw [length_take, Nat.min_eq_left hcommit] at hloop
  simp only [validateState, stateOf, htake.topology.1, htake.topology.2, htake.carriedActivation,
    satSucc_of_lt (hcommit.trans_lt hshort), ne_eq, not_true_eq_false, if_false, Bool.not_true,
    Bool.false_eq_true]
  exact hloop

/-- A snapshot that was sent can be installed. -/
theorem Inv.snapshot_installs {request : MetadataAppendRequest ι ρ}
    (hreq : request ∈ c.appendRequests) {S : MetadataSnapshot ι ρ} (hS : S ∈ request.snapshot)
    (hle : (c.state n).commitIndex ≤ S.lastIncludedIndex) :
    ((c.node n).store.installSnapshot P S).1 = .ok () := by
  have hinv := h.appendRequests request hreq
  obtain ⟨hcommit, hof⟩ := hinv.snapshot S hS
  have hlog := (h.logs request.term).anti <| take_prefix request.prevLogIndex _
  have hsettled := hinv.settled
  rw [hcommit] at hsettled
  generalize (H.tlog request.term).take request.prevLogIndex = p at hof hlog hsettled
  -- the fields that the checks read do not depend on the term the store has adopted
  obtain ⟨hcluster, hindex, hterm, htopo⟩ :
      (c.node n).store.state.clusterId = B.clusterId ∧
        (c.node n).store.state.commitIndex = (a n).commit ∧
        (c.node n).store.state.baseTerm = lastTerm (·.term) ((a n).log.take (a n).commit) ∧
        (c.node n).store.state.committedTopology =
          topologyAt B.topology ((a n).log.take (a n).commit) := by
    rcases (h.node n).store with hs | ⟨T, -, hs⟩ <;>
    · obtain ⟨l, hst⟩ := hs.state
      rw [hst]
      exact ⟨rfl, rfl, rfl, rfl⟩
  have hact := (h.node n).committed.2.1 trivial
  have hvalid : validateSnapshot P (c.node n).store.state.clusterId S =
      .ok () := by
    simp [validateSnapshot, hof.topology, hof.activation trivial,
      hlog.topology, hcluster, hlog.carriedActivation]
  have hlow : ¬ S.lastIncludedIndex < (c.node n).store.state.commitIndex := Nat.not_lt.mpr hle
  -- at the index of the node's own commit both are settled, so they are the same prefix
  have hsame : S.lastIncludedIndex = (c.node n).store.state.commitIndex →
      p = (a n).log.take (a n).commit := by
    intro heq
    have hlen : p.length = ((a n).log.take (a n).commit).length := by
      rw [length_take, Nat.min_eq_left (h.protocol.node n).commit_le, ← hof.index, heq, hindex]
    rcases hsettled.comparable h.protocol.sound h.protocol.wellFormed h.protocol.elections
      (h.protocol.node n).settled with hp | hp
    · exact hp.eq_of_length hlen
    · exact (hp.eq_of_length hlen.symm).symm
  have hagree : ¬ (S.lastIncludedIndex = (c.node n).store.state.commitIndex ∧
      (S.lastIncludedTerm ≠ (c.node n).store.state.baseTerm ∨
        S.topology ≠ (c.node n).store.state.committedTopology ∨
        S.restoreActivation ≠ (c.node n).store.state.committedRestoreActivation)) := by
    rintro ⟨heq, hdiff⟩
    rw [hterm, htopo, hact, hof.term, hof.topology, hof.activation trivial, hsame heq] at hdiff
    simp at hdiff
  simp only [installSnapshot, hvalid, if_neg hlow, if_neg hagree]

omit h

/-- The conditions on a step for reopening. -/
def ReopenSafe (c : MetadataCluster ι ρ δ) (act : Action ι ρ) : Prop :=
  ActivationSafe c act ∧ TopologyFrozen c act

instance (c : MetadataCluster ι ρ δ) (act : Action ι ρ) : Decidable (ReopenSafe c act) :=
  inferInstanceAs (Decidable (_ ∧ _))

omit [DecidableEq ρ] in
theorem ReopenSafe.safeStep {act : Action ι ρ} (h : ReopenSafe c act) : SafeStep frozenCare c act :=
  ⟨h.1.1.1, h.1.1.2.1, h.1.1.2.2, fun _ => h.1.2, fun _ _ => h.2⟩

/-- **Persisted metadata reopens** when no topology follows a committed activation and no commit
skips one. -/
theorem persistedMetadata_reopens (B : Bootstrap P)
    (h : Reach (clusterStep P B) ReopenSafe (MetadataCluster.init P B) c) :
    (∀ n, ∃ s, decodeState P (c.node n).disk = .ok s ∧ validateState P s = .ok () ∧
      s.clusterId = B.clusterId ∧ s.nodeId = n) ∧
    (∀ n ∈ B.topology.memberIds, ∀ committed installed, ∃ nd,
      MetadataNode.openStore P B.clusterId n B.topology (some (c.node n).disk) committed installed =
        .ok nd) ∧
    ∀ request ∈ c.appendRequests, ∀ S ∈ request.snapshot, ∀ n,
      (c.state n).commitIndex ≤ S.lastIncludedIndex →
        ((c.node n).store.installSnapshot P S).1 = .ok () := by
  obtain ⟨H, a, hinv⟩ := inv_of_reach (h.mono fun _ _ hok => hok.safeStep)
  refine ⟨hinv.file_valid, ?_, ?_⟩
  · intro n hn committed installed
    obtain ⟨s, hdecode, hvalid, hcluster, hnode⟩ := hinv.file_valid n
    simp [MetadataNode.openStore, B.valid, B.cluster, hn, hdecode, hvalid, hcluster, hnode]
  · intro request hreq S hS n hle
    exact hinv.snapshot_installs hreq hS hle

/-- The file of a node with an activation. -/
theorem persistedMetadata_reopens_activationRun :
    ∃ c, Reach (clusterStep plainPlatform threeVoterBootstrap)
        ReopenSafe (MetadataCluster.init plainPlatform threeVoterBootstrap) c ∧
      (c.state 3).committedRestoreActivation = some (plainActivation 1) ∧
      ∃ s, decodeState plainPlatform (c.node 3).disk = .ok s ∧
        validateState plainPlatform s = .ok () ∧ s.clusterId = 0 ∧ s.nodeId = 3 :=
  exists_reach_imp (fun c => (c.state 3).committedRestoreActivation = some (plainActivation 1))
    activationRun (by decide +kernel) fun hreach hact =>
      ⟨hact, (persistedMetadata_reopens threeVoterBootstrap hreach).1 3⟩

def oneVoterBootstrap : Bootstrap plainPlatform :=
  ⟨0, plainTopology 1 [(1, true)] (by decide), by decide, rfl⟩

/-- One node commits an activation, then a topology. -/
def laterTopologyRun : List (Action Nat Unit) :=
  [.startElection 1, .becomeLeader 1 [1], .proposeRestoreActivation 1 (plainActivation 1),
    .proposeTopology 1 (plainTopology 2 [(1, true)] (by decide))]

/-- A topology committed behind an activation makes the node's file refused. -/
theorem laterTopology_blocks_reopen :
    ∃ c, Reach (clusterStep plainPlatform oneVoterBootstrap)
        (fun c act => ActivationSafe c act ∧ ReturnsOk plainPlatform oneVoterBootstrap c act)
        (MetadataCluster.init plainPlatform oneVoterBootstrap) c ∧
      ((decodeState plainPlatform (c.node 1).disk).bind fun s => validateState plainPlatform s) =
        .error .activationMismatch :=
  exists_reach laterTopologyRun (by decide +kernel)

end BicDb.Metadata
