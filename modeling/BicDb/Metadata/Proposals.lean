import BicDb.Metadata.Steps

/-!
# Winning, proposing and committing

A leader's entry goes through `propose`: written, counted as held by the leader, committed once
enough nodes hold it. `maybeCommit_keeps` is the commit, shared with `record_append_response`.
-/

namespace BicDb.Metadata

open BicDb.Foundation MetadataCluster Function List History MetadataNode

variable {ι ρ δ : Type*} [DecidableEq ι]
  {P : Platform ι ρ δ} {B : Bootstrap P} {M : Care}
  {H H' : History ι (MetadataLogEntry ι ρ)} {a a' : ι → Replica ι (MetadataLogEntry ι ρ)}
  {c : MetadataCluster ι ρ δ} {n : ι} {r : Replica ι (MetadataLogEntry ι ρ)}
  {s : MetadataConsensusStore ι ρ} {nd : MetadataNode ι ρ δ}

/-! ## Committing as leader -/

theorem hasQuorum_counts {acks : ι → Bool} {voters : List ι} {A : Finset ι}
    (hA : ∀ v ∈ voters, acks v = true → v ∈ A) (h : hasQuorum acks voters = true) :
    HasQuorum A voters := by
  unfold hasQuorum at h
  rw [Bool.and_eq_true, decide_eq_true_eq] at h
  have hle : (voters.filter acks).length ≤ (voters.filter (fun v => decide (v ∈ A))).length := by
    rw [← countP_eq_length_filter, ← countP_eq_length_filter]
    apply countP_mono_left
    intro v hv hacks
    exact decide_eq_true (hA v hv hacks)
  unfold HasQuorum
  omega

variable {e : MetadataLogEntry ι ρ}

theorem StoreInv.commitEntry (h : StoreInv B M H n r s) (hok : LogOk B M r.log) {k : Nat}
    (he : r.log[k]? = some e) (hk : r.commit ≤ k)
    (hno : M.carry → ∀ x ∈ (r.log.take k).drop r.commit, x.restoreActivation = none) :
    ∃ s', s.commitEntry P e = (.ok (), s') ∧
      (∃ l, s'.state = stateOf B n (r.commitTo (k + 1)) l s'.state.committedRestoreActivation) ∧
      (M.carry → s'.state.committedRestoreActivation = lastActivation (r.log.take (k + 1))) ∧
      s'.committed = s.committed ++ (r.log.take (k + 1)).drop r.commit ∧
      (∀ x ∈ s'.committed, x ∈ r.log.take (k + 1)) ∧
      (∀ S ∈ s'.installed, ∃ p, p <+: r.log.take (k + 1) ∧ SnapshotOf B M p S) ∧
      ∀ v i, s'.matchIndex v = some i → i ≤ r.log.length := by
  obtain ⟨l, hst⟩ := h.state
  obtain ⟨s', hcommit, hstate, hcommitted, hinstalled, hmatch⟩ := commitEntry_stateOf hst hok he hk
  have hact : s'.state.committedRestoreActivation =
      nextActivation s.state.committedRestoreActivation e := by
    rw [hstate]
    rfl
  have hpre : r.log.take r.commit <+: r.log.take (k + 1) := take_prefix_take_left (by omega)
  refine ⟨s', hcommit, ⟨l, by rw [hact]; exact hstate⟩, fun hcarry => ?_, hcommitted, ?_,
    fun S hS => ?_, hmatch⟩
  · rw [hact, h.activation hcarry, take_succ_of_get he, lastActivation_concat]
    conv_rhs => rw [← take_append_drop_take r.log hk, lastActivation_append (hno hcarry)]
  · rw [hcommitted]
    exact forall_mem_append.2
      ⟨fun x hx => hpre.subset (h.committed x hx), fun x hx => mem_of_mem_drop hx⟩
  · rw [hinstalled] at hS
    obtain ⟨p, hp, hof⟩ := h.installed S hS
    exact ⟨p, hp.trans hpre, hof⟩

/-- **A leader's commit** never fails and moves the settled length forward, or leaves it. -/
theorem maybeCommit_keeps (hproto : Consistent (metadataRules B.topology) H a)
    (hok : LogOk B M (a n).log) (hs : StoreInv B M H n (a n) s) (hrole : (a n).role = .leader) :
    ∃ b s' r, s.maybeCommitLeaderProposal P = (.ok b, s') ∧
      Consistent (metadataRules B.topology) H (update a n r) ∧
      Evolves a (update a n r) ∧ StoreInv B M H n r s' ∧ r.log = (a n).log ∧
      (a n).commit ≤ r.commit ∧ s.committed ⊆ s'.committed ∧
      ∀ e ∈ r.log.take r.commit, e ∈ (a n).log.take (a n).commit ∨ e ∈ s'.committed := by
  obtain ⟨l, hst⟩ := hs.state
  have hself : update a n (a n) = a := update_eq_self n a
  rcases maybeCommit_stateOf hst hok (hs.fresh hrole) with
    hsame | ⟨k, e, s', hlen, hk, he, hold, hnew, hcommit, hrun⟩
  · refine ⟨false, s, a n, hsame, by rw [hself]; exact hproto, by rw [hself]; exact .refl a, hs,
      rfl, le_rfl, List.Subset.refl _, fun e he => .inl he⟩
  -- the nodes that hold the whole log
  let A : Finset ι := ((topologyVoters (topologyAt B.topology ((a n).log.take (a n).commit)) ++
    topologyVoters (topologyAt B.topology (a n).log)).filter (s.replicated (k + 1))).toFinset
  have hA : ∀ v ∈ A, ∃ i, k + 1 ≤ i ∧ H.acked v (a n).term i := by
    intro v hv
    rw [mem_toFinset, mem_filter] at hv
    have hrep := hv.2
    simp only [MetadataConsensusStore.replicated] at hrep
    cases hmatch : s.matchIndex v with
    | none => simp [hmatch] at hrep
    | some i =>
      rw [hmatch] at hrep
      have hi : k + 1 ≤ i := by simpa using hrep
      -- above the settled length, so it was acknowledged in this term
      rcases hs.reached hrole v i hmatch with hle | hack
      · omega
      · exact ⟨i, hi, hack⟩
  have htake : (a n).log.take (k + 1) = (a n).log := take_of_length_le hlen.le
  have hproto' := hproto.commitTo hrole (by omega) hlen.ge
    (by rw [htake]; exact hs.fresh hrole) hA
    (hasQuorum_counts (fun v hv hack => mem_toFinset.mpr
      (mem_filter.mpr ⟨mem_append_left _ hv, hack⟩)) hold)
    (by
      rw [htake]
      exact hasQuorum_counts (fun v hv hack => mem_toFinset.mpr
        (mem_filter.mpr ⟨mem_append_right _ hv, hack⟩)) hnew)
  obtain ⟨s₁, hcommit₁, hstate, hactivation, hcommitted, hsettled, hinstalled, hmatch⟩ :=
    hs.commitEntry hok he hk fun hcarry x hx => hs.lone hcarry hrole x (by
      -- the entry committed is the last one, and only the last one may carry an activation
      rwa [dropLast_eq_take, length_drop, take_drop, hlen,
        show (a n).commit + (k + 1 - (a n).commit - 1) = k by omega])
  have hs₁ : s₁ = s' := by
    rw [hcommit] at hcommit₁
    exact (Prod.mk.inj hcommit₁).2.symm
  subst hs₁
  refine ⟨true, s₁, (a n).commitTo (k + 1), hrun, hproto', evolves_commitTo _, ?_, rfl,
    by show (a n).commit ≤ k + 1; omega, ?_, ?_⟩
  · refine
      { state := hstate, activation := hactivation, fresh := hs.fresh, reached := ?_
        lone := ?_, committed := hsettled, installed := hinstalled }
    · intro _ v i hv
      left
      show i ≤ k + 1
      have hi := hmatch v i hv
      omega
    · intro _ _ x hx
      have hx' : x ∈ ((a n).log.drop (k + 1)).dropLast := hx
      rw [drop_eq_nil_of_le hlen.le] at hx'
      cases hx'
  · rw [hcommitted]
    exact subset_append_left _ _
  · intro x hx
    have hx' : x ∈ (a n).log.take (k + 1) := hx
    rw [← take_append_drop (a n).commit ((a n).log.take (k + 1)), mem_append,
      take_take, Nat.min_eq_left (by omega)] at hx'
    refine hx'.imp id fun hnew => ?_
    rw [hcommitted]
    exact mem_append_right _ hnew

/-! ## Writing an entry -/

/-- A leading store, its last entry of any term. -/
structure Leading (B : Bootstrap P) (M : Care) (H : History ι (MetadataLogEntry ι ρ)) (n : ι)
    (r : Replica ι (MetadataLogEntry ι ρ)) (s : MetadataConsensusStore ι ρ) : Prop where
  role : r.role = .leader
  state : ∃ l, s.state = stateOf B n r l s.state.committedRestoreActivation
  activation : M.carry → s.state.committedRestoreActivation = lastActivation (r.log.take r.commit)
  reached : ∀ v i, v ≠ n → s.matchIndex v = some i → i ≤ r.commit ∨ H.acked v r.term i
  committed : ∀ e ∈ s.committed, e ∈ r.log.take r.commit
  installed : ∀ S ∈ s.installed, ∃ p, p <+: r.log.take r.commit ∧ SnapshotOf B M p S

omit [DecidableEq ι] in
theorem StoreInv.leading (h : StoreInv B M H n r s) (hrole : r.role = .leader) :
    Leading B M H n r s :=
  { h with role := hrole, reached := fun v i _ hv => h.reached hrole v i hv }

theorem Leading.push (h : Leading B M H n r s) (hc : r.commit ≤ r.log.length)
    (hterm : e.term = r.term) (hindex : e.index = r.log.length + 1)
    (hlone : M.carry → ∀ x ∈ r.log.drop r.commit, x.restoreActivation = none) :
    StoreInv B M ((H.extend r.term e).acknowledge n r.term (r.log.length + 1)) n (r.write e)
      (s.pushEntry e) := by
  obtain ⟨l, hst⟩ := h.state
  have hid : s.state.nodeId = n := by rw [hst]; rfl
  have htake : (r.write e).log.take (r.write e).commit = r.log.take r.commit :=
    take_append_of_le_length hc
  refine
    { state := ⟨l, ?_⟩, activation := ?_, fresh := ?_, reached := ?_, lone := ?_, committed := ?_
      installed := ?_ }
  · show ({ s.state with log := s.state.log ++ [e] } : MetadataConsensusState ι ρ) = _
    conv_lhs => rw [hst]
    simp only [stateOf, Replica.write]
    rw [take_append_of_le_length hc, drop_append_of_le_length hc]
    rfl
  · rw [htake]
    exact h.activation
  · intro _
    exact (lastTerm_concat _ _).trans hterm
  · intro _ v i hv
    have hv' : update s.matchIndex s.state.nodeId (some e.index) v = some i := hv
    by_cases hvn : v = n
    · rw [hid, hvn, update_self, Option.some.injEq] at hv'
      exact .inr (.inl ⟨hvn, rfl, by omega⟩)
    · rw [hid, update_of_ne hvn] at hv'
      exact (h.reached v i hvn hv').imp id .inr
  · intro hcarry _
    show ∀ x ∈ ((r.log ++ [e]).drop r.commit).dropLast, _
    rw [drop_append_of_le_length hc, dropLast_concat]
    exact hlone hcarry
  · rw [htake]
    exact h.committed
  · rw [htake]
    exact h.installed

variable (nd) in
/-- **A leader's proposal** of an entry that may follow the log succeeds and keeps the invariant. -/
theorem Inv.propose (h : Inv B M (c.set n (persist P (c.node n).store)) H a)
    (hle : H.Le H') (hproto : Consistent (metadataRules B.topology) H' (update a n r))
    (hev : Evolves a (update a n r)) (hlog : r.log = (a n).log)
    (hcommit : r.commit = (a n).commit) (hlogs : ∀ t, LogOk B M (H'.tlog t))
    (hshort : ∀ t, (H'.tlog t).length < u64Max) (hs : Leading B M H' n r s)
    (hrecord : s.committed = (c.node n).store.committed) (he : EntryOk B M r.log e)
    (hterm : e.term = r.term)
    (hsingle : (metadataRules B.topology).changeCount ((r.log ++ [e]).drop r.commit) ≤ 1)
    (hmax : r.log.length + 1 < u64Max)
    (hlone : M.carry → ∀ x ∈ r.log.drop r.commit, x.restoreActivation = none) :
    (MetadataNode.propose P nd s e).1 = .ok e ∧
    ∃ H'' a', Inv B M (c.set n (MetadataNode.propose P nd s e).2) H'' a' ∧ Grows a a' ∧
      H'.Le H'' := by
  have hnode := hproto.node n
  rw [update_self] at hnode
  have hc := hnode.commit_le
  have hleads := hnode.leads hs.role
  obtain ⟨el, hwon, -⟩ := hnode.elected hs.role
  have hokr : LogOk B M r.log := by
    rw [hleads]
    exact hlogs _
  have hok : LogOk B M (r.log ++ [e]) := hokr.concat he
  -- the entry and the leader's own acknowledgement of it enter the history
  have hwrite := hproto.write (n := n) (e := e)
  rw [update_self, update_idem] at hwrite
  have hwritten := hwrite hs.role hterm hok.wellFormed hsingle
  have hack := hwritten.acknowledge (n := n) (k := r.log.length + 1)
  rw [update_self] at hack
  let H₁ := H'.extend r.term e
  let H₂ := H₁.acknowledge n r.term (r.log.length + 1)
  have htlog : H₁.tlog r.term = r.log ++ [e] := by
    rw [hleads]
    simp [H₁, History.extend]
  have hlen : (r.log ++ [e]).length = r.log.length + 1 := by simp
  have hacked : Consistent (metadataRules B.topology) H₂ (update a n (r.write e)) := by
    refine hack ⟨el, hwon⟩ ?_ ?_
    · show _ ≤ (H₁.tlog r.term).length
      rw [htlog, hlen]
    · show (H₁.tlog r.term).take _ <+: r.log ++ [e]
      rw [htlog]
      exact take_prefix _ _
  have hpushed : StoreInv B M H₂ n (r.write e) (s.pushEntry e) := hs.push hc hterm he.index hlone
  have hle₂ : H'.Le H₂ := (le_extend _ _).trans (le_acknowledge _ _ _)
  -- commit if enough nodes hold it
  have hkeeps := maybeCommit_keeps (M := M) (n := n) (s := s.pushEntry e) hacked
  rw [update_self] at hkeeps
  obtain ⟨b, s', r', hrun, hproto', hev', hs', hlog', hcommit', hsub, hrec⟩ :=
    hkeeps hok hpushed hs.role
  rw [update_idem] at hproto' hev'
  have hpropose : MetadataNode.propose P nd s e = (.ok e, persist P s') := by
    unfold MetadataNode.propose
    rw [hrun]
  rw [hpropose]
  have hevw : Evolves a (update a n (r.write e)) := by
    have hw := evolves_write (a := update a n r) (by rw [update_self]; exact hs.role) e
    rw [update_self, update_idem] at hw
    exact hev.trans hw
  have hrw : (r.write e).commit = r.commit := rfl
  refine ⟨rfl, H₂, _, h.write (hle.trans hle₂) hproto' (hevw.trans hev') ?_ ?_ hs' ?_ ?_,
    grows_update (by omega), hle₂⟩
  · refine (forall_update_iff _ fun _ => LogOk B M).mpr ⟨?_, fun t _ => hlogs t⟩
    rwa [← hleads]
  · refine (forall_update_iff _ fun _ l => length l < u64Max).mpr
      ⟨?_, fun t _ => hshort t⟩
    rwa [← hleads, hlen]
  · rwa [← hrecord]
  · intro x hx
    refine (hrec x hx).imp (fun hold => ?_) id
    have htake : (r.write e).log.take (r.write e).commit = r.log.take r.commit :=
      take_append_of_le_length hc
    rwa [htake, hlog, hcommit] at hold

/-! ## Entries that may follow a log -/

variable {log : List (MetadataLogEntry ι ρ)}

theorem validateLogEntryShape_ok {e : MetadataLogEntry ι ρ} {clusterId : ι} :
    validateLogEntryShape P e clusterId = .ok () ↔
      e.topology.isValid P = true ∧ e.topology.clusterId = clusterId ∧
      (e.leadershipBarrier = true → e.restoreActivation = none) ∧
      validateCarriedActivation P e.restoreActivation e.topology clusterId = .ok () := by
  unfold validateLogEntryShape
  cases hvalid : e.topology.isValid P with
  | false => simp
  | true =>
    by_cases hcluster : e.topology.clusterId = clusterId
    · cases hbarrier : e.leadershipBarrier <;> cases hact : e.restoreActivation <;>
        simp [hcluster]
    · simp [hcluster]

theorem LogOk.topology (h : LogOk B M log) :
    (topologyAt B.topology log).isValid P = true ∧
      (topologyAt B.topology log).clusterId = B.clusterId := by
  rcases eq_nil_or_concat' log with rfl | ⟨p, e, rfl⟩
  · exact ⟨B.valid, B.cluster⟩
  · rw [topologyAt_concat]
    obtain ⟨hvalid, hcluster, -⟩ := validateLogEntryShape_ok.mp (h p e prefix_rfl).shape
    exact ⟨hvalid, hcluster⟩

theorem LogOk.barriers {p t : List (MetadataLogEntry ι ρ)} (h : LogOk B M (p ++ t))
    (hb : ∀ e ∈ t, e.leadershipBarrier = true) :
    topologyAt B.topology (p ++ t) = topologyAt B.topology p ∧
      lastActivation (p ++ t) = lastActivation p := by
  induction t using reverseRecOn with
  | nil => simp
  | append_singleton t e ih =>
    rw [← append_assoc] at h ⊢
    obtain ⟨htopo, hact⟩ := ih (h.anti (prefix_append _ _)) fun x hx => hb x (mem_append_left _ hx)
    have he := h (p ++ t) e prefix_rfl
    have hbarrier := hb e (by simp)
    have hnone := (validateLogEntryShape_ok.mp he.shape).2.2.1 hbarrier
    rw [topologyAt_concat, lastActivation_concat, he.keeps (.inl hbarrier), nextActivation, hnone]
    exact ⟨htopo, hact⟩

theorem LogOk.barrier (h : LogOk B M log) (term : Nat) :
    EntryOk B M log ⟨log.length + 1, term, true, topologyAt B.topology log, none⟩ where
  index := rfl
  shape := validateLogEntryShape_ok.mpr ⟨h.topology.1, h.topology.2, fun _ => rfl, rfl⟩
  keeps := fun _ => rfl
  advances := nofun
  later := nofun
  frozen := fun _ _ _ => rfl

/-! ## The calls -/

theorem Inv.vote_of_granted (h : Inv B M (c.set n (persist P (c.node n).store)) H a)
    (hs : StoreInv B M H n (a n) (c.node n).store) (hrole : (a n).role = .candidate) {v : ι}
    (hg : c.granted n v = true) : H.vote v (a n).term = some n := by
  simp only [MetadataCluster.granted, Bool.or_eq_true, decide_eq_true_eq, any_eq_true,
    Bool.and_eq_true] at hg
  rcases hg with rfl | ⟨m, hm, ⟨⟨hto, hv⟩, ht⟩, hyes⟩
  · rw [(h.protocol.node v).voted]
    exact ((h.protocol.node v).candidate hrole).1
  · have hvote := h.voteResponses m hm hyes
    have hterm : (c.state n).currentTerm = (a n).term := hs.fields.1
    rwa [hto, hv, ht, hterm] at hvote

/-- A win keeps the invariant. -/
theorem Inv.becomeLeader (h : Inv B M c H a) {votes : List ι}
    (hvotes : votes.all (c.granted n) = true) (hmax : (c.state n).lastLogIndex + 1 < u64Max)
    (hlone : M.carry → ∀ e ∈ (c.state n).log, e.restoreActivation = none) :
    Continues B M (c.after n ((c.node n).becomeLeader P (fun v => decide (v ∈ votes))) fun _ c' =>
      { c' with leaders := c'.leaders ++ [((c.state n).currentTerm, n)] }).2 a := by
  unfold MetadataNode.becomeLeader
  dsimp only
  split_ifs with hcand hquorum hself
  iterate 3 exact h.refused
  obtain ⟨a₁, h₁, hs, hg⟩ := h.sync n
  obtain ⟨hterm, hid, hcluster, hroleOf, hlog, htopo, -, hlatest⟩ := hs.fields
  obtain ⟨l, hst⟩ := hs.state
  have hnode := h₁.protocol.node n
  have hok := h₁.logOk n
  have hrole : (a₁ n).role = .candidate := by
    rw [not_not, hroleOf] at hcand
    exact roleOf_eq_candidate.mp hcand
  have hindex : (c.node n).store.state.lastLogIndex = (a₁ n).log.length := by
    rw [hst]
    exact lastLogIndex_stateOf hok.indexed hnode.commit_le
  have hshort : (a₁ n).log.length + 1 < u64Max := by
    rwa [← hindex]
  -- the election enters the history
  have hgranted : ∀ v ∈ votes.toFinset, H.vote v (a₁ n).term = some n := by
    intro v hv
    exact h₁.vote_of_granted hs hrole (all_eq_true.mp hvotes v (mem_toFinset.mp hv))
  have hcount : HasQuorum votes.toFinset
      ((metadataRules B.topology).votersAt ((a₁ n).log.take (a₁ n).commit)) := by
    rw [Bool.not_eq_true', Bool.not_eq_false, htopo] at hquorum
    refine hasQuorum_counts (fun v _ hv => ?_) hquorum
    exact mem_toFinset.mpr (of_decide_eq_true hv)
  have hlead := h₁.protocol.lead hrole hgranted hcount
  let H₁ := H.elect (a₁ n).term ⟨n, (a₁ n).log, votes.toFinset⟩
  have hle : H.Le H₁ := le_elect h₁.protocol.sound (h₁.protocol.not_led hrole hgranted hcount)
  set store : MetadataConsensusStore ι ρ :=
    ({ (c.node n).store with
      state := { (c.node n).store.state with
        role := .leader, leaderId := some (c.node n).store.state.nodeId } } :
      MetadataConsensusStore ι ρ).resetMatchIndexes
  rw [hindex, hterm, hlatest, satSucc_of_lt (by omega)]
  have hleading : Leading B M H₁ n (a₁ n).lead store := by
    refine
      { role := rfl, state := ⟨some n, ?_⟩, activation := hs.activation, reached := ?_
        committed := hs.committed, installed := hs.installed }
    · dsimp only [store, MetadataConsensusStore.resetMatchIndexes]
      conv_lhs => rw [hst]
      simp only [stateOf, Replica.lead, roleOf]
    · intro v i hv hi
      rcases resetMatchIndexes_spec hi with ⟨hvn, -⟩ | rfl
      · exact absurd (hvn.trans hid) hv
      · exact .inl (Nat.zero_le _)
  have hdone := h₁.propose (c.node n) hle hlead evolves_lead
    rfl rfl ?_ ?_ hleading rfl (hok.barrier (a₁ n).term) rfl ?_ hshort ?_
  · obtain ⟨hres, H'', a', hinv, hg', hle'⟩ := hdone
    rw [show MetadataNode.propose P (c.node n) store ⟨(a₁ n).log.length + 1, (a₁ n).term, true,
      topologyAt B.topology (a₁ n).log, none⟩ = (.ok _, _) from Prod.ext hres rfl]
    refine ⟨H'', a', { hinv with
      appendRequests := fun x hx => { hinv.appendRequests x hx with }
      leaders := forall_mem_append.2
        ⟨hinv.leaders,
          forall_mem_singleton.2 ⟨⟨n, (a₁ n).log, votes.toFinset⟩, hle'.won ?_, rfl⟩⟩ },
      hg.trans hg'⟩
    have heq : (c.state n).currentTerm = (a₁ n).term := hterm
    rw [heq]
    simp [H₁, elect]
  · exact (forall_update_iff _ fun _ => LogOk B M).mpr ⟨hok, fun t _ => h₁.logs t⟩
  · exact (forall_update_iff _ fun _ l => length l < u64Max).mpr
      ⟨Nat.lt_of_succ_lt hshort, fun t _ => h₁.short t⟩
  · -- a barrier changes no voters
    have hsingle := hnode.single
    show (metadataRules B.topology).changeCount (((a₁ n).log ++ [_]).drop (a₁ n).commit) ≤ 1
    rw [drop_append_of_le_length hnode.commit_le]
    unfold Rules.changeCount at hsingle ⊢
    simpa [metadataRules] using hsingle
  · intro hcarry
    show ∀ x ∈ (a₁ n).log.drop (a₁ n).commit, _
    rw [← hlog]
    exact hlone hcarry

/-- A leader with barriers only behind its commit index proposes an entry that may follow. -/
theorem Inv.proposeAlone (h : Inv B M (c.set n (persist P (c.node n).store)) H a)
    (hs : StoreInv B M H n (a n) (c.node n).store) (hrole : (a n).role = .leader)
    (hb : ∀ e ∈ (a n).log.drop (a n).commit, e.leadershipBarrier = true)
    (he : EntryOk B M (a n).log e) (hterm : e.term = (a n).term)
    (hmax : (a n).log.length + 1 < u64Max) (hgrows : Grows a' a) :
    Continues B M
      (c.after n (MetadataNode.propose P (c.node n) (c.node n).store e) fun _ c => c).2 a' := by
  have hself : update a n (a n) = a := update_eq_self n a
  have hzero : (metadataRules B.topology).changeCount ((a n).log.drop (a n).commit) = 0 := by
    unfold Rules.changeCount
    rw [countP_eq_zero]
    intro x hx
    simp [metadataRules, hb x hx]
  have hsingle : (metadataRules B.topology).changeCount
      (((a n).log ++ [e]).drop (a n).commit) ≤ 1 := by
    rw [drop_append_of_le_length (h.protocol.node n).commit_le]
    unfold Rules.changeCount at hzero ⊢
    rw [countP_append, countP_singleton, hzero]
    split <;> omega
  obtain ⟨hres, H', _, hinv, hg, -⟩ := h.propose (c.node n) (.refl H)
    (by rw [hself]; exact h.protocol) (by rw [hself]; exact .refl a) rfl rfl h.logs h.short
    (hs.leading hrole) rfl he hterm hsingle hmax fun _ x hx =>
      (validateLogEntryShape_ok.mp ((h.logOk n).shape (mem_of_mem_drop hx))).2.2.1 (hb x hx)
  rw [show MetadataNode.propose P (c.node n) (c.node n).store e = (.ok e, _) from Prod.ext hres rfl]
  exact ⟨H', _, hinv, hgrows.trans hg⟩

theorem Inv.sync_barriers (h : Inv B M c H a) (hmax : (c.state n).lastLogIndex + 1 < u64Max)
    (hflight : ¬ (c.state n).log.any (fun e => !e.leadershipBarrier) = true) :
    ∃ a₁, Inv B M (c.set n (persist P (c.node n).store)) H a₁ ∧
      StoreInv B M H n (a₁ n) (c.node n).store ∧ Grows a a₁ ∧
      (c.node n).store.state.lastLogIndex = (a₁ n).log.length ∧
      (a₁ n).log.length + 1 < u64Max ∧
      (∀ e ∈ (a₁ n).log.drop (a₁ n).commit, e.leadershipBarrier = true) ∧
      topologyAt B.topology (a₁ n).log = (c.node n).store.state.committedTopology ∧
      lastActivation (a₁ n).log = lastActivation ((a₁ n).log.take (a₁ n).commit) := by
  obtain ⟨a₁, h₁, hs, hg⟩ := h.sync n
  obtain ⟨-, -, -, -, hlog, htopo, -⟩ := hs.fields
  obtain ⟨l, hst⟩ := hs.state
  have hok := h₁.logOk n
  have hindex : (c.node n).store.state.lastLogIndex = (a₁ n).log.length := by
    rw [hst]
    exact lastLogIndex_stateOf hok.indexed (h₁.protocol.node n).commit_le
  have hbarriers : ∀ e ∈ (a₁ n).log.drop (a₁ n).commit, e.leadershipBarrier = true := by
    rw [← hlog]
    intro e he
    by_contra hb
    exact hflight (any_eq_true.2 ⟨e, he, by simpa using hb⟩)
  have hsame := LogOk.barriers
    (by rw [take_append_drop]; exact hok) hbarriers
  rw [take_append_drop, ← htopo] at hsame
  exact ⟨a₁, h₁, hs, hg, hindex, hindex ▸ hmax, hbarriers, hsame⟩

/-- A proposed topology keeps it. -/
theorem Inv.proposeTopology (h : Inv B M c H a) {topology : ClusterTopology ι ρ}
    (hmax : (c.state n).lastLogIndex + 1 < u64Max)
    (hoverlap : Overlap (topologyVoters (c.state n).committedTopology) (topologyVoters topology))
    (hfrozen : M.carry → M.frozen → (c.state n).committedRestoreActivation = none) :
    Continues B M (c.after n ((c.node n).proposeTopology P topology) fun _ c => c).2 a := by
  unfold MetadataNode.proposeTopology
  dsimp only
  split_ifs with hrole hvalid hcluster hflight hgen
  iterate 5 exact h.refused
  obtain ⟨a₁, h₁, hs, hg, hindex, hshort, hbarriers, hsameTopo, hsameAct⟩ :=
    h.sync_barriers hmax hflight
  obtain ⟨hterm, -, hid, hroleOf, -, -, -, hlatest⟩ := hs.fields
  have hentry : EntryOk B M (a₁ n).log
      ⟨(a₁ n).log.length + 1, (a₁ n).term, false, topology, none⟩ := by
    refine
      { index := rfl, shape := ?_, keeps := ?_, advances := ?_
        later := by simp
        frozen := ?_ }
    · refine validateLogEntryShape_ok.mpr ⟨by simpa using hvalid, ?_, by simp, rfl⟩
      rwa [not_not, hid] at hcluster
    · rintro (hb | hsome)
      · cases hb
      · exact absurd rfl hsome
    · intro _ _
      refine ⟨?_, ?_⟩
      · rw [hlatest] at hgen
        exact Nat.lt_of_not_le hgen
      · rwa [hsameTopo]
    · intro hcarry hfr hsome
      exfalso
      apply hsome
      rw [hsameAct, ← hs.activation hcarry]
      exact hfrozen hcarry hfr
  rw [hindex, hterm, satSucc_of_lt (by omega)]
  exact h₁.proposeAlone hs (roleOf_eq_leader.mp (hroleOf.symm.trans (not_not.mp hrole))) hbarriers
    hentry rfl hshort hg

theorem Inv.proposeRestoreActivation (h : Inv B M c H a)
    {activation : MetadataRestoreActivation ι} (hmax : (c.state n).lastLogIndex + 1 < u64Max) :
    Continues B M
      (c.after n ((c.node n).proposeRestoreActivation P activation) fun _ c => c).2 a := by
  unfold MetadataNode.proposeRestoreActivation
  dsimp only
  split
  · exact h.refused
  next hrole =>
  split
  · exact h.refused
  next hvalidate =>
  split_ifs with hvalid hother hflight hadvance
  iterate 4 exact h.refused
  obtain ⟨a₁, h₁, hs, hg, hindex, hshort, hbarriers, -, hsameAct⟩ := h.sync_barriers hmax hflight
  obtain ⟨hterm, -, hid, hroleOf, -, -, -, hlatest⟩ := hs.fields
  have hok := h₁.logOk n
  rw [hlatest, hid] at hother
  simp only [not_or, not_not] at hother
  have hentry : EntryOk B M (a₁ n).log ⟨(a₁ n).log.length + 1, (a₁ n).term, false,
      topologyAt B.topology (a₁ n).log, some activation⟩ := by
    refine
      { index := rfl, shape := ?_, keeps := fun _ => rfl
        advances := by simp
        later := ?_
        frozen := fun _ _ _ => rfl }
    · refine validateLogEntryShape_ok.mpr ⟨hok.topology.1, hok.topology.2, by simp, ?_⟩
      show validateActivationAgainstTopology P activation _ _ = .ok ()
      unfold validateActivationAgainstTopology
      rw [hvalidate]
      simp [hok.topology.1, hok.topology.2, hother.1, hother.2.1, hother.2.2]
    · intro hcarry known hknown activation' hact
      cases hact
      rw [hsameAct, ← hs.activation hcarry] at hknown
      rw [hknown] at hadvance
      simp only [Option.any_some, Bool.or_eq_true, decide_eq_true_eq, not_or, not_le] at hadvance
      exact hadvance.2
  rw [hindex, hterm, hlatest, satSucc_of_lt (by omega)]
  exact h₁.proposeAlone hs (roleOf_eq_leader.mp (hroleOf.symm.trans (not_not.mp hrole))) hbarriers
    hentry rfl hshort hg

/-! ## Counting an answer -/

theorem StoreInv.insertMatch (h : StoreInv B M H n r s) {v : ι} {i : Nat}
    (hi : i ≤ r.commit ∨ H.acked v r.term i) : StoreInv B M H n r (s.insertMatch v i) :=
  { h with
    reached := by
      intro hrole w j hw
      have hw' : update s.matchIndex v (some i) w = some j := hw
      by_cases hwv : w = v
      · rw [hwv, update_self, Option.some.injEq] at hw'
        rwa [hwv, ← hw']
      · rw [update_of_ne hwv] at hw'
        exact h.reached hrole w j hw' }

/-- An answer that is counted keeps it. -/
theorem Inv.recordAppendResponse (h : Inv B M c H a) {response : MetadataAppendResponse ι}
    {expected : ι} (hm : (n, response) ∈ c.appendResponses) :
    Continues B M
      (c.after n ((c.node n).recordAppendResponse P expected response) fun _ c => c).2 a := by
  unfold MetadataNode.recordAppendResponse
  dsimp only
  split
  · exact h.refused
  next hcluster =>
  split
  · exact h.refused
  next hnode =>
  split
  · next hlt =>
      obtain ⟨a', hinv, -, -, -, hg⟩ := h.stepDown (Nat.le_of_lt hlt)
      exact ⟨H, a', hinv, hg⟩
  next hge =>
  split
  · simp only [MetadataCluster.after, set_self]
    exact h.continues
  next hcounts =>
  split
  · exact h.refused
  next hmember =>
  simp only [not_or, not_not, Bool.not_eq_true', Bool.not_eq_false] at hcounts
  obtain ⟨hterm', hrole', hsuccess⟩ := hcounts
  obtain ⟨a₁, h₁, hs, hg⟩ := h.sync n
  obtain ⟨hterm, -, -, hroleOf, -⟩ := hs.fields
  have hrole : (a₁ n).role = .leader := roleOf_eq_leader.mp (hroleOf.symm.trans hrole')
  have hack : H.acked expected (a₁ n).term response.matchIndex := by
    have hacked := h.appendResponses _ hm hsuccess
    rwa [not_not.mp hnode, hterm', hterm] at hacked
  -- the larger of the two indexes is one of them
  set known := (((c.node n).store.matchIndex expected).map (max · response.matchIndex)).getD
    response.matchIndex with hknown
  have hi : known ≤ (a₁ n).commit ∨ H.acked expected (a₁ n).term known := by
    cases hold : (c.node n).store.matchIndex expected with
    | none =>
      rw [hold] at hknown
      rw [hknown]
      exact .inr hack
    | some j =>
      rw [hold] at hknown
      have hmax : known = max j response.matchIndex := hknown
      rcases max_choice j response.matchIndex with hj | hj
      · rw [hmax, hj]
        exact hs.reached hrole expected j hold
      · rw [hmax, hj]
        exact .inr hack
  have hs' := hs.insertMatch hi
  obtain ⟨b, s', r', hrun, hproto, hev, hstore, -, hcommit, hsub, hrec⟩ :=
    maybeCommit_keeps h₁.protocol (h₁.logOk n) hs' hrole
  rw [hrun]
  exact ⟨H, _, h₁.write (.refl H) hproto hev h₁.logs h₁.short hstore hsub hrec,
    hg.trans (grows_update hcommit)⟩

end BicDb.Metadata
