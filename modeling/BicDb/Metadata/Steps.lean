import BicDb.Metadata.Invariant

/-!
# Calls on one node keep the invariant

`Inv.sync` first brings the file of a node up to its store, so that a call is the change of one
replica; `Inv.replace` carries over the rest.
-/

namespace BicDb.Metadata

open BicDb.Foundation MetadataCluster Function MetadataNode Replica List.Subset

variable {ι ρ δ : Type*} [DecidableEq ι]

namespace MetadataCluster

variable (c : MetadataCluster ι ρ δ) (n : ι) (nd : MetadataNode ι ρ δ)

@[simp] theorem set_node_self : (c.set n nd).node n = nd := by simp [set]

theorem set_node_ne {m : ι} (h : m ≠ n) : (c.set n nd).node m = c.node m := by simp [set, h]

@[simp] theorem set_set (nd' : MetadataNode ι ρ δ) : (c.set n nd).set n nd' = c.set n nd' := by
  simp [set]

@[simp] theorem set_self : c.set n (c.node n) = c := by simp [set]

theorem forall_set {Q : ι → MetadataNode ι ρ δ → Prop} (hn : Q n nd)
    (hm : ∀ m, m ≠ n → Q m (c.node m)) (m : ι) : Q m ((c.set n nd).node m) :=
  (forall_update_iff c.node Q).mpr ⟨hn, hm⟩ m

end MetadataCluster

open MetadataCluster

variable {P : Platform ι ρ δ} {B : Bootstrap P} {M : Care}
  {H H' : History ι (MetadataLogEntry ι ρ)} {a a' : ι → Replica ι (MetadataLogEntry ι ρ)}
  {c : MetadataCluster ι ρ δ} {n : ι} {r : Replica ι (MetadataLogEntry ι ρ)}
  {s : MetadataConsensusStore ι ρ} {nd : MetadataNode ι ρ δ}

/-- No commit index falls. -/
def Grows (a a' : ι → Replica ι (MetadataLogEntry ι ρ)) : Prop :=
  ∀ m, (a m).commit ≤ (a' m).commit

omit [DecidableEq ι] in
theorem Grows.refl (a : ι → Replica ι (MetadataLogEntry ι ρ)) : Grows a a := fun _ => le_rfl

omit [DecidableEq ι] in
theorem Grows.trans {a'' : ι → Replica ι (MetadataLogEntry ι ρ)} (h : Grows a a')
    (h' : Grows a' a'') : Grows a a'' :=
  fun m => (h m).trans (h' m)

theorem grows_update (h : (a n).commit ≤ r.commit) : Grows a (update a n r) :=
  (forall_update_iff a fun m r => (a m).commit ≤ r.commit).2 ⟨h, fun _ _ => le_rfl⟩

/-! ## Assembling the invariant after one node changed -/

variable (nd) in

/-- One node and its replica change, the rest stays. -/
theorem Inv.replace (h : Inv B M c H a) (hle : H.Le H')
    (hproto : Consistent (metadataRules B.topology) H' (update a n r))
    (hev : Evolves a (update a n r)) (hlogs : ∀ t, LogOk B M (H'.tlog t))
    (hshort : ∀ t, (H'.tlog t).length < u64Max) (hnd : NodeInv B M H' n r nd)
    (hgrow : (c.node n).store.committed ⊆ nd.store.committed)
    (hrec : ∀ e ∈ r.log.take r.commit, e ∈ nd.store.committed ∨
      ∃ k, e ∈ (c.node k).store.committed) :
    Inv B M (c.set n nd) H' (update a n r) := by
  have hgrows : ∀ k, (c.node k).store.committed ⊆ ((c.set n nd).node k).store.committed :=
    c.forall_set n nd (Q := fun k x => (c.node k).store.committed ⊆ x.store.committed) hgrow
      fun _ _ => refl _
  refine
    { protocol := hproto, logs := hlogs, short := hshort, node := ?_, recorded := ?_
      voteRequests := fun m hm => (h.voteRequests m hm).evolve hev
      voteResponses := fun m hm hg => hle.vote (h.voteResponses m hm hg)
      appendRequests := fun m hm => (h.appendRequests m hm).mono hle hgrows
      appendResponses := fun m hm hs => hle.acked (h.appendResponses m hm hs)
      leaders := ?_ }
  · intro m
    by_cases hmn : m = n
    · subst hmn
      rwa [set_node_self, update_self]
    · rw [set_node_ne c n nd hmn, update_of_ne hmn]
      exact (h.node m).mono hle
  · refine (forall_update_iff a fun _ r => Recorded (c.set n nd) (r.log.take r.commit)).2
      ⟨fun e he => ?_, fun m _ => (h.recorded m).mono hgrows⟩
    rcases hrec e he with hnew | ⟨k, hk⟩
    · exact ⟨n, by rw [set_node_self]; exact hnew⟩
    · exact ⟨k, hgrows k hk⟩
  · intro m hm
    obtain ⟨el, hwon, hel⟩ := h.leaders m hm
    exact ⟨el, hle.won hwon, hel⟩

omit [DecidableEq ι] in
theorem StoreInv.persist (h : StoreInv B M H n r s) :
    NodeInv B M H n r (persist P s) := by
  refine ⟨?_, .inl h⟩
  obtain ⟨l, hl⟩ := h.state
  refine ⟨l, ?_⟩
  show encodeState P s.state = encodeState P (stateOf B n r l s.state.committedRestoreActivation)
  rw [← hl]

variable {l : Option ι}

omit [DecidableEq ι] in
theorem StoreInv.fields (h : StoreInv B M H n r s) :
    s.state.currentTerm = r.term ∧ s.state.nodeId = n ∧ s.state.clusterId = B.clusterId ∧
      s.state.role = roleOf r.role ∧ s.state.log = r.log.drop r.commit ∧
      s.state.committedTopology = topologyAt B.topology (r.log.take r.commit) ∧
      s.state.commitIndex = r.commit ∧ s.state.latestTopology = topologyAt B.topology r.log := by
  obtain ⟨l, hst⟩ := h.state
  rw [hst]
  exact ⟨rfl, rfl, rfl, rfl, rfl, rfl, rfl, getLast?_drop_elim _ _⟩

omit [DecidableEq ι] in
theorem StoreInv.restate (h : StoreInv B M H n r s) {r' : Replica ι (MetadataLogEntry ι ρ)}
    {st : MetadataConsensusState ι ρ}
    (hst : st = stateOf B n r' l s.state.committedRestoreActivation)
    (htake : r'.log.take r'.commit = r.log.take r.commit) (hrole : r'.role ≠ .leader) :
    StoreInv B M H' n r' { s with state := st } := by
  have hact : st.committedRestoreActivation = s.state.committedRestoreActivation := by
    rw [hst]
    rfl
  refine
    { state := ⟨l, ?_⟩, activation := ?_, fresh := fun hr => absurd hr hrole
      reached := fun hr => absurd hr hrole, lone := fun _ hr => absurd hr hrole
      committed := ?_, installed := ?_ }
  · dsimp only
    rwa [hact]
  · dsimp only
    rw [hact, htake]
    exact h.activation
  · rw [htake]
    exact h.committed
  · rw [htake]
    exact h.installed

theorem Inv.sync (h : Inv B M c H a) (n : ι) :
    ∃ a', Inv B M (c.set n (persist P (c.node n).store)) H a' ∧
      StoreInv B M H n (a' n) (c.node n).store ∧ Grows a a' := by
  have hrec : ∀ e ∈ (a n).log.take (a n).commit,
      e ∈ (persist P (c.node n).store).store.committed ∨
        ∃ k, e ∈ (c.node k).store.committed := fun e he => .inr (h.recorded n e he)
  rcases (h.node n).store with hs | ⟨T, hT, hs⟩
  · have hself : update a n (a n) = a := update_eq_self n a
    have hinv := h.replace _ (.refl H) (by rw [hself]; exact h.protocol)
      (by rw [hself]; exact .refl a) h.logs h.short hs.persist (refl _) hrec
    rw [hself] at hinv
    exact ⟨a, hinv, hs, .refl a⟩
  · refine ⟨_, h.replace _ (.refl H) (h.protocol.adopt hT) (evolves_adopt hT) h.logs h.short
      hs.persist (refl _) hrec, ?_, grows_update le_rfl⟩
    rwa [update_self]

theorem Inv.write (h : Inv B M (c.set n (persist P (c.node n).store)) H a)
    (hle : H.Le H')
    (hproto : Consistent (metadataRules B.topology) H' (update a n r))
    (hev : Evolves a (update a n r)) (hlogs : ∀ t, LogOk B M (H'.tlog t))
    (hshort : ∀ t, (H'.tlog t).length < u64Max) (hs : StoreInv B M H' n r s)
    (hgrow : (c.node n).store.committed ⊆ s.committed)
    (hrec : ∀ e ∈ r.log.take r.commit, e ∈ (a n).log.take (a n).commit ∨ e ∈ s.committed) :
    Inv B M (c.set n (persist P s)) H' (update a n r) := by
  have hinv := h.replace (persist P s) hle hproto hev hlogs hshort hs.persist
  rw [set_node_self, set_set] at hinv
  refine hinv hgrow fun e he => ?_
  rcases hrec e he with hold | hnew
  · exact .inr (h.recorded n e hold)
  · exact .inl hnew

theorem Inv.writeState (h : Inv B M (c.set n (persist P (c.node n).store)) H a)
    (hle : H.Le H') (hproto : Consistent (metadataRules B.topology) H' (update a n r))
    (hev : Evolves a (update a n r)) (htlog : H'.tlog = H.tlog)
    (hs : StoreInv B M H n (a n) (c.node n).store) {st : MetadataConsensusState ι ρ}
    (hst : st = stateOf B n r l (c.node n).store.state.committedRestoreActivation)
    (hlog : r.log = (a n).log) (hcommit : r.commit = (a n).commit) (hrole : r.role ≠ .leader) :
    Inv B M (c.set n (persist P { (c.node n).store with state := st })) H'
      (update a n r) := by
  refine h.write hle hproto hev (fun t => by rw [htlog]; exact h.logs t)
    (fun t => by rw [htlog]; exact h.short t) (hs.restate hst (by rw [hlog, hcommit]) hrole)
    (refl _) fun e he => .inl ?_
  rwa [hlog, hcommit] at he

/-! ## Messages -/

theorem Inv.addVoteRequest (h : Inv B M c H a) {m : MetadataVoteRequest ι}
    (hm : VoteRequestInv a m) :
    Inv B M { c with voteRequests := c.voteRequests ++ [m] } H a :=
  { h with
    appendRequests := fun x hx => { h.appendRequests x hx with }
    voteRequests := List.forall_mem_append.mpr ⟨h.voteRequests, List.forall_mem_singleton.mpr hm⟩ }

variable {k : ι}

variable (h : Inv B M c H a)

include h

theorem Inv.addVoteResponse {m : MetadataVoteResponse ι}
    (hm : m.voteGranted = true → H.vote m.voterId m.term = some k) :
    Inv B M { c with voteResponses := c.voteResponses ++ [(k, m)] } H a :=
  { h with
    appendRequests := fun x hx => { h.appendRequests x hx with }
    voteResponses := List.forall_mem_append.mpr
      ⟨h.voteResponses, List.forall_mem_singleton.mpr hm⟩ }

theorem Inv.addAppendRequest {m : MetadataAppendRequest ι ρ} (hm : AppendRequestInv B M H c m) :
    Inv B M { c with appendRequests := c.appendRequests ++ [m] } H a :=
  { h with
    appendRequests := List.forall_mem_append.mpr
      ⟨fun x hx => { h.appendRequests x hx with }, List.forall_mem_singleton.mpr { hm with }⟩ }

theorem Inv.addAppendResponse {m : MetadataAppendResponse ι}
    (hm : m.success = true → H.acked m.nodeId m.term m.matchIndex) :
    Inv B M { c with appendResponses := c.appendResponses ++ [(k, m)] } H a :=
  { h with
    appendRequests := fun x hx => { h.appendRequests x hx with }
    appendResponses := List.forall_mem_append.mpr
      ⟨h.appendResponses, List.forall_mem_singleton.mpr hm⟩ }

/-- Explained by replicas that are no less settled than `a`. -/
def Continues (B : Bootstrap P) (M : Care) (c : MetadataCluster ι ρ δ)
    (a : ι → Replica ι (MetadataLogEntry ι ρ)) : Prop :=
  ∃ H' a', Inv B M c H' a' ∧ Grows a a'

theorem Inv.continues : Continues B M c a := ⟨H, a, h, .refl a⟩

theorem Inv.refused {α : Type*} {send : α → MetadataCluster ι ρ δ → MetadataCluster ι ρ δ}
    {e : MetadataError ι} :
    Continues B M (c.after n (.error e, c.node n) send).2 a := by
  simp only [after, set_self]
  exact h.continues

/-! ## Terms and votes -/

theorem Inv.stepDown {T : Nat} (hT : (c.state n).currentTerm ≤ T) :
    ∃ a', Inv B M (c.set n (persist P
        { (c.node n).store with state := (c.state n).stepDown T l })) H a' ∧
      StoreInv B M H n (a' n) { (c.node n).store with state := (c.state n).stepDown T l } ∧
      (a' n).term = T ∧ (a' n).role = .follower ∧ Grows a a' := by
  obtain ⟨a₁, h₁, hs, hg⟩ := h.sync n
  obtain ⟨l₁, hst⟩ := hs.state
  have hterm : (a₁ n).term ≤ T := hs.fields.1.ge.trans hT
  have hnew : (c.state n).stepDown T l = stateOf B n ((a₁ n).adopt T) l
      (c.node n).store.state.committedRestoreActivation := by
    unfold state
    conv_lhs => rw [hst]
    exact stepDown_stateOf hterm l
  refine ⟨_, h₁.writeState (.refl H) (h₁.protocol.adopt hterm) (evolves_adopt hterm) rfl hs hnew
    rfl rfl (by simp [adopt]), ?_, ?_, ?_, hg.trans (grows_update le_rfl)⟩
  · rw [update_self]
    exact hs.restate hnew rfl (by simp [adopt])
  · rw [update_self]
    rfl
  · rw [update_self]
    rfl

theorem Inv.observeRemoteTerm (n : ι) (term : Nat) :
    Continues B M (c.after n ((c.node n).observeRemoteTerm P term) fun _ c => c).2 a := by
  unfold MetadataNode.observeRemoteTerm
  dsimp only
  split
  · simp only [after, set_self]
    exact h.continues
  · next hlt =>
      obtain ⟨a', hinv, -, -, -, hg⟩ := h.stepDown (n := n) (T := term) (by
        unfold state
        omega)
      exact ⟨H, a', hinv, hg⟩

theorem Inv.relinquishLeadership (n : ι) :
    Continues B M (c.after n ((c.node n).relinquishLeadership P) fun _ c => c).2 a := by
  unfold MetadataNode.relinquishLeadership
  dsimp only
  split
  · simp only [after, set_self]
    exact h.continues
  · obtain ⟨a', hinv, -, -, -, hg⟩ := h.stepDown
      le_rfl
    exact ⟨H, a', hinv, hg⟩

theorem Inv.startElection (hmax : (c.state n).currentTerm < u64Max) :
    Continues B M (c.after n ((c.node n).startElection P) fun request c =>
      { c with voteRequests := c.voteRequests ++ [request] }).2 a := by
  unfold MetadataNode.startElection
  dsimp only
  split
  · exact h.refused
  obtain ⟨a₁, h₁, hs, hg⟩ := h.sync n
  obtain ⟨l₁, hst⟩ := hs.state
  have hlt : (a₁ n).term < u64Max := hs.fields.1.ge.trans_lt hmax
  have hok := h₁.logOk n
  have hcommit := (h₁.protocol.node n).commit_le
  -- the state written stands for the replica that stands for election
  have hnew : ({ (c.node n).store.state with
      currentTerm := satSucc (c.node n).store.state.currentTerm
      role := .candidate
      votedFor := some (c.node n).store.state.nodeId
      leaderId := none } : MetadataConsensusState ι ρ) =
      stateOf B n ((a₁ n).stand n) none (c.node n).store.state.committedRestoreActivation := by
    conv_lhs => rw [hst]
    simp only [stateOf, stand, roleOf, satSucc_of_lt hlt]
  have hinv := h₁.writeState (History.le_castVote (h₁.protocol.vote_none (Nat.lt_succ_self _)))
    h₁.protocol.stand evolves_stand rfl hs hnew rfl rfl (by simp [stand])
  refine ⟨_, _, hinv.addVoteRequest ?_, hg.trans (grows_update le_rfl)⟩
  -- the request carries the end of the log that the candidate stands with
  show VoteRequestInv _ ⟨_, _, _, (c.node n).store.state.lastLogIndex,
    (c.node n).store.state.lastLogTerm⟩
  rw [hst, lastLogIndex_stateOf hok.indexed hcommit, lastLogTerm_stateOf, VoteRequestInv]
  simp only [stateOf, satSucc_of_lt hlt, update_self]
  exact ⟨le_rfl, fun _ _ => ⟨rfl, rfl⟩⟩

omit h

theorem grants_iff (st : MetadataConsensusState ι ρ) (request : MetadataVoteRequest ι) :
    grants st request = true ↔
      request.candidateId ∈ topologyVoters st.committedTopology ∧
      (st.lastLogTerm < request.lastLogTerm ∨
        request.lastLogTerm = st.lastLogTerm ∧ st.lastLogIndex ≤ request.lastLogIndex) ∧
      (st.votedFor = none ∨ st.votedFor = some request.candidateId) := by
  simp [grants, and_assoc]

theorem Inv.grant (h : Inv B M c H a) (hsync : c.node n = persist P (c.node n).store)
    (hs : StoreInv B M H n (a n) (c.node n).store) {request : MetadataVoteRequest ι}
    (hm : request ∈ c.voteRequests) (hterm : (a n).term = request.term)
    (hg : grants (c.state n) request = true) :
    ∃ H' a', Inv B M (c.set n (persist P { (c.node n).store with
        state := { c.state n with votedFor := some request.candidateId } })) H' a' ∧
      H'.vote n request.term = some request.candidateId ∧ Grows a a' := by
  obtain ⟨-, hlog, hfree⟩ := (grants_iff _ _).mp hg
  obtain ⟨hreached, hlast⟩ := h.voteRequests request hm
  obtain ⟨l, hst⟩ := hs.state
  have hok := h.logOk n
  have hcommit := (h.protocol.node n).commit_le
  have hstate : c.state n =
      stateOf B n (a n) l (c.node n).store.state.committedRestoreActivation := hst
  have hvoted : (c.state n).votedFor = (a n).voted := by rw [hstate]; rfl
  rw [hvoted] at hfree
  rcases hfree with hfree | hsame
  · -- a first vote in this term
    rw [hstate, lastLogTerm_stateOf, lastLogIndex_stateOf hok.indexed hcommit] at hlog
    have hup : (a request.candidateId).role = .candidate →
        (a request.candidateId).term = (a n).term →
        UpToDate (·.term) (a request.candidateId).log (a n).log := by
      intro hc ht
      obtain ⟨hidx, hlt⟩ := hlast hc (ht.trans hterm)
      rw [hidx, hlt] at hlog
      rcases hlog with hlog | ⟨hlog, hlen⟩
      · exact .inl hlog
      · exact .inr ⟨hlog.symm, hlen⟩
    have hnone : H.vote n (a n).term = none := (h.protocol.node n).voted.trans hfree
    have hnl : ((a n).vote request.candidateId).role ≠ .leader := h.protocol.not_leader hfree
    have hnew : ({ c.state n with votedFor := some request.candidateId } :
        MetadataConsensusState ι ρ) = stateOf B n ((a n).vote request.candidateId) l
          (c.node n).store.state.committedRestoreActivation := by
      conv_lhs => rw [hstate]
      simp only [stateOf, vote]
    have hinv : Inv B M (c.set n (persist P (c.node n).store)) H a := by
      rwa [← hsync, set_self]
    refine ⟨_, _, hinv.writeState (History.le_castVote hnone)
      (h.protocol.vote hfree (by rw [hterm]; exact hreached) hup) (evolves_vote _) rfl hs hnew rfl
      rfl hnl, ?_, grows_update le_rfl⟩
    rw [← hterm]
    exact History.castVote_vote_self _ _ _ _
  · refine ⟨H, a, ?_, ?_, .refl a⟩
    · have hst' : ({ c.state n with votedFor := some request.candidateId } :
          MetadataConsensusState ι ρ) = c.state n := by
        rw [← hsame, ← hvoted]
      rw [hst']
      have hback : persist P { (c.node n).store with state := c.state n } = c.node n := hsync.symm
      rwa [hback, set_self]
    · rw [← hterm, (h.protocol.node n).voted, hsame]

/-- An answer to a vote request keeps the invariant. -/
theorem Inv.handleVoteRequest (h : Inv B M c H a) {request : MetadataVoteRequest ι}
    (hm : request ∈ c.voteRequests) :
    Continues B M (c.after n ((c.node n).handleVoteRequest P request) fun response c =>
      { c with
        voteResponses := c.voteResponses ++ [(request.candidateId, response)] }).2 a := by
  unfold MetadataNode.handleVoteRequest
  dsimp only
  split
  · exact h.refused
  split
  · simp only [after, set_self]
    exact (h.addVoteResponse fun hg => by cases hg).continues
  next hge =>
  -- the node is brought to the term of the request first
  obtain ⟨st₁, hst₁, a₁, hinv, hs, hterm, hg⟩ : ∃ st₁, st₁ =
      (if (c.node n).store.state.currentTerm < request.term then
        (c.node n).store.state.stepDown request.term none else (c.node n).store.state) ∧
      ∃ a₁, Inv B M (c.set n (persist P { (c.node n).store with state := st₁ })) H a₁ ∧
        StoreInv B M H n (a₁ n) { (c.node n).store with state := st₁ } ∧
        (a₁ n).term = request.term ∧ Grows a a₁ := by
    split
    · next hlt =>
        obtain ⟨a₁, hinv, hs, hterm, -, hg⟩ := h.stepDown (Nat.le_of_lt hlt)
        exact ⟨_, rfl, a₁, hinv, hs, hterm, hg⟩
    · next hnot =>
        obtain ⟨a₁, hinv, hs, hg⟩ := h.sync n
        have heq := hs.fields.1
        exact ⟨_, rfl, a₁, hinv, hs, by omega, hg⟩
  rw [← hst₁]
  cases hgr : grants st₁ request with
  | false => exact ⟨H, a₁, hinv.addVoteResponse nofun, hg⟩
  | true =>
    obtain ⟨H', a', hinv', hvote, hg'⟩ := hinv.grant (by rw [set_node_self]; rfl)
      (by rw [set_node_self]; exact hs) hm hterm
      (by rw [state, set_node_self]; exact hgr)
    rw [set_node_self, state, set_node_self, set_set] at hinv'
    refine ⟨H', a', hinv'.addVoteResponse fun _ => ?_, hg.trans hg'⟩
    obtain ⟨hcurrent, hid, -⟩ := hs.fields
    show H'.vote st₁.nodeId st₁.currentTerm = some request.candidateId
    rwa [hid, hcurrent, hterm]

end BicDb.Metadata
