import BicDb.Metadata.Proposals

/-!
# Append requests

What `append_request_from` sends, what `handle_append_request` makes of it, and restarts. A follower
that accepts ends with a part of the leader log of the request's term (`Overlay`), settled as far as
the leader had committed, by a snapshot or by its own log.
-/

namespace BicDb.Metadata

open BicDb.Foundation MetadataCluster MetadataNode Replica MetadataConsensusState List.Subset
  MetadataConsensusStore
open List hiding set_set

variable {ι ρ δ : Type*} [DecidableEq ι] [DecidableEq ρ]
  {P : Platform ι ρ δ} {B : Bootstrap P} {M : Care}
  {H H' : History ι (MetadataLogEntry ι ρ)} {a a' : ι → Replica ι (MetadataLogEntry ι ρ)}
  {c : MetadataCluster ι ρ δ} {n : ι} {r : Replica ι (MetadataLogEntry ι ρ)}
  {s : MetadataConsensusStore ι ρ} {nd : MetadataNode ι ρ δ}

/-! ## Sending -/

section Send

omit [DecidableEq ρ]

theorem Inv.stretch_of_leader (h : Inv B M c H a) (hrole : (a n).role = .leader) (prev max : Nat)
    (hprev : (a n).commit ≤ prev) {m : MetadataAppendRequest ι ρ} {l : Option ι}
    {act : Option (MetadataRestoreActivation ι)} (hterm : m.term = (a n).term)
    (hp : m.prevLogIndex = prev)
    (hpt : m.prevLogTerm = ((stateOf B n (a n) l act).termAt prev).getD 0)
    (hentries : m.entries = ((a n).log.drop prev).take max)
    (hcommit : m.leaderCommit = (a n).commit) (hsnap : m.snapshot.isSome → prev = (a n).commit) :
    Stretch B (H.tlog m.term) m ∨
      m.prevLogTerm = 0 ∧ 0 < m.prevLogIndex ∧ m.entries = [] ∧ m.snapshot = none := by
  have hnode := h.protocol.node n
  have hok := h.logOk n
  have hcle := hnode.commit_le
  have hleads := hnode.leads hrole
  have hiff : ∀ {t}, (stateOf B n (a n) l act).termAt prev = some t ↔
      (a n).commit ≤ prev ∧ prev ≤ (a n).log.length ∧
        t = lastTerm (·.term) ((a n).log.take prev) := termAt_stateOf hok.indexed hcle
  rw [hterm, ← hleads]
  rcases Nat.lt_or_ge (a n).log.length prev with hlt | hge
  · right
    have hnone : (stateOf B n (a n) l act).termAt prev = none := by
      cases ht : (stateOf B n (a n) l act).termAt prev with
      | none => rfl
      | some t =>
        have hle := (hiff.mp ht).2.1
        omega
    refine ⟨by rw [hpt, hnone]; rfl, by omega, ?_, ?_⟩
    · rw [hentries, drop_eq_nil_of_le hlt.le, take_nil]
    · cases hs : m.snapshot with
      | none => rfl
      | some S =>
        have heq := hsnap (by rw [hs]; rfl)
        omega
  · left
    refine ⟨by rw [hp]; exact hge, ?_, ?_, ?_⟩
    · rw [hpt, hiff.mpr ⟨hprev, hge, rfl⟩, hp]
      rfl
    · rw [hentries, hp]
      exact take_prefix _ _
    · rw [hcommit]
      refine (Rules.changeCount_mono ((take_sublist _ _).drop _)).trans ?_
      exact hnode.single

/-- A request that is sent keeps the invariant. -/
theorem Inv.appendRequestFrom (h : Inv B M c H a) (nextIndex maxEntries : Nat) :
    Continues B M (c.after n ((c.node n).appendRequestFrom nextIndex maxEntries, c.node n)
      fun request c => { c with appendRequests := c.appendRequests ++ [request] }).2 a := by
  unfold MetadataNode.appendRequestFrom
  dsimp only
  split
  · exact h.refused
  next hleader =>
  split
  · exact h.refused
  -- a leader's store is not ahead of its file
  have hs : StoreInv B M H n (a n) (c.node n).store := by
    rcases (h.node n).store with hs | ⟨T, -, hs⟩
    · exact hs
    · obtain ⟨-, -, -, hroleOf, -⟩ := hs.fields
      exact absurd (hroleOf.symm.trans (not_not.mp hleader)) (by simp [adopt, roleOf])
  obtain ⟨hterm, hid, hcluster, hroleOf, hlog, htopo, hcommit, -⟩ := hs.fields
  obtain ⟨l, hst⟩ := hs.state
  have hrole : (a n).role = .leader :=
    roleOf_eq_leader.mp (hroleOf.symm.trans (not_not.mp hleader))
  have hnode := h.protocol.node n
  have hok := h.logOk n
  have hcle := hnode.commit_le
  have hleads := hnode.leads hrole
  obtain ⟨el, hwon, -⟩ := hnode.elected hrole
  have hbase : (c.node n).store.state.baseIndex = (a n).commit := by rw [hst]; rfl
  have hshort := h.short_of_matched (h.protocol.sound.log_matched n)
  have hentries : ∀ {next : Nat}, (a n).commit < next →
      ((c.node n).store.state.log.filter (fun e => decide (next ≤ e.index))).take maxEntries =
        ((a n).log.drop (next - 1)).take maxEntries := by
    intro next hnext
    have hcut := filter_lt_drop hok.indexed (show (a n).commit ≤ next - 1 by omega)
    rw [hlog, ← hcut]
    congr 1
    refine filter_congr fun e _ => ?_
    exact decide_eq_decide.mpr (by omega)
  have hrecorded := h.recorded n
  have hsettled := hnode.settled
  rw [hleads] at hrecorded hsettled
  simp only [MetadataCluster.after, set_self]
  refine (h.addAppendRequest ?_).continues
  by_cases hnext : nextIndex ≤ (c.node n).store.state.baseIndex
  · -- behind the base: the snapshot is sent and the entries from the base on
    simp only [if_pos hnext]
    have hnext' : satSucc (c.node n).store.state.baseIndex = (a n).commit + 1 := by
      rw [hbase]
      exact satSucc_of_lt (by omega)
    rw [hnext', hterm, hcommit, hbase, Nat.add_sub_cancel,
      hentries (show (a n).commit < (a n).commit + 1 from Nat.lt_succ_self _), Nat.add_sub_cancel]
    refine
      { led := ⟨el, hwon⟩
        stretch := h.stretch_of_leader hrole _ maxEntries le_rfl rfl rfl
          (by rw [← hst]) rfl rfl fun _ => rfl
        commit_le_prev := le_rfl, commit_le := by rw [← hleads]; exact hcle
        settled := hsettled, snapshot := ?_, recorded := hrecorded }
    intro S hS
    rw [Option.mem_def, Option.some.injEq] at hS
    refine ⟨rfl, ?_⟩
    rw [← hS]
    show SnapshotOf B M ((H.tlog (a n).term).take (a n).commit) _
    rw [← hleads]
    refine ⟨?_, ?_, htopo, hs.activation⟩
    · rw [length_take_of_le hcle]
    · rw [hst]
      rfl
  · simp only [if_neg hnext]
    rw [hterm, hcommit, hentries (by omega)]
    refine
      { led := ⟨el, hwon⟩
        stretch := h.stretch_of_leader hrole (nextIndex - 1) maxEntries (by omega)
          rfl rfl (by rw [← hst]) rfl rfl (by simp)
        commit_le_prev := by show (a n).commit ≤ nextIndex - 1; omega
        commit_le := by rw [← hleads]; exact hcle
        settled := hsettled, snapshot := by simp, recorded := hrecorded }

end Send

/-! ## Accepting entries -/

/-- What a follower knows when it handles a request. -/
structure Follows (B : Bootstrap P) (M : Care) (H : History ι (MetadataLogEntry ι ρ))
    (c : MetadataCluster ι ρ δ) (n : ι) (r : Replica ι (MetadataLogEntry ι ρ))
    (request : MetadataAppendRequest ι ρ) (s : MetadataConsensusStore ι ρ) : Prop where
  store : StoreInv B M H n r s
  role : r.role ≠ .leader
  commit_le : r.commit ≤ r.log.length
  ok : LogOk B M r.log
  matched : Matched (·.term) H r.log
  positive : ∀ e ∈ r.log, 0 < e.term
  leaderOk : LogOk B M (H.tlog request.term)
  leaderMatched : Matched (·.term) H (H.tlog request.term)
  short : (H.tlog request.term).length < u64Max
  carried : r.log.take r.commit <+: H.tlog request.term
  request : AppendRequestInv B M H c request

/-- The store after a request that it accepted. -/
structure Accepts (B : Bootstrap P) (M : Care) (H : History ι (MetadataLogEntry ι ρ)) (n : ι)
    (r : Replica ι (MetadataLogEntry ι ρ)) (request : MetadataAppendRequest ι ρ)
    (s s' : MetadataConsensusStore ι ρ) (new : List (MetadataLogEntry ι ρ)) : Prop where
  stretch : Stretch B (H.tlog request.term) request
  overlay : Overlay (H.tlog request.term) r.log request.prevLogIndex request.entries new
  store : StoreInv B M H n (r.follow new (max r.commit request.leaderCommit)) s'
  grow : s.committed ⊆ s'.committed

section Accept

variable {request : MetadataAppendRequest ι ρ} {l : Option ι}
  {act : Option (MetadataRestoreActivation ι)} {new : List (MetadataLogEntry ι ρ)}

omit [DecidableEq ρ] in
theorem advanceFollowerCommit_stateOf (hs : s.state = stateOf B n r l act)
    (hok : LogOk B M r.log) (hc : r.commit ≤ r.log.length) {target : Nat}
    (ht : target ≤ r.log.length) :
    target ≤ r.commit ∧ s.advanceFollowerCommit P target = (.ok (), s) ∨
    ∃ k e, target = k + 1 ∧ r.commit ≤ k ∧ r.log[k]? = some e ∧
      s.advanceFollowerCommit P target = s.commitEntry P e := by
  have hlast : s.state.lastLogIndex = r.log.length := by
    rw [hs]
    exact lastLogIndex_stateOf hok.indexed hc
  have hcommit : s.state.commitIndex = r.commit := by rw [hs]; rfl
  have hlog : s.state.log = r.log.drop r.commit := by rw [hs]; rfl
  unfold advanceFollowerCommit
  rw [hlast, Nat.min_eq_left ht, hcommit, hlog]
  by_cases hle : target ≤ r.commit
  · exact .inl ⟨hle, by rw [if_pos hle]⟩
  right
  obtain ⟨k, rfl⟩ := Nat.exists_eq_add_one.2 (show 0 < target by omega)
  have hfind := (hok.indexed.drop (Nat.zero_add r.commit)).find_succ (k - r.commit)
  rw [getElem?_drop, Nat.add_sub_cancel' (by omega)] at hfind
  have hget : r.log[k]? = some (r.log[k]) := getElem?_eq_getElem (by omega)
  refine ⟨k, r.log[k], rfl, by omega, hget, ?_⟩
  rw [if_neg hle, hfind, hget]

omit [DecidableEq ρ] in
theorem StoreInv.advance (h : StoreInv B M H n r s) (hok : LogOk B M r.log)
    (hrole : r.role ≠ .leader)
    (hc : r.commit ≤ r.log.length) {target : Nat} (ht : target ≤ r.log.length)
    (hno : M.carry → ∀ x ∈ (r.log.take (target - 1)).drop r.commit, x.restoreActivation = none) :
    ∃ s', s.advanceFollowerCommit P target = (.ok (), s') ∧
      StoreInv B M H n (r.follow r.log (max r.commit target)) s' ∧
      s.committed ⊆ s'.committed := by
  obtain ⟨l, hst⟩ := h.state
  rcases advanceFollowerCommit_stateOf hst hok hc ht with
    ⟨hle, hsame⟩ | ⟨k, e, rfl, hk, he, hrun⟩
  · refine ⟨s, hsame, ?_, refl _⟩
    rwa [Nat.max_eq_left hle]
  · obtain ⟨s', hcommit, hstate, hactivation, hcommitted, hsettled, hinstalled, -⟩ :=
      h.commitEntry hok he hk hno
    refine ⟨s', hrun.trans hcommit, ?_, by rw [hcommitted]; exact subset_append_left _ _⟩
    rw [show max r.commit (k + 1) = k + 1 by omega]
    exact
      { state := hstate, activation := hactivation, fresh := fun hl => absurd hl hrole
        reached := fun hl => absurd hl hrole, lone := fun _ hl => absurd hl hrole
        committed := hsettled, installed := hinstalled }

section

variable (h : Follows B M H c n r request s)

include h

omit [DecidableEq ρ]

theorem Follows.entries (hst : Stretch B (H.tlog request.term) request) :
    IndexedFrom (·.index) request.prevLogIndex request.entries ∧
      (∀ e ∈ request.entries, validateLogEntryShape P e s.state.clusterId = .ok ()) ∧
      request.prevLogIndex + request.entries.length ≤ u64Max := by
  refine ⟨(h.leaderOk.indexed.drop (Nat.zero_add _)).anti hst.entries, fun e he => ?_,
    hst.sum_le.trans h.short.le⟩
  rw [h.store.fields.2.2.1]
  exact h.leaderOk.shape (mem_of_mem_drop (hst.entries.subset he))

theorem Follows.take_prev (hle : request.prevLogIndex ≤ r.log.length)
    (hterm : request.prevLogTerm = lastTerm (·.term) (r.log.take request.prevLogIndex)) :
    Stretch B (H.tlog request.term) request ∧
      r.log.take request.prevLogIndex = (H.tlog request.term).take request.prevLogIndex := by
  rcases h.request.stretch with hst | ⟨hzero, hpos, -⟩
  · refine ⟨hst, ?_⟩
    rcases Nat.eq_zero_or_pos request.prevLogIndex with hprev | hprev
    · rw [hprev]
      rfl
    · obtain ⟨k, hk⟩ := Nat.exists_eq_add_one.2 hprev
      have hget : r.log[k]? = some (r.log[k]) := getElem?_eq_getElem (by omega)
      have hkL : k < (H.tlog request.term).length := by
        have hlen := hst.prev_le
        omega
      have hgetL : (H.tlog request.term)[k]? = some ((H.tlog request.term)[k]) :=
        getElem?_eq_getElem hkL
      have heq := hterm.symm.trans hst.prev_term
      rw [hk, lastTerm_take_succ hget, lastTerm_take_succ hgetL] at heq
      rw [hk]
      exact h.matched.take_eq h.leaderMatched hget hgetL heq
  · -- behind the end of the leader log: no entry has term zero
    obtain ⟨k, hk⟩ := Nat.exists_eq_add_one.2 hpos
    have hget : r.log[k]? = some (r.log[k]) := getElem?_eq_getElem (by omega)
    rw [hk, lastTerm_take_succ hget, hzero] at hterm
    have hp := h.positive _ (mem_of_getElem? hget)
    omega

theorem Follows.ends (hstale : ¬ StaleSuffix s.state request)
    (haccept : s.state.termAt request.prevLogIndex = some request.prevLogTerm ∨
      ∃ S ∈ request.snapshot, s.state.commitIndex ≤ S.lastIncludedIndex)
    (hhas : request.entries <+: r.log.drop request.prevLogIndex) :
    r.log.length ≤ request.prevLogIndex + request.entries.length ∨
      r.log <+: H.tlog request.term := by
  by_contra hnot
  rw [not_or, not_le] at hnot
  obtain ⟨l, hst⟩ := h.store.state
  refine hstale ⟨haccept, ?_, fun hlast => hnot.2 ?_, fun e he x hx hxe => ?_⟩
  · rw [hst, lastLogIndex_stateOf h.ok.indexed h.commit_le]
    exact hnot.1
  · rw [← hlast, hst, lastLogTerm_stateOf]
    exact h.matched.prefix_tlog
  · rw [h.store.fields.2.2.2.2.1] at hx
    exact h.ok.indexed.eq_of_index (mem_of_mem_drop hx) (mem_of_mem_drop (hhas.subset he)) hxe

theorem Follows.relog
    (ho : Overlay (H.tlog request.term) r.log request.prevLogIndex request.entries new) :
    r.commit ≤ new.length ∧ new.take r.commit = r.log.take r.commit :=
  take_eq_of_kept h.commit_le (ho.keeps _ h.carried <| take_prefix _ _)

end

variable (nd) in
/-- **Entries accepted on the node's own base**, or refused. -/
theorem Follows.acceptEntries_kept (h : Follows B M H c n r request s)
    (hstale : ¬ StaleSuffix s.state request)
    (hno : M.carry → ∀ x ∈ s.state.log, x.index < request.leaderCommit →
      x.restoreActivation = none) :
    (∃ i, acceptEntries P nd s request =
      (.ok (s.appendResponse false i), persist P s)) ∨
    ∃ s' new, acceptEntries P nd s request =
        (.ok (s'.appendResponse true (satSucc s'.state.lastLogIndex)), persist P s') ∧
      Accepts B M H n r request s s' new := by
  obtain ⟨l, hst⟩ := h.store.state
  have hlog : s.state.log = r.log.drop r.commit := h.store.fields.2.2.2.2.1
  have hbase : s.state.baseIndex = r.commit := by rw [hst]; rfl
  unfold acceptEntries
  by_cases hterm : s.state.termAt request.prevLogIndex = some request.prevLogTerm
  · rw [if_neg (not_not.mpr hterm)]
    right
    have hagree := hterm
    rw [hst, termAt_stateOf h.ok.indexed h.commit_le] at hagree
    obtain ⟨hcp, hple, hpt⟩ := hagree
    obtain ⟨hstretch, htake⟩ := h.take_prev hple hpt
    obtain ⟨hidx, hshape, hmax⟩ := h.entries hstretch
    have hkdrop : s.state.log.drop (request.prevLogIndex - r.commit) =
        r.log.drop request.prevLogIndex := by
      rw [hlog, drop_drop, Nat.add_sub_cancel' hcp]
    have hkle : request.prevLogIndex - r.commit ≤ s.state.log.length := by
      rw [hlog, length_drop]
      omega
    have hsidx : IndexedFrom (·.index) s.state.baseIndex s.state.log := by
      rw [hbase, hlog]
      exact h.ok.indexed.drop (Nat.zero_add _)
    -- the new log, and the store that has it
    obtain ⟨new, st, hstored, ho, hrelog⟩ : ∃ new st,
        storeIncoming P s.state request.entries = .stored st ∧
        Overlay (H.tlog request.term) r.log request.prevLogIndex request.entries new ∧
        StoreInv B M H n (r.follow new r.commit) { s with state := st } := by
      have hspec := storeIncoming_spec request.entries hsidx hkle
        (by rw [hbase, Nat.add_sub_cancel' hcp]; exact hidx) hshape
        (by rw [hbase, Nat.add_sub_cancel' hcp]; exact hmax)
      rw [hkdrop] at hspec
      rcases hspec with ⟨hhas, hrun⟩ | ⟨hnot, hrun⟩
      · refine ⟨r.log, s.state, hrun, ?_, h.store⟩
        exact overlay_kept htake hple hstretch.entries hhas (h.ends hstale (.inl hterm) hhas)
      · have ho : Overlay _ r.log _ _ _ :=
          overlay_replaced hstretch.prev_le hstretch.entries hnot
        obtain ⟨-, hsame⟩ := h.relog ho
        refine ⟨_, _, hrun, ho, h.store.restate (l := l) ?_ hsame h.role⟩
        have hnew : (H.tlog request.term).take (request.prevLogIndex + request.entries.length) =
            r.log.take request.prevLogIndex ++ request.entries := by
          rw [htake]
          exact (take_stretch hstretch.entries).symm
        have hplen : (r.log.take request.prevLogIndex).length = request.prevLogIndex :=
          length_take_of_le hple
        conv_lhs => rw [hst]
        simp only [stateOf, Replica.follow]
        rw [hsame]
        rw [hnew, drop_append_of_le_length (by omega), drop_take]
    rw [hstored]
    dsimp only
    obtain ⟨hcnew, -⟩ := h.relog ho
    have hoknew : LogOk B M new := h.leaderOk.anti ho.sub
    have hlead := h.request.commit_le_prev
    obtain ⟨s', hrun, hs', hsub⟩ := hrelog.advance hoknew h.role hcnew (hlead.trans ho.prev_le) (by
      intro hcarry x hx
      -- up to the previous entry the new log is the old one
      have hi : request.leaderCommit - 1 ≤ request.prevLogIndex := by omega
      have hsame : new.take (request.leaderCommit - 1) = r.log.take (request.leaderCommit - 1) := by
        rw [ho.take_prev hi, ← Nat.min_eq_left hi, ← take_take, ← take_take, htake]
      have hx' : x ∈ (r.log.take (request.leaderCommit - 1)).drop r.commit := by
        rwa [← hsame]
      have hbound := (h.ok.indexed.anti <| take_prefix (request.leaderCommit - 1) _).mem
        (mem_of_mem_drop hx')
      rw [length_take] at hbound
      rw [drop_take] at hx'
      refine hno hcarry x ?_ (by omega)
      rw [hlog]
      exact mem_of_mem_take hx')
    rw [hrun]
    exact ⟨s', new, rfl, hstretch, ho, hs', hsub⟩
  · rw [if_pos hterm]
    exact .inl ⟨_, rfl⟩

/-- `install_snapshot` fails, leaves the store, or makes the snapshot the base. -/
theorem installCarried_cases (s : MetadataConsensusStore ι ρ)
    (snapshot : Option (MetadataSnapshot ι ρ)) :
    (∃ e, s.installCarried P snapshot = (.error e, s)) ∨
    ((∀ S ∈ snapshot, S.lastIncludedIndex < s.state.commitIndex) ∧
      s.installCarried P snapshot = (.ok (), s)) ∨
    ∃ S, snapshot = some S ∧ s.state.commitIndex ≤ S.lastIncludedIndex ∧
      s.installCarried P snapshot = (.ok (), { s with
        state := s.state.install S, installed := s.installed ++ [S] }) := by
  cases snapshot with
  | none => exact .inr (.inl ⟨nofun, rfl⟩)
  | some S =>
    show (∃ e, s.installSnapshot P S = _) ∨ (_ ∧ s.installSnapshot P S = _) ∨
      ∃ S', some S = some S' ∧ _ ∧ s.installSnapshot P S = _
    unfold installSnapshot
    split
    · exact .inl ⟨_, rfl⟩
    split
    · next hlt =>
        refine .inr (.inl ⟨fun S' hS' => ?_, rfl⟩)
        cases hS'
        exact hlt
    · next hge =>
        split
        · exact .inl ⟨_, rfl⟩
        · exact .inr (.inr ⟨S, rfl, by omega, rfl⟩)

variable (nd) in
/-- **Entries accepted on a snapshot just installed.** -/
theorem Follows.acceptEntries_installed (h : Follows B M H c n r request s)
    {S : MetadataSnapshot ι ρ} (hsnap : request.snapshot = some S)
    (hcommit : s.state.commitIndex ≤ S.lastIncludedIndex) {s₁ : MetadataConsensusStore ι ρ}
    (hs₁ : s₁ = { s with state := s.state.install S, installed := s.installed ++ [S] })
    (hstale : ¬ StaleSuffix s.state request) :
    ∃ s' new, acceptEntries P nd s₁ request =
        (.ok (s'.appendResponse true (satSucc s'.state.lastLogIndex)), persist P s') ∧
      Accepts B M H n r request s s' new := by
  obtain ⟨l, hst⟩ := h.store.state
  obtain ⟨hlead, hof⟩ := h.request.snapshot S hsnap
  have hstretch : Stretch B (H.tlog request.term) request := by
    rcases h.request.stretch with hst | ⟨-, -, -, hnone⟩
    · exact hst
    · rw [hsnap] at hnone
      cases hnone
  set p := (H.tlog request.term).take request.prevLogIndex with hp
  have hplen : p.length = request.prevLogIndex := length_take_of_le hstretch.prev_le
  have hindex : S.lastIncludedIndex = request.prevLogIndex := hof.index.trans hplen
  have hcp : r.commit ≤ request.prevLogIndex := by
    rw [h.store.fields.2.2.2.2.2.2.1] at hcommit
    omega
  obtain ⟨hidx, hshape, hmax⟩ := h.entries hstretch
  -- the store behind the snapshot keeps what the log has behind it
  have hlog : s₁.state.log = r.log.drop request.prevLogIndex := by
    rw [hs₁]
    show s.state.log.filter (fun e => decide (S.lastIncludedIndex < e.index)) = _
    rw [h.store.fields.2.2.2.2.1, hindex]
    exact filter_lt_drop h.ok.indexed hcp
  have hbase : s₁.state.baseIndex = request.prevLogIndex := by
    rwa [hs₁]
  have hterm : s₁.state.termAt request.prevLogIndex = some request.prevLogTerm := by
    unfold termAt
    rw [if_pos hbase.symm, hstretch.prev_term, ← hof.term, hs₁]
    rfl
  have hsidx : IndexedFrom (·.index) s₁.state.baseIndex s₁.state.log := by
    rw [hbase, hlog]
    exact h.ok.indexed.drop (Nat.zero_add _)
  have hclus : s₁.state.clusterId = s.state.clusterId := by rw [hs₁]; rfl
  -- any log behind the snapshot that makes a part of the leader log gives the store of a replica
  have hstore : ∀ tail,
      StoreInv B M H n (r.follow (p ++ tail) request.prevLogIndex)
        { s₁ with state := { s₁.state with log := tail } } := by
    intro tail
    have htake : (p ++ tail).take request.prevLogIndex = p := by
      rw [take_append_of_le_length hplen.ge, take_of_length_le hplen.le]
    have hcar : r.log.take r.commit <+: p := by
      rw [hp, prefix_take_iff]
      refine ⟨h.carried, ?_⟩
      rwa [length_take_of_le h.commit_le]
    refine
      { state := ⟨l, ?_⟩, activation := ?_, fresh := fun hl => absurd hl h.role
        reached := fun hl => absurd hl h.role, lone := fun _ hl => absurd hl h.role
        committed := ?_, installed := ?_ }
    · rw [hs₁]
      simp only [install]
      conv_lhs => rw [hst]
      simp only [stateOf, Replica.follow]
      rw [htake, hindex, hof.term, hof.topology, drop_append_of_le_length hplen.ge,
        drop_eq_nil_of_le hplen.le, nil_append]
    · intro hcarry
      show s₁.state.committedRestoreActivation =
        lastActivation ((p ++ tail).take request.prevLogIndex)
      rw [htake, ← hof.activation hcarry, hs₁]
      rfl
    · intro e he
      rw [hs₁] at he
      show e ∈ (p ++ tail).take request.prevLogIndex
      rw [htake]
      exact hcar.subset (h.store.committed e he)
    · intro S' hS'
      rw [hs₁] at hS'
      show ∃ q, q <+: (p ++ tail).take request.prevLogIndex ∧ SnapshotOf B M q S'
      rw [htake]
      rcases mem_append.mp hS' with hold | hnew
      · obtain ⟨q, hq, hof'⟩ := h.store.installed S' hold
        exact ⟨q, hq.trans hcar, hof'⟩
      · cases mem_singleton.mp hnew
        exact ⟨_, prefix_rfl, hof⟩
  obtain ⟨tail, hrun, ho⟩ : ∃ tail,
      storeIncoming P s₁.state request.entries = .stored { s₁.state with log := tail } ∧
      Overlay (H.tlog request.term) r.log request.prevLogIndex request.entries (p ++ tail) := by
    have hspec := storeIncoming_spec request.entries hsidx (Nat.zero_le _)
      (by rw [hbase]; exact hidx) (by rw [hclus]; exact hshape) (by rw [hbase]; exact hmax)
    rw [drop_zero, take_zero, nil_append, hlog] at hspec
    rcases hspec with ⟨hhas, hrun⟩ | ⟨hnot, hrun⟩
    · refine ⟨r.log.drop request.prevLogIndex, ?_, ?_⟩
      · rw [hrun, ← hlog]
      · exact overlay_installed hstretch.prev_le hstretch.entries hhas
          (h.ends hstale (.inr ⟨S, hsnap, hcommit⟩) hhas)
    · refine ⟨request.entries, hrun, ?_⟩
      rw [hp, take_stretch hstretch.entries]
      exact overlay_replaced hstretch.prev_le hstretch.entries hnot
  have hadvance : ({ s₁ with state := { s₁.state with log := tail } } :
      MetadataConsensusStore ι ρ).advanceFollowerCommit P request.leaderCommit =
      (.ok (), { s₁ with state := { s₁.state with log := tail } }) := by
    have hci : s₁.state.commitIndex = request.prevLogIndex := by
      rwa [hs₁]
    unfold advanceFollowerCommit
    rw [if_pos]
    rw [hci, hlead]
    exact Nat.min_le_left _ _
  unfold acceptEntries
  rw [if_neg (not_not.mpr hterm), hrun]
  dsimp only
  rw [hadvance]
  have hmaxc : max r.commit request.leaderCommit = request.prevLogIndex := by
    omega
  refine ⟨_, _, rfl, hstretch, ho, ?_, ?_⟩
  · rw [hmaxc]
    exact hstore tail
  · show s.committed ⊆ s₁.committed
    rw [hs₁]
    exact refl _

end Accept

/-! ## The calls -/

section Calls

variable {request : MetadataAppendRequest ι ρ}

omit [DecidableEq ρ] in
theorem Inv.stepDownInMemory (h : Inv B M c H a) (hT : (c.state n).currentTerm ≤ request.term) :
    Inv B M (c.set n ⟨MetadataNode.steppedDown (c.node n).store request, (c.node n).disk⟩) H a := by
  have hself : Function.update a n (a n) = a := Function.update_eq_self n a
  have hnode : NodeInv B M H n (a n) ⟨steppedDown (c.node n).store request, (c.node n).disk⟩ := by
    -- stepping down again from a store that is ahead of its file is stepping down once
    have hstep : ∀ r, StoreInv B M H n r (c.node n).store → r.term ≤ request.term →
        StoreInv B M H n (r.adopt request.term) (steppedDown (c.node n).store request) := by
      intro r hs hr
      obtain ⟨l, hst⟩ := hs.state
      refine hs.restate (l := some request.leaderId) ?_ rfl (by simp [adopt])
      conv_lhs => rw [hst]
      exact stepDown_stateOf hr _
    have hact : (steppedDown (c.node n).store request).state.committedRestoreActivation =
        (c.node n).store.state.committedRestoreActivation := by
      show (MetadataConsensusState.stepDown _ _ _).committedRestoreActivation = _
      unfold MetadataConsensusState.stepDown
      split <;> rfl
    refine ⟨?_, .inr ?_⟩
    · dsimp only
      rw [hact]
      exact (h.node n).disk
    · rcases (h.node n).store with hs | ⟨T, hle, hs⟩
      · have hr : (a n).term ≤ request.term := by
          rwa [← hs.fields.1]
        exact ⟨request.term, hr, hstep _ hs hr⟩
      · have hr : T ≤ request.term := by
          have heq : (c.state n).currentTerm = T := hs.fields.1
          omega
        refine ⟨request.term, hle.trans hr, ?_⟩
        rw [← adopt_adopt hle hr]
        exact hstep _ hs hr
  have hinv := h.replace _ (.refl H) (by rw [hself]; exact h.protocol)
    (by rw [hself]; exact .refl a) h.logs h.short hnode (refl _)
    fun e he => .inr (h.recorded n e he)
  rwa [hself] at hinv

omit [DecidableEq ρ] in
/-- A follower answers with its whole log, which is part of the leader's. -/
theorem Inv.accepted (h : Inv B M c H a) (hrole : (a n).role = .follower)
    (hterm : (a n).term = request.term) (hf : Follows B M H c n (a n) request (c.node n).store)
    {s' : MetadataConsensusStore ι ρ} {new : List (MetadataLogEntry ι ρ)}
    (hacc : Accepts B M H n (a n) request (c.node n).store s' new) (i : Nat) :
    ∃ H' a', Inv B M { c.set n (persist P s') with
      appendResponses := (c.set n (persist P s')).appendResponses ++
        [(request.leaderId, s'.appendResponse true i)] } H' a' ∧ Grows a a' := by
  have hnode := h.protocol.node n
  have hled : H.Led (a n).term := by rw [hterm]; exact hf.request.led
  have hstretch := hacc.overlay
  obtain ⟨hcnew, hsame⟩ := hf.relog hstretch
  have hsettled : (metadataRules B.topology).Settled H
      (new.take (max (a n).commit request.leaderCommit)) := by
    rcases max_choice (a n).commit request.leaderCommit with hmax | hmax
    · rw [hmax, hsame]
      exact hnode.settled
    · rw [hmax, hstretch.take_prev hf.request.commit_le_prev]
      exact hf.request.settled
  have hle : max (a n).commit request.leaderCommit ≤ new.length :=
    max_le hcnew (hf.request.commit_le_prev.trans hstretch.prev_le)
  have hsingle : (metadataRules B.topology).changeCount
      (new.drop (max (a n).commit request.leaderCommit)) ≤ 1 := by
    rcases hstretch.origin with heq | heq
    · rw [heq]
      exact (Rules.changeCount_mono (drop_sublist_drop_left _ (le_max_left _ _))).trans hnode.single
    · rw [heq]
      exact (Rules.changeCount_mono (drop_sublist_drop_left _ (le_max_right _ _))).trans
        hacc.stretch.single
  have hfollow := h.protocol.follow hled hrole new
    (max (a n).commit request.leaderCommit) (hf.leaderMatched.anti hstretch.sub)
    (fun e he => by rw [hterm]; exact h.protocol.sound.tlog_le (hstretch.sub.subset he))
    (by rw [hterm]; exact hstretch.keeps) hle hsettled hsingle
  have hack := hfollow.acknowledge (n := n) (k := new.length)
  rw [Function.update_self] at hack
  have htake : (H.tlog request.term).take new.length = new :=
    (prefix_iff_eq_take.mp hstretch.sub).symm
  have hacked := hack hled (by
    show new.length ≤ (H.tlog (a n).term).length
    rw [hterm]
    exact hstretch.sub.length_le) (by
    show (H.tlog (a n).term).take new.length <+: new
    rw [hterm, htake])
  have hle' := History.le_acknowledge (H := H) n (a n).term new.length
  refine ⟨_, _, (h.replace (persist P s') hle' hacked
    (evolves_follow hrole _ _) h.logs h.short (hacc.store.mono hle').persist hacc.grow ?_
    ).addAppendResponse fun _ => ?_, grows_update (le_max_left _ _)⟩
  · intro e he
    have he' : e ∈ new.take (max (a n).commit request.leaderCommit) := he
    right
    rcases max_choice (a n).commit request.leaderCommit with hmax | hmax
    · rw [hmax, hsame] at he'
      exact h.recorded n e he'
    · rw [hmax, hstretch.take_prev hf.request.commit_le_prev] at he'
      exact hf.request.recorded e he'
  · obtain ⟨hterm', hid, -⟩ := hacc.store.fields
    obtain ⟨l, hst⟩ := hacc.store.state
    refine .inl ⟨hid, hterm', ?_⟩
    show s'.state.lastLogIndex = new.length
    rw [hst]
    exact lastLogIndex_stateOf
      (hf.leaderOk.anti hstretch.sub).indexed hle

/-- A request that is handled keeps it. -/
theorem Inv.handleAppendRequest (h : Inv B M c H a) (hm : request ∈ c.appendRequests)
    (hstale : (c.state n).currentTerm ≤ request.term → ¬ StaleSuffix (c.state n) request)
    (hno : M.carry → (c.state n).currentTerm ≤ request.term → request.snapshot = none →
      ∀ e ∈ (c.state n).log, e.index < request.leaderCommit → e.restoreActivation = none) :
    Continues B M (c.after n ((c.node n).handleAppendRequest P request) fun response c =>
      { c with appendResponses := c.appendResponses ++ [(request.leaderId, response)] }).2 a := by
  unfold MetadataNode.handleAppendRequest
  dsimp only
  split
  · exact h.refused
  next hcluster =>
  split
  · simp only [MetadataCluster.after, set_self]
    exact (h.addAppendResponse fun hyes => by cases hyes).continues
  next hge =>
  split
  · exact h.refused
  next hvoter =>
  have hT : (c.state n).currentTerm ≤ request.term := Nat.le_of_not_lt hge
  set s := steppedDown (c.node n).store request with hs
  -- the node follows the leader of the request's term first
  obtain ⟨a₁, hinv, hstore, hterm, hrole, hg⟩ :=
    h.stepDown hT
  have hinv₁ : Inv B M (c.set n (persist P s)) H a₁ := hinv
  have hreq := hinv₁.appendRequests request hm
  have hled : H.Led (a₁ n).term := by rw [hterm]; exact hreq.led
  have hmatched := hinv₁.protocol.sound.log_matched n
  have hfollows : Follows B M H (c.set n (persist P s)) n (a₁ n) request s :=
    { store := hstore, role := by rw [hrole]; decide
      commit_le := (hinv₁.protocol.node n).commit_le, ok := hinv₁.logOk n, matched := hmatched
      positive := by
        intro e he
        obtain ⟨k, hk⟩ := mem_iff_getElem?.mp he
        exact hinv₁.protocol.sound.led_pos (hmatched.take_succ hk).1
      leaderOk := hinv₁.logs _, leaderMatched := hinv₁.protocol.sound.tlog_matched _
      short := hinv₁.short _
      carried := by
        rw [← hterm]
        exact hinv₁.protocol.settled_le (hinv₁.protocol.node n).settled hled
          (lastTerm_take_of (P := (· ≤ (a₁ n).term)) (Nat.zero_le _)
            (fun _ => hinv₁.protocol.sound.log_le) _)
      request := hreq }
  have hself : ((c.set n (persist P s)).node n).store = s := by
    rw [set_node_self]
    rfl
  have hdone : ∀ {s' new} (i : Nat), Accepts B M H n (a₁ n) request s s' new →
      Continues B M { c.set n (persist P s') with
        appendResponses := (c.set n (persist P s')).appendResponses ++
          [(request.leaderId, s'.appendResponse true i)] } a := by
    intro s' new i hacc
    have hacc' := hinv₁.accepted hrole hterm
    rw [hself] at hacc'
    obtain ⟨H', a', hinv', hg'⟩ := hacc' hfollows hacc i
    simp only [set_set] at hinv'
    exact ⟨H', a', hinv', hg.trans hg'⟩
  -- stepping down leaves the log and the base
  obtain ⟨hlog, hnot⟩ : s.state.log = (c.state n).log ∧ ¬ StaleSuffix s.state request := by
    rw [hs, steppedDown, MetadataConsensusState.stepDown]
    split <;> exact ⟨rfl, hstale hT⟩
  rcases installCarried_cases s request.snapshot with
    ⟨e, herr⟩ | ⟨hbehind, hkept⟩ | ⟨S, hsnap, hcommit, hinst⟩
  · rw [herr]
    exact (h.stepDownInMemory hT).continues
  · rw [hkept]
    dsimp only
    have hno' : M.carry → ∀ x ∈ s.state.log, x.index < request.leaderCommit →
        x.restoreActivation = none := by
      intro hcarry x hx hlt
      cases hsnap : request.snapshot with
      | none => exact hno hcarry hT hsnap x (hlog ▸ hx) hlt
      | some S =>
        -- the snapshot, and with it the leader's commit index, lies behind the base
        exfalso
        obtain ⟨hlead, hof⟩ := hreq.snapshot S hsnap
        have hlow := hbehind S hsnap
        have hlen := hof.index
        rw [length_take] at hlen
        have hprev := hreq.commit_le
        rw [hfollows.store.fields.2.2.2.2.2.2.1] at hlow
        rw [hfollows.store.fields.2.2.2.2.1] at hx
        have hbound := (hinv₁.logOk n).indexed.mem_drop hx
        omega
    rcases hfollows.acceptEntries_kept (c.node n) hnot hno' with
      ⟨i, hrun⟩ | ⟨s', new, hrun, hacc⟩
    · rw [hrun]
      exact ⟨H, a₁, hinv₁.addAppendResponse (by rintro ⟨⟩), hg⟩
    · rw [hrun]
      exact hdone _ hacc
  · rw [hinst]
    dsimp only
    obtain ⟨s', new, hrun, hacc⟩ :=
      hfollows.acceptEntries_installed (c.node n) hsnap hcommit rfl hnot
    rw [hrun]
    exact hdone _ hacc

omit [DecidableEq ι] [DecidableEq ρ] in
theorem decodeState_encodeState (st : MetadataConsensusState ι ρ) :
    decodeState P (encodeState P st) = .ok st := by
  unfold decodeState encodeState
  rw [P.fromSlice_toVecPretty]
  simp

omit [DecidableEq ι] [DecidableEq ρ] in
theorem NodeInv.committed (h : NodeInv B M H n r nd) :
    nd.store.state.commitIndex = r.commit ∧
      (M.carry → nd.store.state.committedRestoreActivation = lastActivation (r.log.take r.commit)) ∧
      (∀ e ∈ nd.store.committed, e ∈ r.log.take r.commit) ∧
      ∀ S ∈ nd.store.installed, ∃ p, p <+: r.log.take r.commit ∧ SnapshotOf B M p S := by
  rcases h.store with hs | ⟨T, -, hs⟩
  · exact ⟨hs.fields.2.2.2.2.2.2.1, hs.activation, hs.committed, hs.installed⟩
  · exact ⟨hs.fields.2.2.2.2.2.2.1, hs.activation, hs.committed, hs.installed⟩

theorem Inv.restart (h : Inv B M c H a)
    (hopen : MetadataNode.openStore P B.clusterId n B.topology (some (c.node n).disk)
      (c.node n).store.committed (c.node n).store.installed = .ok nd) :
    Continues B M (c.set n nd) a := by
  obtain ⟨l, hdisk⟩ := (h.node n).disk
  unfold openStore at hopen
  iterate 3
    split at hopen
    · cases hopen
  dsimp only at hopen
  rw [hdisk, decodeState_encodeState] at hopen
  dsimp only at hopen
  iterate 3
    split at hopen
    · cases hopen
  cases hopen
  -- what is committed is the same in memory and in the file
  obtain ⟨-, hactivation, hcommitted, hinstalled⟩ := (h.node n).committed
  refine ⟨H, _, h.replace (started P _ _ _) (.refl H)
    (h.protocol.adopt le_rfl) (evolves_adopt le_rfl) h.logs h.short
    (StoreInv.persist ?_) (refl _) fun e he => .inr (h.recorded n e he),
    grows_update le_rfl⟩
  refine
    { state := ⟨none, ?_⟩, activation := hactivation
      fresh := by rintro ⟨⟩, reached := by rintro ⟨⟩, lone := by rintro _ ⟨⟩
      committed := hcommitted, installed := hinstalled }
  show ({ stateOf B n (a n) l _ with role := .follower, leaderId := none } :
    MetadataConsensusState ι ρ) = stateOf B n ((a n).adopt (a n).term) none _
  simp only [stateOf, adopt, roleOf, lt_irrefl, if_false]
  rfl

end Calls

end BicDb.Metadata
