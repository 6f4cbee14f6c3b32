import BicDb.Paged.Vacuum

/-!
# Snapshot isolation

A put over a row that another transaction has deleted overwrites the stamp of the delete, so the old
version shows again (`deleted_key_reappears`). Without such puts every live snapshot reads its own
last write, or else the last one committed when it was taken (`snapshotIsolation`), and no update is
lost (`committed_writers_ordered`).
-/

namespace BicDb.Paged

open BicDb.Foundation TransactionTable List Version

/-! ## The condition -/

/-- The newest version of a key whose creator did not abort. -/
def newestLive (s : PagedStore) (key : Bytes) : Option (TupleLocator × Version) :=
  (follow Version.prev s.heap.tuples maxVersionChain (s.index key)).find?
    fun p => decide (s.transactions.live p.2.header.xmin)

/-- No other transaction has deleted it and committed. -/
def NotDeletedByOther (s : PagedStore) (x : Nat) (key : Bytes) : Prop :=
  ∀ p ∈ newestLive s key, p.2.header.xmax = 0 ∨ p.2.header.xmax = x ∨
    s.transactions.status p.2.header.xmax ≠ .committed

instance (s : PagedStore) (x : Nat) (key : Bytes) : Decidable (NotDeletedByOther s x key) :=
  inferInstanceAs (Decidable (∀ p ∈ newestLive s key, _))

/-- Puts fit and do not go over deleted rows; no vacuum. -/
def IsolationSafe (o : Options) (sys : System) : Action → Prop
  | .put place x key value =>
    PutFits o sys (.put place x key value) ∧ NotDeletedByOther sys.store x key
  | .vacuum .. => False
  | _ => True

instance (o : Options) (sys : System) : (act : Action) → Decidable (IsolationSafe o sys act)
  | .put .. => inferInstanceAs (Decidable (_ ∧ _))
  | .vacuum .. => inferInstanceAs (Decidable False)
  | .beginTransaction | .latestSnapshot | .delete .. | .commit _ | .abort _ | .freeze _ | .spill =>
    inferInstanceAs (Decidable True)

/-! ## Chains record the writes -/

/-- The writes of a key whose author did not abort. -/
def liveWrites (t : TransactionTable) (writes : List Write) (key : Bytes) :
    List (KeyWrite Nat Bytes) :=
  (writes.filter fun w => decide (w.key = key) && decide (t.live w.author)).map
    fun w => ⟨w.author, w.effect⟩

/-- The chains record the writes, and later writers saw earlier ones. -/
structure Recorded (t : TransactionTable) (taken : List Taken) (writes : List Write)
    (chains : Chains) : Prop where
  records : ∀ k, Records t.live none (liveWrites t writes k) (versions (chains k))
  ordered : ∀ k, (liveWrites t writes k).Pairwise fun newer older =>
    older.author = newer.author ∨ Saw taken newer.author older.author
  authors : ∀ w ∈ writes, w.author ≠ 0

variable {t : TransactionTable}

theorem liveWrites_congr {t' : TransactionTable} (hlive : ∀ y, t'.live y ↔ t.live y)
    (writes : List Write) (key : Bytes) : liveWrites t' writes key = liveWrites t writes key := by
  simp only [liveWrites, hlive]

theorem liveWrites_cons {w : Write} (hw : t.live w.author) (writes : List Write) (key : Bytes) :
    liveWrites t (w :: writes) key =
      if w.key = key then ⟨w.author, w.effect⟩ :: liveWrites t writes key
      else liveWrites t writes key := by
  by_cases hk : w.key = key <;> simp [liveWrites, hk, hw]

variable {x : Nat}

theorem liveWrites_retire {t' : TransactionTable} (hlive : ∀ y, t'.live y ↔ t.live y ∧ y ≠ x)
    (writes : List Write) (key : Bytes) :
    liveWrites t' writes key = (liveWrites t writes key).filter fun w => decide (w.author ≠ x) := by
  unfold liveWrites
  rw [filter_map, filter_filter]
  congr 2
  funext w
  simp only [hlive, Function.comp_apply, Bool.decide_and]
  rw [← Bool.and_assoc, Bool.and_comm]

variable {taken : List Taken}

theorem SnapshotsOk.saw_committed {snapshots : Nat → Option Snapshot}
    (h : SnapshotsOk t snapshots taken) {y : Nat} (hxy : Saw taken x y) :
    t.status y = .committed := by
  obtain ⟨e, he, -, hy⟩ := hxy
  exact ((h.seen e he y).mp hy).2.2

namespace Recorded

variable {t' : TransactionTable} {taken' : List Taken} {writes : List Write} {chains : Chains}

theorem new (t : TransactionTable) : Recorded t [] [] fun _ => [] :=
  ⟨fun _ => .nil, fun _ => .nil, by simp⟩

variable (h : Recorded t taken writes chains)

include h

theorem frame (hlive : ∀ y, t'.live y ↔ t.live y)
    (htaken : ∀ e ∈ taken, e ∈ taken') : Recorded t' taken' writes chains := by
  have heq : t'.live = t.live := funext fun y => propext (hlive y)
  refine ⟨fun k => ?_, fun k => ?_, h.authors⟩
  · rw [liveWrites_congr hlive, heq]
    exact h.records k
  · rw [liveWrites_congr hlive]
    refine (h.ordered k).imp fun {newer older} hsaw => ?_
    rcases hsaw with hsame | ⟨e, he, hsaw⟩
    · exact .inl hsame
    · exact .inr ⟨e, htaken e he, hsaw⟩

theorem retire (x : Nat)
    (hlive : ∀ y, t'.live y ↔ t.live y ∧ y ≠ x) (hunseen : ∀ y, ¬ Saw taken y x) :
    Recorded t' taken writes chains := by
  have heq : t'.live = fun y => t.live y ∧ y ≠ x := funext fun y => propext (hlive y)
  refine ⟨fun k => ?_, fun k => ?_, h.authors⟩
  · rw [liveWrites_retire hlive, heq]
    refine (h.records k).retire x (by simp) (by simp) ((h.ordered k).imp ?_)
    intro newer older hsaw hold
    rcases hsaw with hsame | hsaw
    · exact hsame.symm.trans hold
    · exact absurd (hold ▸ hsaw) (hunseen _)
  · rw [liveWrites_retire hlive]
    exact (h.ordered k).filter _

theorem write {w : Write} {xs : List (TupleLocator × Version)}
    (hw : t.live w.author) (hw0 : w.author ≠ 0)
    (hrec : Records t.live none (⟨w.author, w.effect⟩ :: liveWrites t writes w.key) (versions xs))
    (hsaw : ∀ v ∈ liveWrites t writes w.key, v.author = w.author ∨ Saw taken w.author v.author) :
    Recorded t taken (w :: writes) (Function.update chains w.key xs) := by
  refine ⟨fun k => ?_, fun k => ?_, ?_⟩
  · rw [liveWrites_cons hw]
    by_cases hk : w.key = k
    · subst hk
      simpa using hrec
    · simpa [hk, Function.update_of_ne (Ne.symm hk)] using h.records k
  · rw [liveWrites_cons hw]
    by_cases hk : w.key = k
    · subst hk
      rw [if_pos rfl, pairwise_cons]
      exact ⟨hsaw, h.ordered w.key⟩
    · rw [if_neg hk]
      exact h.ordered k
  · rw [forall_mem_cons]
    exact ⟨hw0, h.authors⟩

end Recorded

/-! ## Writes keep the record -/

variable {o : Options} {s : PagedStore} {owner : TupleLocator → Bytes} {chains : Chains}
  {writes : List Write} {key value : Bytes} {place l : TupleLocator}
  {skipped rest : List (TupleLocator × Version)} {b : Version}

theorem StoreInv.saw_writes (h : StoreInv o s taken owner chains)
    (hrec : Recorded s.transactions taken writes chains) (hx : x ∈ s.transactions.inProgress)
    (hbase : Base s x (chains key) skipped l b rest) :
    ∀ w ∈ liveWrites s.transactions writes key, w.author = x ∨ Saw taken x w.author := by
  have hrecords := hrec.records key
  have hordered := hrec.ordered key
  rw [hbase.split, versions_append, versions_cons,
    Records.append_skipped (forall_mem_versions.2 hbase.skipped_dead)] at hrecords
  cases hws : liveWrites s.transactions writes key with
  | nil => simp
  | cons w ws =>
    rw [hws] at hrecords hordered
    rw [pairwise_cons] at hordered
    -- the newest write made the base or stamped it, and both stamps have been checked
    have hnewest : w.author = x ∨ Saw taken x w.author := by
      rcases hrecords.newest hbase.live with hborn | ⟨hdead, hlive⟩
      · rw [hborn]
        exact h.saw_base hx hbase
      · obtain ⟨hmax, h0⟩ := toVer_dead.mp hdead
        exact h.saw_of_stamp hx h0 hlive (hmax ▸ hbase.deleter)
    rw [forall_mem_cons]
    refine ⟨hnewest, fun v hv => ?_⟩
    rcases hordered.1 v hv with hsame | hsaw
    · rwa [hsame]
    rcases hnewest with hown | hnewest
    · exact .inr (hown ▸ hsaw)
    · obtain ⟨e, he, hxid, hseen⟩ := hnewest
      exact .inr ⟨e, he, hxid, h.snapshots.closed e he _ _ hseen hsaw⟩

/-- **A put** over what no other transaction has deleted. -/
theorem Recorded.put (hrec : Recorded s.transactions taken writes chains)
    (h : StoreInv o s taken owner chains) (hx : x ∈ s.transactions.inProgress)
    (hother : NotDeletedByOther s x key) {result : Except PageError TupleLocator}
    {chains' : Chains} (heffect : PutEffect s place x key value result chains chains') :
    Recorded s.transactions taken (recordPut result ⟨x, key, some value⟩ writes) chains' := by
  obtain ⟨hx0, hlive, -⟩ := h.of_running hx
  have hnew : ∀ previous, (⟨⟨x, 0, previous⟩, value⟩ : Version).toVer = ⟨x, none, value⟩ :=
    fun _ => rfl
  rcases heffect with ⟨e, rfl, rfl⟩ | ⟨rfl, ⟨hdead, rfl⟩ | ⟨skipped, l, b, rest, hbase, rfl⟩⟩
  · exact hrec
  · have hdead' : ∀ v ∈ versions (chains key), ¬ s.transactions.live v.born :=
      forall_mem_versions.2 hdead
    have hempty : liveWrites s.transactions writes key = [] := by
      have hnil := hrec.records key
      rw [← append_nil (versions (chains key)), Records.append_skipped hdead'] at hnil
      cases hws : liveWrites s.transactions writes key with
      | nil => rfl
      | cons w ws =>
        rw [hws] at hnil
        cases hnil
    refine hrec.write hlive hx0 ?_ (by simp [hempty])
    exact (hrec.records key).put_first hdead' hlive
  · have hrecords := hrec.records key
    rw [hbase.split, versions_append, versions_cons] at hrecords
    refine hrec.write hlive hx0 ?_ (h.saw_writes hrec hx hbase)
    rw [versions_cons, versions_cons, hnew, stamp_toVer hx0]
    apply hrecords.put_over _ hbase.live hlive
    · -- a live deleter that passed the check is the writer or committed, which is excluded
      intro y hy hlivey
      obtain ⟨hmax, hy0⟩ := toVer_dead.mp hy
      rcases h.saw_of_stamp hx hy0 hlivey (hmax ▸ hbase.deleter) with hown | hsaw
      · exact hown
      have hcommitted := h.snapshots.saw_committed hsaw
      have hnewest : newestLive s key = some (l, b) := by
        unfold newestLive
        rw [(h.chains.chain key).follow_eq, take_of_length_le (h.chains.ok key).short.le,
          find?_eq_some_iff_append]
        exact ⟨by simpa using hbase.live, skipped, rest, hbase.split,
          by simpa using hbase.skipped_dead⟩
      rcases hother (l, b) hnewest with h0 | hown | hne
      · exact absurd (hmax.symm.trans h0) hy0
      · exact hmax.symm.trans hown
      · exact absurd (hmax ▸ hcommitted) hne
    · exact forall_mem_versions.2 hbase.skipped_dead

/-- **A delete** is recorded. -/
theorem Recorded.delete (hrec : Recorded s.transactions taken writes chains)
    (h : StoreInv o s taken owner chains) (hx : x ∈ s.transactions.inProgress)
    {result : Except PageError Bool} {chains' : Chains}
    (heffect : DeleteEffect s x key result chains chains') :
    Recorded s.transactions taken (recordDelete result ⟨x, key, none⟩ writes) chains' := by
  obtain ⟨hx0, hlive, e, he, hxid, -, hof⟩ := h.of_running hx
  rcases heffect with ⟨hne, rfl⟩ | ⟨rfl, skipped, l, b, rest, hbase, hseen, rfl⟩
  · unfold recordDelete
    split
    · exact absurd rfl hne
    · exact hrec
  · have hrecords := hrec.records key
    have hskip : ∀ v ∈ versions skipped, ¬ s.transactions.live v.born :=
      forall_mem_versions.2 hbase.skipped_dead
    rw [hbase.split, versions_append, versions_cons] at hrecords
    refine hrec.write hlive hx0 ?_ (h.saw_writes hrec hx hbase)
    rw [versions_append, versions_cons, stamp_toVer hx0]
    apply hrecords.delete_over hskip hbase.live hlive
    -- with a live deleter the key would have been absent for the transaction
    intro y hy hlivey
    apply hseen
    obtain ⟨hmax, hy0⟩ := toVer_dead.mp hy
    have hsees : s.transactions.xidVisible y e.snapshot = true := by
      rw [h.snapshots.sees_iff he hy0]
      rcases h.saw_of_stamp hx hy0 hlivey (hmax ▸ hbase.deleter) with hown | hsaw
      · exact .inl (hown.trans hxid.symm)
      · obtain ⟨e', he', hxid', hy'⟩ := hsaw
        rw [h.snapshots.unique e he e' he' (hxid ▸ hx0) (hxid.trans hxid'.symm)]
        exact .inr hy'
    have hchained := (h.chains.ok key).chained
    have hback := (h.chains.ok key).sees_back h.snapshots he
    rw [hof]
    rw [hbase.split, versions_append, versions_cons] at hchained hback ⊢
    have hseenLive : ∀ z, s.transactions.xidVisible z e.snapshot = true → s.transactions.live z :=
      fun z => SnapshotsOk.sees_live (hxid ▸ hlive)
    rw [readChain_append, readChain_dead hchained.right hseenLive
      (fun u hu => hback u (mem_append_right _ hu)) hy hsees, Option.or_none]
    rw [readChain, find?_eq_none.mpr]
    · rfl
    · intro v hv hvis
      simp only [Ver.visible, Bool.and_eq_true] at hvis
      exact hskip v hv (hseenLive _ hvis.1)

/-! ## Runs -/

/-- A safe action keeps chains and writes in step. -/
theorem Recorded.step {sys sys' : System} {act : Action} {owner : TupleLocator → Bytes}
    (h : StoreInv o sys.store sys.taken owner chains)
    (hrec : Recorded sys.store.transactions sys.taken sys.writes chains)
    (hsafe : IsolationSafe o sys act) (hstep : sys.step o act = some sys') :
    ∃ owner' chains', StoreInv o sys'.store sys'.taken owner' chains' ∧
      Recorded sys'.store.transactions sys'.taken sys'.writes chains' := by
  have hlive : ∀ {t : TransactionTable}, (∀ y, t.status y = sys.store.transactions.status y) →
      ∀ y, t.live y ↔ sys.store.transactions.live y := by
    intro t hstatus y
    rw [live, live, hstatus]
  cases act with
  | beginTransaction =>
    cases hstep
    exact ⟨owner, chains, h.beginTransaction, hrec.frame (hlive (status_begin h.table)) fun e he =>
        mem_cons_of_mem _ he⟩
  | latestSnapshot =>
    cases hstep
    exact ⟨owner, chains, h.latest, hrec.frame (fun _ => Iff.rfl) fun e he => mem_cons_of_mem _ he⟩
  | put =>
    obtain ⟨hguard, ⟨⟩⟩ := Option.ite_none_right_eq_some.1 hstep
    obtain ⟨htable, owner', chains', h', heffect⟩ :=
      h.put hguard.1 hguard.2 hsafe.1.1 hsafe.1.2
    refine ⟨owner', chains', h', ?_⟩
    rw [htable]
    exact hrec.put h hguard.1 hsafe.2 heffect
  | delete x key =>
    obtain ⟨hx, ⟨⟩⟩ := Option.ite_none_right_eq_some.1 hstep
    obtain ⟨htable, chains', h', heffect⟩ := h.delete hx key
    refine ⟨owner, chains', h', ?_⟩
    rw [htable]
    exact hrec.delete h hx heffect
  | commit x =>
    obtain ⟨hx, ⟨⟩⟩ := Option.ite_none_right_eq_some.1 hstep
    refine ⟨owner, chains, h.commit hx, hrec.frame (fun y => ?_) fun e he => he⟩
    have hstatus := status_commit h.table hx y
    by_cases hy : y = x
    · subst hy
      simp [live, PagedStore.commit, hstatus, h.table.status_running hx]
    · simp [live, PagedStore.commit, hstatus, hy]
  | abort x =>
    obtain ⟨hx, ⟨⟩⟩ := Option.ite_none_right_eq_some.1 hstep
    refine ⟨owner, chains, h.abort hx, hrec.retire x (fun y => ?_) fun y hsaw => ?_⟩
    · have hstatus := status_abort h.table hx y
      by_cases hy : y = x
      · subst hy
        simp [live, PagedStore.abort, hstatus]
      · simp [live, PagedStore.abort, hstatus, hy]
    · have hcommitted := h.snapshots.saw_committed hsaw
      rw [h.table.status_running hx] at hcommitted
      cases hcommitted
  | freeze maxXids =>
    cases hstep
    obtain ⟨-, -, -, hstatus⟩ := freezeBelowBounded_spec maxXids h.table h.table.oldest_le_next
    exact ⟨owner, chains, h.freeze maxXids, hrec.frame (hlive hstatus) fun e he => he⟩
  | spill =>
    cases hstep
    exact ⟨owner, chains, h.spill, hrec.frame (hlive status_persistStatusSpill) fun e he => he⟩
  | vacuum => exact hsafe.elim

theorem Recorded.reach {sys : System}
    (h : Reach (System.step o) (IsolationSafe o) (System.new o) sys) :
    ∃ owner chains, StoreInv o sys.store sys.taken owner chains ∧
      Recorded sys.store.transactions sys.taken sys.writes chains :=
  h.invariant
    (fun sys => ∃ owner chains, StoreInv o sys.store sys.taken owner chains ∧
      Recorded sys.store.transactions sys.taken sys.writes chains)
    ⟨fun _ => [], fun _ => [], ⟨.new _, .new _, .new⟩, .new _⟩
    (fun _ _ _ ⟨_, _, hs, hrec⟩ hsafe hstep => hrec.step hs hsafe hstep)

/-! ## What snapshots read -/

theorem find_liveWrites (p : Nat → Bool) (hp : ∀ y, p y = true → t.live y) (writes : List Write)
    (key : Bytes) :
    (liveWrites t writes key).find? (fun w => p w.author) =
      (writes.find? fun w => decide (w.key = key) && p w.author).map
        fun w => ⟨w.author, w.effect⟩ := by
  unfold liveWrites
  rw [find?_map, find?_filter]
  congr 2
  funext w
  by_cases hw : p w.author = true
  · simp [hw, hp _ hw]
  · simp [hw]

/-- A read gives the reference value. -/
theorem Recorded.read {s : PagedStore} {owner : TupleLocator → Bytes} {writes : List Write}
    (h : StoreInv o s taken owner chains) (hrec : Recorded s.transactions taken writes chains)
    {e : Taken} (he : e ∈ taken) (hown : s.transactions.live e.snapshot.xid) (key : Bytes) :
    readChain (fun y => s.transactions.xidVisible y e.snapshot) (versions (chains key)) =
      referenceValue writes e key := by
  have hauthor : ∀ w ∈ liveWrites s.transactions writes key, w.author ≠ 0 := by
    intro w hw
    obtain ⟨w', hw', rfl⟩ := mem_map.mp hw
    exact hrec.authors w' (mem_of_mem_filter hw')
  have hsees : ∀ w ∈ liveWrites s.transactions writes key,
      s.transactions.xidVisible w.author e.snapshot =
        (decide (w.author = e.snapshot.xid) || decide (w.author ∈ e.committed)) := by
    intro w hw
    rw [Bool.eq_iff_iff, h.snapshots.sees_iff he (hauthor w hw)]
    simp
  have hcommitted : ∀ y ∈ e.committed, y ≠ e.snapshot.xid := by
    rintro y hy rfl
    obtain ⟨hne, hbegan, -⟩ := (h.snapshots.seen e he _).mp hy
    have hxmax := (h.snapshots.own e he hne).2
    simp [Snapshot.beganBefore, hxmax] at hbegan
  have hlast : (liveWrites s.transactions writes key).Pairwise fun newer older =>
      decide (newer.author ∈ e.committed) = true → decide (older.author = e.snapshot.xid) = true →
        decide (newer.author = e.snapshot.xid) = true := by
    refine (hrec.ordered key).imp fun {newer older} hsaw hnewer holder => ?_
    rw [decide_eq_true_eq] at hnewer holder ⊢
    rcases hsaw with hsame | hsaw
    · exact hsame.symm.trans holder
    · exact absurd holder (hcommitted _ (h.snapshots.closed e he _ _ hnewer hsaw))
  have hclosed : (liveWrites s.transactions writes key).Pairwise fun newer older =>
      s.transactions.xidVisible newer.author e.snapshot = true →
        s.transactions.xidVisible older.author e.snapshot = true := by
    refine (hrec.ordered key).imp_of_mem fun {newer older} hn _ hsaw hnewer => ?_
    rcases hsaw with hsame | hsaw
    · rwa [hsame]
    · exact h.snapshots.sees_back he (hauthor newer hn) hnewer hsaw
  have hlive : ∀ y, decide (y ∈ e.committed) = true → s.transactions.live y := by
    intro y hy
    rw [decide_eq_true_eq] at hy
    simp [live, ((h.snapshots.seen e he y).mp hy).2.2]
  rw [(hrec.records key).read (fun y => SnapshotsOk.sees_live hown) (by simp) hclosed,
    lastSeen_own _ (fun y => decide (y = e.snapshot.xid)) (fun y => decide (y ∈ e.committed)) hsees
      hlast, lastSeen,
    find_liveWrites (fun y => decide (y = e.snapshot.xid)) (fun y hy => by
      rw [decide_eq_true_eq] at hy
      exact hy ▸ hown),
    find_liveWrites (fun y => decide (y ∈ e.committed)) hlive]
  unfold referenceValue
  cases writes.find? fun w => decide (w.key = key) && decide (w.author = e.snapshot.xid) with
  | some w => rfl
  | none =>
    cases writes.find? fun w => decide (w.key = key) && decide (w.author ∈ e.committed) <;> rfl

/-- **Snapshot isolation** where no put goes over a row that another transaction has deleted. -/
theorem snapshotIsolation (o : Options) {sys : System}
    (h : Reach (System.step o) (IsolationSafe o) (System.new o) sys) {e : Taken}
    (he : e ∈ sys.taken) (hown : sys.store.transactions.status e.snapshot.xid ≠ .aborted)
    (key : Bytes) :
    sys.store.getAsOf o e.snapshot key = .ok (referenceValue sys.writes e key) := by
  obtain ⟨owner, chains, hinv, hrec⟩ := Recorded.reach h
  have hok := hinv.chains.ok key
  rw [PagedStore.getAsOf_eq (hinv.chains.chain key) hok.readable hok.short,
    hrec.read hinv he hown key]

/-- A transaction deletes what another wrote; a third, begun in between, still reads it. -/
def concurrentRun : List Action :=
  [.beginTransaction, .put ⟨1, 0, 1⟩ 1 [107] [1], .commit 1,
    .beginTransaction, .beginTransaction, .delete 2 [107], .commit 2, .latestSnapshot]

/-- Every snapshot reads its reference value, and not all the same. -/
theorem snapshotIsolation_concurrentRun :
    ∃ sys, Reach (System.step smallPages) (IsolationSafe smallPages) (System.new smallPages) sys ∧
      (sys.taken.map fun e => referenceValue sys.writes e [107]) =
        [none, some [1], none, some [1]] ∧
      ∀ e ∈ sys.taken, sys.store.getAsOf smallPages e.snapshot [107] =
        .ok (referenceValue sys.writes e [107]) :=
  exists_reach_imp (fun sys => (sys.taken.map fun e => referenceValue sys.writes e [107]) =
      [none, some [1], none, some [1]] ∧
      ∀ e ∈ sys.taken, sys.store.transactions.status e.snapshot.xid ≠ .aborted) concurrentRun
    (by decide +kernel) fun hreach ⟨hvalues, hown⟩ =>
      ⟨hvalues, fun e he => snapshotIsolation smallPages hreach he (hown e he) _⟩

def reappearingRun : List Action :=
  [.beginTransaction, .put ⟨1, 0, 1⟩ 1 [107] [1], .commit 1,
    .beginTransaction, .delete 2 [107], .commit 2,
    .beginTransaction, .put ⟨1, 1, 1⟩ 3 [107] [3], .abort 3, .latestSnapshot]

/-- **A deleted key comes back**: the aborted put has replaced the stamp of the delete. -/
theorem deleted_key_reappears :
    ∃ sys, Reach (System.step smallPages) (PutFits smallPages) (System.new smallPages) sys ∧
      ∃ e ∈ sys.taken, e.snapshot = sys.store.latestSnapshot ∧
        [(sys.store.getAsOf smallPages e.snapshot [107]).toOption,
          some (referenceValue sys.writes e [107])] = [some (some [1]), some none] :=
  exists_reach reappearingRun (by decide +kernel)

/-! ## Lost updates -/

/-- **No update is lost** where no put goes over a row that another transaction has deleted. -/
theorem committed_writers_ordered (o : Options) {sys : System}
    (h : Reach (System.step o) (IsolationSafe o) (System.new o) sys) {v w : Write}
    (hv : v ∈ sys.writes) (hw : w ∈ sys.writes) (hkey : v.key = w.key)
    (hne : v.author ≠ w.author)
    (hvc : sys.store.transactions.status v.author = .committed)
    (hwc : sys.store.transactions.status w.author = .committed) :
    Saw sys.taken v.author w.author ∨ Saw sys.taken w.author v.author := by
  obtain ⟨owner, chains, -, hrec⟩ := Recorded.reach h
  have hmem : ∀ u ∈ sys.writes, u.key = w.key →
      sys.store.transactions.status u.author = .committed →
      ⟨u.author, u.effect⟩ ∈ liveWrites sys.store.transactions sys.writes w.key := by
    intro u hu hk hcommitted
    apply mem_map_of_mem
    simp [hu, hk, live, hcommitted]
  -- which of the two writes is newer is not known, so the relation is made symmetric
  let Related : KeyWrite Nat Bytes → KeyWrite Nat Bytes → Prop := fun a b =>
    a.author = b.author ∨ Saw sys.taken a.author b.author ∨ Saw sys.taken b.author a.author
  have hsymm : Std.Symm Related := ⟨fun _ _ h => h.imp Eq.symm Or.symm⟩
  have hrelated : (liveWrites sys.store.transactions sys.writes w.key).Pairwise Related :=
    (hrec.ordered w.key).imp fun hsaw => hsaw.imp Eq.symm .inl
  exact (hrelated.forall_of_forall (fun _ _ => .inl rfl) (hmem v hv hkey hvc)
    (hmem w hw rfl hwc)).resolve_left hne

/-- The transaction that deleted had seen the one that wrote. -/
theorem committed_writers_ordered_concurrentRun :
    ∃ sys, Reach (System.step smallPages) (IsolationSafe smallPages) (System.new smallPages) sys ∧
      sys.writes = [⟨2, [107], none⟩, ⟨1, [107], some [1]⟩] ∧
      (Saw sys.taken 2 1 ∨ Saw sys.taken 1 2) :=
  exists_reach_imp (fun sys => sys.writes = [⟨2, [107], none⟩, ⟨1, [107], some [1]⟩] ∧
      sys.store.transactions.status 1 = .committed ∧
      sys.store.transactions.status 2 = .committed) concurrentRun (by decide +kernel)
    fun hreach ⟨hwrites, hfirst, hsecond⟩ => ⟨hwrites,
      committed_writers_ordered smallPages hreach (v := ⟨2, [107], none⟩)
        (w := ⟨1, [107], some [1]⟩) (by simp [hwrites]) (by simp [hwrites]) rfl (by decide) hsecond
        hfirst⟩

/-- The put of 4, which aborts, takes away the stamp of the delete by 2, so that 3 does not notice
it. -/
def lostUpdateRun : List Action :=
  [.beginTransaction, .put ⟨1, 0, 1⟩ 1 [107] [1], .commit 1,
    .beginTransaction, .beginTransaction, .delete 2 [107], .commit 2,
    .beginTransaction, .put ⟨1, 1, 1⟩ 4 [107] [4], .abort 4, .put ⟨1, 2, 1⟩ 3 [107] [3], .commit 3]

instance (taken : List Taken) (x y : Nat) : Decidable (Saw taken x y) :=
  inferInstanceAs (Decidable (∃ e ∈ taken, _))

/-- **An update is lost**: both committed, and neither saw the other. -/
theorem concurrent_writers_both_commit :
    ∃ sys, Reach (System.step smallPages) (PutFits smallPages) (System.new smallPages) sys ∧
      ⟨2, [107], none⟩ ∈ sys.writes ∧ ⟨3, [107], some [3]⟩ ∈ sys.writes ∧
      sys.store.transactions.status 2 = .committed ∧
      sys.store.transactions.status 3 = .committed ∧
      ¬ Saw sys.taken 2 3 ∧ ¬ Saw sys.taken 3 2 :=
  exists_reach lostUpdateRun (by decide +kernel)

end BicDb.Paged
