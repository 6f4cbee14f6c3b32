import BicDb.Paged.Steps
import Mathlib.Data.List.TakeWhile

/-!
# When vacuum is invisible

Vacuum takes a version whose deleter has committed and is older than every running transaction,
although it may have been running when they began (`vacuum_hides_version`).
-/

namespace BicDb.Paged

open BicDb.Foundation List TransactionTable

/-- No deleter of a row that is gone for everyone is in flight for a running transaction. -/
def NoneInFlight (s : PagedStore) : Prop :=
  ∀ l ∈ s.heap.issued, ∀ v ∈ s.heap.tuples l,
    s.transactions.deletedForEveryone s.transactions.oldestInProgressOrNext v.header = true →
      ∀ x ∈ s.transactions.inProgress, v.header.xmax ∉ (s.snapshotOf x).inFlight

instance (s : PagedStore) : Decidable (NoneInFlight s) :=
  inferInstanceAs (Decidable (∀ l ∈ s.heap.issued, ∀ v ∈ s.heap.tuples l, _ → _))

/-! ## Reading a chain that is cut -/

variable {o : Options} {t : TransactionTable} {snapshots : Nat → Option Snapshot}
  {taken : List Taken} {e : Taken} {xs : List (TupleLocator × Version)}

theorem ChainOk.sees_back (h : ChainOk o t taken xs) (hs : SnapshotsOk t snapshots taken)
    (he : e ∈ taken) : ∀ u ∈ versions xs, ∀ d, u.dead = some d →
      t.xidVisible d e.snapshot = true → t.xidVisible u.born e.snapshot = true := by
  intro u hu d hd hsees
  rcases h.deleted u hu d hd with rfl | hsaw
  · exact hsees
  · obtain ⟨p, -, rfl⟩ := mem_map.mp hu
    exact hs.sees_back he (Version.toVer_dead.mp hd).2 hsees hsaw

theorem TransactionTable.deletedForEveryone_dead {oldestActive : Nat} {v : Version}
    (h : t.deletedForEveryone oldestActive v.header = true) :
    v.toVer.dead = some v.header.xmax ∧ v.header.xmax < oldestActive ∧
      t.status v.header.xmax = .committed := by
  simp only [deletedForEveryone, ne_eq, Bool.and_eq_true, decide_eq_true_eq] at h
  simp [Version.toVer, h.1.1, h.1.2, h.2]

/-- **A reclaimable version goes unnoticed** by a reader that sees every such deleter. -/
theorem readChain_reclaim {heap : Heap} {cursor : Option TupleLocator} {oldestActive : Nat}
    {l : TupleLocator} {v : Version} (hxs : VersionChain heap cursor xs)
    (hok : ChainOk o t taken xs) (hs : SnapshotsOk t snapshots taken) (he : e ∈ taken)
    (hown : t.live e.snapshot.xid) (hl : heap.tuples l = some v)
    (hreclaim : heap.reclaimable t oldestActive v = true)
    (hsees : ∀ m u, heap.tuples m = some u → t.deletedForEveryone oldestActive u.header = true →
      t.xidVisible u.header.xmax e.snapshot = true) :
    readChain (fun y => t.xidVisible y e.snapshot)
        (versions (xs.takeWhile fun p => decide (p.1 ≠ l))) =
      readChain (fun y => t.xidVisible y e.snapshot) (versions xs) := by
  by_cases hmem : ∃ p ∈ xs, p.1 = l
  swap
  · push Not at hmem
    rw [takeWhile_eq_self_iff.mpr fun p hp => by simpa using hmem p hp]
  obtain ⟨⟨l', v'⟩, hp, rfl⟩ := hmem
  obtain ⟨above, below, rfl⟩ := append_of_mem hp
  obtain rfl : v' = v := by
    have hstored := hxs.stored _ hp
    rw [hl] at hstored
    exact (Option.some.inj hstored).symm
  -- the chain is cut right above the version
  have htake : (above ++ (l', v') :: below).takeWhile (fun p => decide (p.1 ≠ l')) = above := by
    have hnodup := hxs.nodup
    rw [map_append, nodup_append] at hnodup
    rw [takeWhile_append_of_pos, takeWhile_cons_of_neg (by simp), append_nil]
    intro p hp
    simpa using hnodup.2.2 p.1 (mem_map_of_mem hp) l' (by simp)
  rw [htake]
  have hchained := hok.chained
  have hback := hok.sees_back hs he
  rw [versions_append, versions_cons] at hchained hback ⊢
  refine (readChain_cut hchained (fun y => SnapshotsOk.sees_live hown) hback ?_).symm
  have hdeleted : ∀ m u, heap.tuples m = some u →
      t.deletedForEveryone oldestActive u.header = true →
      ∃ d, u.toVer.dead = some d ∧ t.xidVisible d e.snapshot = true := by
    intro m u hm hu
    exact ⟨_, (t.deletedForEveryone_dead hu).1, hsees m u hm hu⟩
  simp only [Heap.reclaimable, Bool.or_eq_true, Bool.and_eq_true, decide_eq_true_eq] at hreclaim
  rcases hreclaim with ⟨haborted, hbelow⟩ | hgone
  · refine .inr ⟨fun hlive => hlive haborted, ?_⟩
    intro u hu
    cases hxs.drop with
    | node _ hrest =>
      generalize hprev : Version.prev v' = cursor' at hrest
      cases hrest with
      | stop => simp at hu
      | broken _ => simp at hu
      | @node m w rest hm _ =>
        simp only [versions_cons, head?_cons, Option.mem_def, Option.some.injEq] at hu
        subst hu
        apply hdeleted m w hm
        rw [show v'.header.prev = some m from hprev] at hbelow
        simpa [Heap.nothingNeededBelow, hm] using hbelow
  · exact .inl (hdeleted l' v' hl hgone)

/-! ## Reading after a vacuum step -/

section Step

variable {s : PagedStore} {owner : TupleLocator → Bytes} {chains : Chains}

/-- The heap has lost versions, but reads by the snapshot of `e` are as before. -/
def ReadsAs (o : Options) (s : PagedStore) (taken : List Taken) (owner : TupleLocator → Bytes)
    (chains : Chains) (e : Taken) (heap : Heap) : Prop :=
  (∀ l v, heap.tuples l = some v → s.heap.tuples l = some v) ∧
    ∃ chains', ChainsOk o { s with heap } taken owner chains' ∧
      ∀ k, readChain (fun y => s.transactions.xidVisible y e.snapshot) (versions (chains' k)) =
        readChain (fun y => s.transactions.xidVisible y e.snapshot) (versions (chains k))

variable (h : StoreInv o s taken owner chains)

include h

section

variable (he : e ∈ taken) (hown : s.transactions.live e.snapshot.xid)
  (hsees : ∀ l v, s.heap.tuples l = some v →
    s.transactions.deletedForEveryone s.transactions.oldestInProgressOrNext v.header = true →
    s.transactions.xidVisible v.header.xmax e.snapshot = true)

include he hown hsees

theorem StoreInv.readsAs_reclaim :
    KeptByReclaim s.transactions s.transactions.oldestInProgressOrNext
      (ReadsAs o s taken owner chains e) := by
  rintro heap l v ⟨hsub, chains', hchains, hsame⟩ hl hreclaim
  refine ⟨fun m u hm => ?_, _, hchains.reclaim l, fun k => ?_⟩
  · apply hsub m u
    by_cases hml : m = l
    · simp [Heap.delete, hml] at hm
    · simpa [Heap.delete, hml] using hm
  · rw [← hsame k]
    exact readChain_reclaim (hchains.chain k) (hchains.ok k) h.snapshots he hown hl hreclaim
      fun m u hm => hsees m u (hsub m u hm)

/-- A step changes no read of a snapshot that sees every such deleter. -/
theorem StoreInv.vacuum_read (cursor : Option Nat) (limits : VacuumLimits) (expired : Nat → Bool)
    (key : Bytes) :
    (s.vacuumStep o cursor limits expired).2.getAsOf o e.snapshot key =
      s.getAsOf o e.snapshot key := by
  have hpages : ∀ (heap : Heap) (pages : List Nat), ReadsAs o s taken owner chains e heap →
      ReadsAs o s taken owner chains e { heap with pages } := by
    rintro heap pages ⟨hsub, chains', hchains, hsame⟩
    exact ⟨hsub, chains',
      ⟨hchains.stored, hchains.pointed, hchains.indexed, hchains.chain, hchains.ok⟩, hsame⟩
  obtain ⟨heap, heq, -, chains', hchains, hsame⟩ := s.vacuumStep_induct cursor limits
    expired (h.readsAs_reclaim he hown hsees) hpages
    ⟨fun _ _ hl => hl, chains, h.chains, fun _ => rfl⟩
  rw [heq, PagedStore.getAsOf_eq (hchains.chain key) (hchains.ok key).readable
      (hchains.ok key).short,
    PagedStore.getAsOf_eq (h.chains.chain key) (h.chains.ok key).readable (h.chains.ok key).short]
  exact congrArg Except.ok (hsame key)

end

end Step

/-- **Vacuum is invisible** where no deleter below the horizon is in flight for a running
transaction. -/
theorem vacuum_invisible (o : Options) {sys : System}
    (h : Reach (System.step o) (PutFits o) (System.new o) sys) (hnone : NoneInFlight sys.store)
    (cursor : Option Nat) (limits : VacuumLimits) (expired : Nat → Bool) (key : Bytes) :
    let after := (sys.store.vacuumStep o cursor limits expired).2
    (∀ e ∈ sys.taken, e.snapshot.xid ∈ sys.store.transactions.inProgress →
      after.getAsOf o e.snapshot key = sys.store.getAsOf o e.snapshot key) ∧
    after.getAsOf o after.latestSnapshot key =
      sys.store.getAsOf o sys.store.latestSnapshot key := by
  obtain ⟨owner, chains, hinv⟩ := StoreInv.reach h
  constructor
  · intro e he hrun
    refine hinv.vacuum_read he (hinv.of_running hrun).2.1 (fun l v hl hdel => ?_) cursor limits
      expired key
    -- the snapshot sees whoever committed below the horizon, unless it was in flight
    obtain ⟨-, hlt, hc⟩ := sys.store.transactions.deletedForEveryone_dead hdel
    obtain ⟨hx0, -, e', he', hxid, -, hof⟩ := hinv.of_running hrun
    obtain rfl := hinv.snapshots.unique e he e' he' hx0 hxid.symm
    have hfree := hnone l (hinv.chains.stored l v hl) v hl hdel _ hrun
    rw [hof] at hfree
    have hxmax := (hinv.snapshots.own e he hx0).2
    have hold := hinv.table.oldest_le hrun
    simp only [xidVisible, Snapshot.beganBefore, Bool.or_eq_true,
      Bool.and_eq_true, decide_eq_true_eq, Bool.not_eq_true', decide_eq_false_iff_not]
    exact .inr ⟨⟨by omega, hfree⟩, hc⟩
  · have hlatest : (sys.store.vacuumStep o cursor limits expired).2.latestSnapshot =
        sys.store.latestSnapshot := by
      obtain ⟨heap, heq, -⟩ := sys.store.vacuumStep_induct (P := fun _ => True) cursor
        limits expired (fun _ _ _ _ _ _ => trivial) (fun _ _ _ => trivial) trivial
      rw [heq]
      rfl
    rw [hlatest]
    refine hinv.latest.vacuum_read mem_cons_self ?_ (fun l v _ hdel => ?_) cursor limits expired key
    · simp [live, status, PagedStore.latestSnapshot, latestSnapshot]
    · obtain ⟨-, -, hc⟩ := sys.store.transactions.deletedForEveryone_dead hdel
      simp [xidVisible, PagedStore.latestSnapshot,
        latestSnapshot, SnapshotsOk.began_of_committed hinv.table hc, hc]

def smallPages : Options := .forPageSize 8192

def updatedRun : List Action :=
  [.beginTransaction, .put ⟨1, 0, 1⟩ 1 [107] [1], .commit 1,
    .beginTransaction, .put ⟨1, 1, 1⟩ 2 [107] [2], .commit 2, .beginTransaction]

/-- The step takes the first version, and nobody notices. -/
theorem vacuum_invisible_updatedRun :
    ∃ sys, Reach (System.step smallPages) (PutFits smallPages) (System.new smallPages) sys ∧
      (NoneInFlight sys.store ∧
        (sys.store.vacuumStep smallPages none .default fun _ => false).1.toOption.map
          (·.versionsReclaimed) = some 1) ∧
      (∀ e ∈ sys.taken, e.snapshot.xid ∈ sys.store.transactions.inProgress →
        (sys.store.vacuumStep smallPages none .default fun _ => false).2.getAsOf smallPages
          e.snapshot [107] = sys.store.getAsOf smallPages e.snapshot [107]) :=
  exists_reach_imp (fun sys => NoneInFlight sys.store ∧
      (sys.store.vacuumStep smallPages none .default fun _ => false).1.toOption.map
        (·.versionsReclaimed) = some 1) updatedRun (by decide +kernel)
    fun hreach hnone => ⟨hnone,
      (vacuum_invisible smallPages hreach hnone.1 none .default (fun _ => false) [107]).1⟩

def deletedRun : List Action :=
  [.beginTransaction, .put ⟨1, 0, 1⟩ 1 [107] [1], .commit 1,
    .beginTransaction, .beginTransaction, .delete 2 [107], .commit 2]

/-- **Vacuum takes a row from under a running transaction.** -/
theorem vacuum_hides_version :
    ∃ sys, Reach (System.step smallPages) (PutFits smallPages) (System.new smallPages) sys ∧
      ∃ e ∈ sys.taken, e.snapshot.xid ∈ sys.store.transactions.inProgress ∧
        [sys.store.getAsOf smallPages e.snapshot [107],
          (sys.store.vacuumStep smallPages none .default fun _ => false).2.getAsOf smallPages
            e.snapshot [107]].map Except.toOption = [some (some [1]), some none] :=
  exists_reach deletedRun (by decide +kernel)

end BicDb.Paged
