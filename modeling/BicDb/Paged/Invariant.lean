import BicDb.Paged.System

/-!
# Snapshots and chains in order

`SnapshotsOk`: a snapshot sees what had committed when it was taken, closed under what transactions
saw. `ChainsOk`: the versions of a key form a chain, apart from other keys, in which the maker of a
version stamped the live one below, having seen it. Both hold whatever vacuum removes.
-/

namespace BicDb.Paged

open BicDb.Foundation List Function TransactionTable Version

/-! ## Snapshots -/

/-- The snapshot of `x` shows `y` committed. -/
def Saw (taken : List Taken) (x y : Nat) : Prop :=
  ∃ e ∈ taken, e.snapshot.xid = x ∧ y ∈ e.committed

/-- The snapshots taken fit the table. -/
structure SnapshotsOk (t : TransactionTable) (snapshots : Nat → Option Snapshot)
    (taken : List Taken) : Prop where
  /-- What had committed is what can be seen, for good. -/
  seen : ∀ e ∈ taken, ∀ y, y ∈ e.committed ↔
    y ≠ 0 ∧ e.snapshot.beganBefore y = true ∧ t.status y = .committed
  /-- What a snapshot takes for finished does not run. -/
  finished : ∀ e ∈ taken, ∀ y, e.snapshot.beganBefore y = true → y ∉ t.inProgress ∧ y < t.nextXid
  own : ∀ e ∈ taken, e.snapshot.xid ≠ 0 →
    e.snapshot.xid < t.nextXid ∧ e.snapshot.xmax = e.snapshot.xid
  unique : ∀ e ∈ taken, ∀ e' ∈ taken, e.snapshot.xid ≠ 0 → e.snapshot.xid = e'.snapshot.xid → e = e'
  closed : ∀ e ∈ taken, ∀ x y, x ∈ e.committed → Saw taken x y → y ∈ e.committed
  running : ∀ x ∈ t.inProgress, ∃ e ∈ taken, e.snapshot.xid = x ∧ snapshots x = some e.snapshot

namespace SnapshotsOk

variable {t : TransactionTable} {snapshots : Nat → Option Snapshot} {taken : List Taken}

theorem new (capacity : Nat) :
    SnapshotsOk (.withExceptionCapacity capacity) (fun _ => none) [] := by
  constructor <;> simp [withExceptionCapacity]

variable {t' : TransactionTable}

theorem frame (h : SnapshotsOk t snapshots taken) (hnext : t'.nextXid = t.nextXid)
    (hrun : t'.inProgress = t.inProgress) (hstatus : ∀ x, t'.status x = t.status x) :
    SnapshotsOk t' snapshots taken := by
  refine ⟨?_, ?_, ?_, h.unique, h.closed, ?_⟩
  · intro e he y
    rw [hstatus]
    exact h.seen e he y
  · rw [hrun, hnext]
    exact h.finished
  · rw [hnext]
    exact h.own
  · rw [hrun]
    exact h.running

theorem mem_committedNow (ht : TableOk t) (y : Nat) :
    y ∈ t.committedNow ↔ y ≠ 0 ∧ t.status y = .committed := by
  simp only [committedNow, mem_filter, mem_range, Bool.and_eq_true,
    decide_eq_true_eq, and_iff_right_iff_imp]
  rintro ⟨-, hc⟩
  by_contra hlt
  rw [ht.status_unissued (by omega)] at hc
  cases hc

variable {y : Nat}

theorem began_of_committed (ht : TableOk t) {xid : Nat} (hc : t.status y = .committed) :
    Snapshot.beganBefore ⟨xid, t.nextXid, t.inProgress⟩ y = true := by
  simp only [Snapshot.beganBefore, Bool.and_eq_true, decide_eq_true_eq, Bool.not_eq_true',
    decide_eq_false_iff_not]
  constructor
  · by_contra hlt
    rw [ht.status_unissued (by omega)] at hc
    cases hc
  · intro hrun
    rw [ht.status_running hrun] at hc
    cases hc

/-- A new snapshot fits the table. -/
theorem take (h : SnapshotsOk t snapshots taken) (ht : TableOk t)
    {snapshots' : Nat → Option Snapshot} {xid : Nat} (hstatus : ∀ x, t'.status x = t.status x)
    (hnext : t.nextXid ≤ t'.nextXid) (hxid : xid ≠ 0 → xid = t.nextXid ∧ t.nextXid < t'.nextXid)
    (hrun : ∀ x ∈ t'.inProgress, x ∈ t.inProgress ∧ snapshots' x = snapshots x ∨
      x = t.nextXid ∧ xid = x ∧ snapshots' x = some ⟨xid, t.nextXid, t.inProgress⟩) :
    SnapshotsOk t' snapshots' (⟨⟨xid, t.nextXid, t.inProgress⟩, t.committedNow⟩ :: taken) := by
  have hnot : ∀ x ∈ t'.inProgress, ∀ y, y ∉ t.inProgress → y < t.nextXid → y ≠ x := by
    rintro x hx y hy hlt rfl
    rcases hrun y hx with hold | hnew
    · exact hy hold.1
    · exact hlt.ne hnew.1
  have hfresh : ∀ x, x ≠ 0 → t.status x = .committed → xid ≠ x := by
    rintro x hx hc rfl
    rw [ht.status_unissued (hxid hx).1.ge] at hc
    cases hc
  refine ⟨?_, ?_, ?_, ?_, ?_, ?_⟩
  · rw [forall_mem_cons]
    constructor
    · intro y
      rw [mem_committedNow ht, hstatus]
      exact ⟨fun hy => ⟨hy.1, began_of_committed ht hy.2, hy.2⟩, fun hy => ⟨hy.1, hy.2.2⟩⟩
    · intro e he y
      rw [hstatus]
      exact h.seen e he y
  · rw [forall_mem_cons]
    constructor
    · intro y hy
      simp only [Snapshot.beganBefore, Bool.and_eq_true, decide_eq_true_eq, Bool.not_eq_true',
        decide_eq_false_iff_not] at hy
      exact ⟨fun hrun' => hnot y hrun' y hy.2 hy.1 rfl, by omega⟩
    · intro e he y hy
      obtain ⟨hstopped, hlt⟩ := h.finished e he y hy
      exact ⟨fun hrun' => hnot y hrun' y hstopped hlt rfl, by omega⟩
  · rw [forall_mem_cons]
    constructor
    · intro hne
      obtain ⟨heq, hlt⟩ := hxid hne
      exact ⟨heq ▸ hlt, heq.symm⟩
    · intro e he hne
      obtain ⟨hlt, heq⟩ := h.own e he hne
      exact ⟨by omega, heq⟩
  · -- the new id is larger than those of earlier snapshots
    have hold : ∀ e ∈ taken, xid ≠ 0 → xid ≠ e.snapshot.xid := by
      intro e he hne heq
      have hlt := (h.own e he (heq ▸ hne)).1
      omega
    rw [forall_mem_cons]
    constructor
    · rw [forall_mem_cons]
      exact ⟨fun _ _ => rfl, fun e he hne heq => absurd heq (hold e he hne)⟩
    · intro e he
      rw [forall_mem_cons]
      refine ⟨fun hne heq => absurd heq.symm (hold e he fun h0 => hne (heq.trans h0)), ?_⟩
      exact h.unique e he
  · rw [forall_mem_cons]
    constructor
    · rintro x y hx ⟨e, he, rfl, hy⟩
      rw [mem_committedNow ht] at hx ⊢
      rcases mem_cons.mp he with rfl | he
      · exact absurd rfl (hfresh _ hx.1 hx.2)
      · have hy' := (h.seen e he y).mp hy
        exact ⟨hy'.1, hy'.2.2⟩
    · rintro e he x y hx ⟨e', he', rfl, hy⟩
      rcases mem_cons.mp he' with rfl | he'
      · have hx' := (h.seen e he _).mp hx
        exact absurd rfl (hfresh _ hx'.1 hx'.2.2)
      · exact h.closed e he _ y hx ⟨e', he', rfl, hy⟩
  · intro x hx
    rcases hrun x hx with ⟨hold, hsame⟩ | ⟨-, heq, hnew⟩
    · obtain ⟨e, he, hex, hsnap⟩ := h.running x hold
      exact ⟨e, mem_cons_of_mem _ he, hex, hsame.trans hsnap⟩
    · exact ⟨_, mem_cons_self, heq, hnew⟩

variable {x : Nat}

theorem finish (h : SnapshotsOk t snapshots taken) {s : TxStatus} (hx : x ∈ t.inProgress)
    (hstatus : ∀ y, t'.status y = if y = x then s else t.status y) (hnext : t'.nextXid = t.nextXid)
    (hrun : t'.inProgress = t.inProgress.filter fun y => decide (y ≠ x)) :
    SnapshotsOk t' (update snapshots x none) taken := by
  refine ⟨?_, ?_, ?_, h.unique, h.closed, ?_⟩
  · intro e he y
    rw [h.seen e he y, hstatus]
    by_cases hy : y = x
    · -- a snapshot does not take a running transaction for finished
      have hnot : ¬ e.snapshot.beganBefore y = true := fun hb =>
        (h.finished e he y hb).1 (hy ▸ hx)
      simp [hnot]
    · simp [hy]
  · intro e he y hy
    rw [hnext, hrun]
    obtain ⟨hstopped, hlt⟩ := h.finished e he y hy
    exact ⟨fun hmem => hstopped (mem_of_mem_filter hmem), hlt⟩
  · rw [hnext]
    exact h.own
  · intro y hy
    rw [hrun, mem_filter, decide_eq_true_eq] at hy
    rw [update_of_ne hy.2]
    exact h.running y hy.1

variable {e : Taken}

theorem sees_iff (h : SnapshotsOk t snapshots taken) (he : e ∈ taken) (hy : y ≠ 0) :
    t.xidVisible y e.snapshot = true ↔ y = e.snapshot.xid ∨ y ∈ e.committed := by
  simp [xidVisible, h.seen e he y, hy]

theorem sees_back (h : SnapshotsOk t snapshots taken) (he : e ∈ taken) (hx : x ≠ 0)
    (hsees : t.xidVisible x e.snapshot = true) (hsaw : Saw taken x y) :
    t.xidVisible y e.snapshot = true := by
  have hy : y ≠ 0 := by
    obtain ⟨e', he', -, hy⟩ := hsaw
    exact ((h.seen e' he' y).mp hy).1
  rw [h.sees_iff he hy]
  rcases (h.sees_iff he hx).mp hsees with rfl | hmem
  · obtain ⟨e', he', hxid, hy'⟩ := hsaw
    rw [h.unique e he e' he' hx hxid.symm]
    exact .inr hy'
  · exact .inr (h.closed e he x y hmem hsaw)

theorem sees_live (hown : t.live e.snapshot.xid) (hsees : t.xidVisible y e.snapshot = true) :
    t.live y := by
  simp only [xidVisible, Bool.or_eq_true, Bool.and_eq_true, decide_eq_true_eq] at hsees
  rcases hsees with (rfl | rfl) | ⟨-, hc⟩
  · simp [live, status]
  · exact hown
  · simp [live, hc]

end SnapshotsOk

/-! ## Chains -/

/-- Walkable, readable, and stamped by who had seen the maker. -/
structure ChainOk (o : Options) (t : TransactionTable) (taken : List Taken)
    (xs : List (TupleLocator × Version)) : Prop where
  short : xs.length < maxVersionChain
  readable : ∀ p ∈ xs, o.readable p.2 = true
  born : ∀ p ∈ xs, p.2.header.xmin ≠ 0
  chained : Chained t.live (versions xs)
  deleted : ∀ v ∈ versions xs, ∀ d, v.dead = some d → v.born = d ∨ Saw taken d v.born

/-- The versions of each key, newest first. -/
abbrev Chains := Bytes → List (TupleLocator × Version)

/-- Heap and index in order; `owner` names the key of a place. -/
structure ChainsOk (o : Options) (s : PagedStore) (taken : List Taken)
    (owner : TupleLocator → Bytes) (chains : Chains) : Prop where
  stored : ∀ l v, s.heap.tuples l = some v → l ∈ s.heap.issued
  pointed : ∀ l v p, s.heap.tuples l = some v → v.prev = some p →
    p ∈ s.heap.issued ∧ owner p = owner l
  indexed : ∀ k l, s.index k = some l → l ∈ s.heap.issued ∧ owner l = k ∧ o.keyFits k = true
  chain : ∀ k, VersionChain s.heap (s.index k) (chains k)
  ok : ∀ k, ChainOk o s.transactions taken (chains k)

namespace ChainOk

variable {o : Options} {t : TransactionTable} {taken : List Taken}
  {xs ys : List (TupleLocator × Version)}

theorem nil : ChainOk o t taken [] :=
  ⟨by decide, by simp, by simp, isChain_nil, by simp⟩

theorem mono {t' : TransactionTable} {taken' : List Taken} (h : ChainOk o t taken xs)
    (hlive : ∀ x, t'.live x → t.live x) (htaken : ∀ e ∈ taken, e ∈ taken') :
    ChainOk o t' taken' xs := by
  refine ⟨h.short, h.readable, h.born, h.chained.mono hlive, ?_⟩
  intro v hv d hd
  rcases h.deleted v hv d hd with heq | ⟨e, he, hxid, hy⟩
  · exact .inl heq
  · exact .inr ⟨e, htaken e he, hxid, hy⟩

theorem part (h : ChainOk o t taken xs) (hlen : ys.length ≤ xs.length) (hsub : ys ⊆ xs)
    (hchained : Chained t.live (versions ys)) : ChainOk o t taken ys := by
  refine ⟨hlen.trans_lt h.short, fun p hp => h.readable p (hsub hp),
    fun p hp => h.born p (hsub hp), hchained, forall_mem_versions.2 fun p hp => ?_⟩
  exact forall_mem_versions.1 h.deleted p (hsub hp)

theorem cut (h : ChainOk o t taken (xs ++ ys)) : ChainOk o t taken xs := by
  have hchained := h.chained
  rw [versions_append] at hchained
  exact h.part (by simp) (subset_append_left _ _) hchained.left

theorem drop (h : ChainOk o t taken (xs ++ ys)) : ChainOk o t taken ys := by
  have hchained := h.chained
  rw [versions_append] at hchained
  exact h.part (by simp) (subset_append_right _ _) hchained.right

variable {skipped rest : List (TupleLocator × Version)} {l : TupleLocator} {b : Version} {x : Nat}

theorem stamp (h : ChainOk o t taken (skipped ++ (l, b) :: rest)) (hx : x ≠ 0)
    (hskip : ∀ p ∈ skipped, ¬ t.live p.2.header.xmin)
    (hsaw : b.header.xmin = x ∨ Saw taken x b.header.xmin) :
    ChainOk o t taken (skipped ++ (l, b.stamp x) :: rest) := by
  have hmem : ∀ p ∈ skipped ++ (l, b.stamp x) :: rest,
      p = (l, b.stamp x) ∨ p ∈ skipped ++ (l, b) :: rest := by
    intro p hp
    simp only [mem_append, mem_cons] at hp ⊢
    tauto
  have hbase : (l, b) ∈ skipped ++ (l, b) :: rest := by simp
  refine ⟨by simpa using h.short, ?_, ?_, ?_, ?_⟩
  · intro p hp
    rcases hmem p hp with rfl | hp
    · exact h.readable (l, b) hbase
    · exact h.readable p hp
  · intro p hp
    rcases hmem p hp with rfl | hp
    · exact h.born (l, b) hbase
    · exact h.born p hp
  · have hchained := h.chained
    simp only [versions_append, versions_cons, stamp_toVer hx] at hchained ⊢
    exact hchained.restamp_under (forall_mem_versions.2 hskip) _
  · refine forall_mem_versions.2 fun p hp => ?_
    rcases hmem p hp with rfl | hp
    · rintro d hd
      rw [stamp_toVer hx, Option.some.injEq] at hd
      subst hd
      exact hsaw
    · exact forall_mem_versions.1 h.deleted p hp

theorem push {place : TupleLocator} {v : Version} (h : ChainOk o t taken ((l, b.stamp x) :: rest))
    (hx : x ≠ 0) (hshort : rest.length + 2 < maxVersionChain) (hv : o.readable v = true)
    (hmin : v.header.xmin = x) (hmax : v.header.xmax = 0) :
    ChainOk o t taken ((place, v) :: (l, b.stamp x) :: rest) := by
  have hver : v.toVer = ⟨x, none, v.value⟩ := by simp [toVer, hmin, hmax]
  refine ⟨by simpa using hshort, ?_, ?_, ?_, ?_⟩
  · rw [forall_mem_cons]
    exact ⟨hv, h.readable⟩
  · rw [forall_mem_cons]
    exact ⟨hmin ▸ hx, h.born⟩
  · have hchained := h.chained
    simp only [versions_cons, stamp_toVer hx, hver] at hchained ⊢
    exact hchained.push
  · rw [versions_cons, forall_mem_cons]
    refine ⟨fun d hd => ?_, h.deleted⟩
    rw [hver] at hd
    cases hd

theorem single {place : TupleLocator} {v : Version} (hv : o.readable v = true)
    (hmin : v.header.xmin ≠ 0) (hmax : v.header.xmax = 0) : ChainOk o t taken [(place, v)] := by
  refine ⟨Nat.one_lt_succ_succ _, by simpa using hv, by simpa using hmin,
    isChain_singleton _, ?_⟩
  intro u hu d hd
  rw [versions_cons, versions_nil, mem_singleton] at hu
  simp [hu, toVer, hmax] at hd

end ChainOk

namespace ChainsOk

variable {o : Options} {s : PagedStore} {taken : List Taken} {owner : TupleLocator → Bytes}
  {chains : Chains} {key : Bytes} {x : Nat}

theorem new : ChainsOk o (.new o) [] owner fun _ => [] := by
  refine ⟨?_, ?_, ?_, fun k => .stop, fun k => .nil⟩ <;> simp [PagedStore.new, Heap.empty]

theorem frame (h : ChainsOk o s taken owner chains) {t' : TransactionTable}
    {snapshots : Nat → Option Snapshot} {taken' : List Taken}
    (hlive : ∀ x, t'.live x → s.transactions.live x) (htaken : ∀ e ∈ taken, e ∈ taken') :
    ChainsOk o { s with transactions := t', snapshots } taken' owner chains :=
  ⟨h.stored, h.pointed, h.indexed, h.chain, fun k => (h.ok k).mono hlive htaken⟩

variable {place : TupleLocator}

theorem fresh {h : Heap} (hplace : h.canPlace place = true) :
    place ∉ h.issued := by
  intro hmem
  have hall := all_eq_true.mp hplace place hmem
  simp at hall

variable (h : ChainsOk o s taken owner chains)

include h

theorem owner_eq : ∀ p ∈ chains key, owner p.1 = key := by
  apply (h.chain key).all (P := fun l => owner l = key)
  · exact fun l hl => (h.indexed key l hl).2.1
  · exact fun l v m hl hv hm => (h.pointed l v m hv hm).2.trans hl

theorem placed {previous : Option TupleLocator} {value : Bytes} (hfresh : place ∉ s.heap.issued)
    (hprev : ∀ p, previous = some p → p ∈ s.heap.issued ∧ owner p = key) :
    ChainsOk o (s.placed place x previous value) taken (update owner place key)
      chains := by
  have hne : ∀ l ∈ s.heap.issued, l ≠ place := fun l hl heq => hfresh (heq ▸ hl)
  refine ⟨?_, ?_, ?_, ?_, h.ok⟩
  · intro l v hl
    by_cases hlp : l = place
    · exact hlp ▸ mem_cons_self
    · exact mem_cons_of_mem _ (h.stored l v (by simpa [PagedStore.placed, Heap.insert, hlp]
        using hl))
  · intro l v p hl hp
    by_cases hlp : l = place
    · simp only [PagedStore.placed, Heap.insert, hlp, update_self, Option.some.injEq] at hl
      subst hl
      obtain ⟨hissued, howner⟩ := hprev p hp
      refine ⟨mem_cons_of_mem _ hissued, ?_⟩
      rw [update_of_ne (hne p hissued), hlp, update_self, howner]
    · obtain ⟨hissued, howner⟩ := h.pointed l v p (by simpa [PagedStore.placed, Heap.insert, hlp]
        using hl) hp
      refine ⟨mem_cons_of_mem _ hissued, ?_⟩
      rw [update_of_ne (hne p hissued), update_of_ne hlp, howner]
  · intro k l hl
    obtain ⟨hissued, howner, hfits⟩ := h.indexed k l hl
    refine ⟨mem_cons_of_mem _ hissued, ?_, hfits⟩
    rw [update_of_ne (hne l hissued), howner]
  · intro k
    apply (h.chain k).insert
    · exact fun hi => hfresh (h.indexed k place hi).1
    · exact fun l v hl hp => hfresh (h.pointed l v place hl hp).1

theorem reindex {xs : List (TupleLocator × Version)} (hplace : place ∈ s.heap.issued)
    (howner : owner place = key) (hfits : o.keyFits key = true)
    (hxs : VersionChain s.heap (some place) xs) (hok : ChainOk o s.transactions taken xs) :
    ChainsOk o { s with index := update s.index key (some place) } taken owner
      (update chains key xs) := by
  refine ⟨h.stored, h.pointed, ?_, ?_, ?_⟩
  · intro k l hl
    by_cases hk : k = key
    · simp only [hk, update_self, Option.some.injEq] at hl
      subst hl
      exact ⟨hplace, howner.trans hk.symm, hk ▸ hfits⟩
    · exact h.indexed k l (by simpa [hk] using hl)
  · intro k
    by_cases hk : k = key
    · simpa [hk] using hxs
    · simpa [hk] using h.chain k
  · intro k
    by_cases hk : k = key
    · simpa [hk] using hok
    · simpa [hk] using h.ok k

end ChainsOk

end BicDb.Paged
