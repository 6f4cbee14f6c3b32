import BicDb.Paged.Invariant

/-!
# Every call keeps the store in order

`StoreInv` joins the invariants of table, snapshots and chains; a call keeps it as long as every put
fits.
-/

namespace BicDb.Paged

open BicDb.Foundation Function List TransactionTable

/-! ## Stamping and reclaiming -/

/-- The chain with one version stamped. -/
def restamp (l : TupleLocator) (x : Nat) (xs : List (TupleLocator × Version)) :
    List (TupleLocator × Version) :=
  xs.map fun p => (p.1, if p.1 = l then p.2.stamp x else p.2)

variable {l : TupleLocator} {b : Version} {x : Nat}
  {xs skipped rest : List (TupleLocator × Version)}

theorem restamp_of_not_mem (h : ∀ p ∈ xs, p.1 ≠ l) :
    restamp l x xs = xs := by
  refine (map_congr_left fun p hp => ?_).trans (map_id xs)
  simp [h p hp]

theorem restamp_split
    (h : ((skipped ++ (l, b) :: rest).map Prod.fst).Nodup) :
    restamp l x (skipped ++ (l, b) :: rest) = skipped ++ (l, b.stamp x) :: rest := by
  rw [map_append, map_cons, nodup_append, nodup_cons] at h
  obtain ⟨-, ⟨hrest, -⟩, hskip⟩ := h
  have habove : restamp l x skipped = skipped := restamp_of_not_mem fun p hp =>
    hskip p.1 (mem_map_of_mem hp) l mem_cons_self
  have hbelow : restamp l x rest = rest := restamp_of_not_mem fun p hp heq =>
    hrest (mem_map.mpr ⟨p, hp, heq⟩)
  unfold restamp at habove hbelow ⊢
  rw [map_append, map_cons, habove, hbelow]
  simp

theorem VersionChain.restamp {h : Heap} {cursor : Option TupleLocator}
    (hxs : VersionChain h cursor xs) (hl : h.tuples l = some b) (x : Nat) :
    VersionChain (h.update l (b.stamp x)) cursor (restamp l x xs) := by
  have hmap := hxs.map (fun m v => if m = l then v.stamp x else v) (by intro m v; split <;> rfl)
  have hcells : (h.update l (b.stamp x)).tuples =
      fun m => (h.tuples m).map (fun v => if m = l then v.stamp x else v) := by
    funext m
    by_cases hm : m = l
    · simp [Heap.update, hm, hl]
    · simp [Heap.update, hm]
  unfold VersionChain
  rwa [hcells]

namespace ChainsOk

variable {o : Options} {s : PagedStore} {taken : List Taken} {owner : TupleLocator → Bytes}
  {chains : Chains} {key : Bytes}

theorem stamp (h : ChainsOk o s taken owner chains)
    (hsplit : chains key = skipped ++ (l, b) :: rest) (hx : x ≠ 0)
    (hskip : ∀ p ∈ skipped, ¬ s.transactions.live p.2.header.xmin)
    (hsaw : b.header.xmin = x ∨ Saw taken x b.header.xmin) :
    ChainsOk o { s with heap := s.heap.update l (b.stamp x) } taken owner
      (update chains key (skipped ++ (l, b.stamp x) :: rest)) := by
  have hmem : (l, b) ∈ chains key := by simp [hsplit]
  have hl := (h.chain key).stored _ hmem
  have hold : ∀ m v, (s.heap.update l (b.stamp x)).tuples m = some v →
      ∃ v', s.heap.tuples m = some v' ∧ v'.prev = v.prev := by
    intro m v hv
    by_cases hm : m = l
    · simp only [Heap.update, hm, update_self, Option.some.injEq] at hv
      exact ⟨b, hm ▸ hl, hv ▸ rfl⟩
    · exact ⟨v, by simpa [Heap.update, hm] using hv, rfl⟩
  refine ⟨?_, ?_, h.indexed, ?_, ?_⟩
  · intro m v hv
    obtain ⟨v', hv', -⟩ := hold m v hv
    exact h.stored m v' hv'
  · intro m v p hv hp
    obtain ⟨v', hv', hprev⟩ := hold m v hv
    exact h.pointed m v' p hv' (hprev.trans hp)
  · intro k
    have hstamped := VersionChain.restamp (h.chain k) hl x
    by_cases hk : k = key
    · subst hk
      have hnodup := (h.chain k).nodup
      rw [hsplit] at hstamped hnodup
      rw [restamp_split hnodup] at hstamped
      rwa [update_self]
    · have hother : ∀ p ∈ chains k, p.1 ≠ l := by
        intro p hp heq
        apply hk
        rw [← h.owner_eq p hp, heq]
        exact h.owner_eq _ hmem
      rw [restamp_of_not_mem hother] at hstamped
      rwa [update_of_ne hk]
  · intro k
    by_cases hk : k = key
    · subst hk
      rw [update_self]
      exact (hsplit ▸ h.ok k).stamp hx hskip hsaw
    · rw [update_of_ne hk]
      exact h.ok k

theorem reclaim (h : ChainsOk o s taken owner chains) (l : TupleLocator) :
    ChainsOk o { s with heap := s.heap.delete l } taken owner
      fun k => (chains k).takeWhile fun p => decide (p.1 ≠ l) := by
  have hold : ∀ m v, (s.heap.delete l).tuples m = some v → s.heap.tuples m = some v := by
    intro m v hv
    by_cases hm : m = l
    · simp [Heap.delete, hm] at hv
    · simpa [Heap.delete, hm] using hv
  refine ⟨?_, ?_, h.indexed, fun k => (h.chain k).remove l, fun k => ?_⟩
  · exact fun m v hv => h.stored m v (hold m v hv)
  · exact fun m v p hv => h.pointed m v p (hold m v hv)
  · have hok := h.ok k
    rw [← takeWhile_append_dropWhile (l := chains k)] at hok
    exact hok.cut

end ChainsOk

/-! ## Steps -/

/-- The invariant of the store. -/
structure StoreInv (o : Options) (s : PagedStore) (taken : List Taken)
    (owner : TupleLocator → Bytes) (chains : Chains) : Prop where
  table : TableOk s.transactions
  snapshots : SnapshotsOk s.transactions s.snapshots taken
  chains : ChainsOk o s taken owner chains

/-- A put fails, starts a chain, or goes on the first live version, which it stamps. -/
def PutEffect (s : PagedStore) (place : TupleLocator) (x : Nat) (key value : Bytes)
    (result : Except PageError TupleLocator) (chains chains' : Chains) : Prop :=
  (∃ e, result = .error e ∧ chains' = chains) ∨
  result = .ok place ∧
    ((∀ p ∈ chains key, ¬ s.transactions.live p.2.header.xmin) ∧
        chains' = update chains key [(place, ⟨⟨x, 0, none⟩, value⟩)] ∨
      ∃ skipped l b rest, Base s x (chains key) skipped l b rest ∧ chains' = update chains key
          ((place, ⟨⟨x, 0, some l⟩, value⟩) :: (l, b.stamp x) :: rest))

/-- A delete does nothing, or stamps the first live version. -/
def DeleteEffect (s : PagedStore) (x : Nat) (key : Bytes) (result : Except PageError Bool)
    (chains chains' : Chains) : Prop :=
  result ≠ .ok true ∧ chains' = chains ∨
  result = .ok true ∧ ∃ skipped l b rest, Base s x (chains key) skipped l b rest ∧
    readChain (fun y => s.transactions.xidVisible y (s.snapshotOf x)) (versions (chains key)) ≠
      none ∧
    chains' = update chains key (skipped ++ (l, b.stamp x) :: rest)

namespace StoreInv

variable {o : Options} {s : PagedStore} {taken : List Taken} {owner : TupleLocator → Bytes}
  {chains : Chains} {key value : Bytes} {place : TupleLocator}

variable (h : StoreInv o s taken owner chains)

include h

section

variable (hx : x ∈ s.transactions.inProgress)

include hx

theorem of_running : x ≠ 0 ∧ s.transactions.live x ∧ ∃ e ∈ taken, e.snapshot.xid = x ∧
      s.snapshots x = some e.snapshot ∧ s.snapshotOf x = e.snapshot := by
  have hpos := h.table.positive
  have hlow := (h.table.of_running hx).2.1
  obtain ⟨e, he, hxid, hsnap⟩ := h.snapshots.running x hx
  refine ⟨by omega, ?_, e, he, hxid, hsnap, by simp [PagedStore.snapshotOf, hsnap]⟩
  simp [live, h.table.status_running hx]

theorem saw_of_stamp {y : Nat} (hy : y ≠ 0) (hlive : s.transactions.live y)
    (hc : s.transactions.isConcurrent y (s.snapshotOf x) = false) : y = x ∨ Saw taken x y := by
  obtain ⟨-, -, e, he, rfl, -, hof⟩ := h.of_running hx
  by_cases hown : y = e.snapshot.xid
  · exact .inl hown
  refine .inr ⟨e, he, rfl, ?_⟩
  simp only [hof, isConcurrent, hy, hown, or_self, if_false] at hc
  rw [if_neg hlive] at hc
  simp only [Bool.or_eq_false_iff, Bool.not_eq_false', decide_eq_false_iff_not] at hc
  rw [h.snapshots.seen e he y]
  refine ⟨hy, hc.1, ?_⟩
  cases hs : s.transactions.status y with
  | inProgress => exact absurd hs hc.2
  | committed => rfl
  | aborted => exact absurd hs hlive

theorem saw_base (hbase : Base s x (chains key) skipped l b rest) :
    b.header.xmin = x ∨ Saw taken x b.header.xmin := by
  have hmem : (l, b) ∈ chains key := by simp [hbase.split]
  exact h.saw_of_stamp hx ((h.chains.ok key).born _ hmem) hbase.live hbase.creator

theorem put_over (hfresh : place ∉ s.heap.issued) (hread : o.readable ⟨⟨x, 0, none⟩, value⟩ = true)
    (hshort : (chains key).length + 1 < maxVersionChain) (hfits : o.keyFits key = true)
    (hbase : Base s x (chains key) skipped l b rest) : StoreInv o
      { s with
        heap := (s.heap.insert place ⟨⟨x, 0, some l⟩, value⟩).update l (b.stamp x)
        index := update s.index key (some place) }
      taken (update owner place key)
      (update chains key ((place, ⟨⟨x, 0, some l⟩, value⟩) :: (l, b.stamp x) :: rest)) := by
  obtain ⟨hx0, -⟩ := h.of_running hx
  have hsaw := h.saw_base hx hbase
  have hmem : (l, b) ∈ chains key := by simp [hbase.split]
  have hissued := h.chains.stored l b ((h.chains.chain key).stored _ hmem)
  have hplaced : ChainsOk o (s.placed place x (some l) value) taken
      (update owner place key) chains := by
    refine h.chains.placed hfresh fun p hp => ?_
    cases hp
    exact ⟨hissued, h.chains.owner_eq _ hmem⟩
  -- the old chain is stamped first, then the index is pointed to the new version on top of it
  have hstamped := hplaced.stamp hbase.split hx0 hbase.skipped_dead hsaw
  have hold := hstamped.chain key
  have holdOk := hstamped.ok key
  rw [update_self] at hold holdOk
  have hne : place ≠ l := fun heq => hfresh (heq ▸ hissued)
  have hchain : VersionChain ((s.placed place x (some l) value).heap.update l (b.stamp x))
      (some place) ((place, ⟨⟨x, 0, some l⟩, value⟩) :: (l, b.stamp x) :: rest) :=
    .node (by simp [PagedStore.placed, Heap.insert, Heap.update, hne]) hold.drop
  have hlong : rest.length + 2 < maxVersionChain := by
    rw [hbase.split, length_append, length_cons] at hshort
    omega
  have hreindexed := hstamped.reindex mem_cons_self (update_self ..) hfits hchain
    (holdOk.drop.push hx0 hlong hread rfl rfl)
  rw [update_idem] at hreindexed
  exact ⟨h.table, h.snapshots, hreindexed⟩

/-- **A put** keeps the store in order. -/
theorem put (hplace : s.heap.canPlace place = true)
    (hread : o.readable ⟨⟨x, 0, none⟩, value⟩ = true)
    (hfit : (follow Version.prev s.heap.tuples maxVersionChain (s.index key)).length + 1 <
      maxVersionChain) : (s.put o place x key value).2.transactions = s.transactions ∧
      ∃ owner' chains', StoreInv o (s.put o place x key value).2 taken owner' chains' ∧
        PutEffect s place x key value (s.put o place x key value).1 chains chains' := by
  obtain ⟨hx0, hlive, -⟩ := h.of_running hx
  have hchain := h.chains.chain key
  have hok := h.chains.ok key
  have hshort : (chains key).length + 1 < maxVersionChain := by
    rw [hchain.follow_eq, length_take] at hfit
    omega
  have hfresh := ChainsOk.fresh hplace
  have hempty : s.heap.tuples place = none := by
    by_contra hne
    obtain ⟨v, hv⟩ := Option.ne_none_iff_exists'.mp hne
    exact hfresh (h.chains.stored place v hv)
  have hkey : s.index key ≠ none → o.keyFits key = true := by
    intro hne
    obtain ⟨l, hl⟩ := Option.ne_none_iff_exists'.mp hne
    exact (h.chains.indexed key l hl).2.2
  have hnew : ChainsOk o (s.placed place x none value) taken
      (update owner place key) chains := h.chains.placed hfresh (by simp)
  rcases s.put_cases value hlive hchain hok.readable hok.short hempty hkey with
    ⟨e, heq⟩ | ⟨-, e, heq⟩ | ⟨hfits, hdead, heq⟩ | ⟨hfits, skipped, l, b, rest, hbase, heq⟩
  · rw [heq]
    exact ⟨rfl, owner, chains, h, .inl ⟨e, rfl, rfl⟩⟩
  · rw [heq]
    exact ⟨rfl, _, chains, ⟨h.table, h.snapshots, hnew⟩, .inl ⟨e, rfl, rfl⟩⟩
  · rw [heq]
    have hsingle : VersionChain (s.placed place x none value).heap (some place)
        [(place, ⟨⟨x, 0, none⟩, value⟩)] :=
      .node (by simp [PagedStore.placed, Heap.insert]) .stop
    exact ⟨rfl, _, _, ⟨h.table, h.snapshots, hnew.reindex mem_cons_self
      (update_self ..) hfits hsingle (.single hread hx0 rfl)⟩, .inr ⟨rfl, .inl ⟨hdead, rfl⟩⟩⟩
  · rw [heq]
    exact ⟨rfl, _, _, h.put_over hx hfresh hread hshort hfits hbase,
      .inr ⟨rfl, .inr ⟨skipped, l, b, rest, hbase, rfl⟩⟩⟩

/-- **A delete** keeps the store in order. -/
theorem delete (key : Bytes) : (s.delete o x key).2.transactions = s.transactions ∧
      ∃ chains', StoreInv o (s.delete o x key).2 taken owner chains' ∧
        DeleteEffect s x key (s.delete o x key).1 chains chains' := by
  obtain ⟨hx0, hlive, -⟩ := h.of_running hx
  have hok := h.chains.ok key
  rcases s.delete_cases hlive (h.chains.chain key) hok.readable hok.short with
    ⟨r, heq, hr⟩ | ⟨skipped, l, b, rest, hbase, hseen, heq⟩
  · rw [heq]
    exact ⟨rfl, chains, h, .inl ⟨hr, rfl⟩⟩
  · rw [heq]
    have hsaw := h.saw_base hx hbase
    exact ⟨rfl, _, ⟨h.table, h.snapshots, h.chains.stamp hbase.split hx0 hbase.skipped_dead hsaw⟩,
      .inr ⟨rfl, skipped, l, b, rest, hbase, hseen, rfl⟩⟩

end

theorem retable {t' : TransactionTable} (ht : TableOk t')
    (hnext : t'.nextXid = s.transactions.nextXid) (hrun : t'.inProgress = s.transactions.inProgress)
    (hstatus : ∀ y, t'.status y = s.transactions.status y) :
    StoreInv o { s with transactions := t' } taken owner chains := by
  refine ⟨ht, h.snapshots.frame hnext hrun hstatus, ?_⟩
  apply h.chains.frame _ fun e he => he
  intro y hy
  rwa [live, hstatus] at hy

theorem finish {t' : TransactionTable} {st : TxStatus} (ht : TableOk t')
    (hx : x ∈ s.transactions.inProgress)
    (hstatus : ∀ y, t'.status y = if y = x then st else s.transactions.status y)
    (hnext : t'.nextXid = s.transactions.nextXid)
    (hrun : t'.inProgress = s.transactions.inProgress.filter fun y => decide (y ≠ x)) :
    StoreInv o { s with transactions := t', snapshots := update s.snapshots x none }
      taken owner chains := by
  refine ⟨ht, h.snapshots.finish hx hstatus hnext hrun, ?_⟩
  apply h.chains.frame _ fun e he => he
  intro y hy
  by_cases hyx : y = x
  · rw [hyx]
    exact (h.of_running hx).2.1
  · rwa [live, hstatus, if_neg hyx] at hy

theorem commit (hx : x ∈ s.transactions.inProgress) : StoreInv o (s.commit x) taken owner chains :=
  h.finish (h.table.commit_ok hx) hx (status_commit h.table hx) rfl rfl

theorem abort (hx : x ∈ s.transactions.inProgress) : StoreInv o (s.abort x) taken owner chains := by
  have heq := h.table.abort_eq hx
  exact h.finish (h.table.abort_ok hx) hx (status_abort h.table hx) (by rw [heq]) (by rw [heq])

theorem freeze (maxXids : Nat) : let t := s.transactions
    StoreInv o { s with transactions := t.freezeBelowBounded t.oldestInProgressOrNext maxXids }
      taken owner chains := by
  obtain ⟨ht, hnext, hrun, hstatus⟩ := freezeBelowBounded_spec maxXids h.table
    h.table.oldest_le_next
  exact h.retable ht hnext hrun hstatus

theorem spill :
    StoreInv o { s with transactions := s.transactions.persistStatusSpill } taken owner chains :=
  h.retable h.table.persistStatusSpill_ok rfl rfl status_persistStatusSpill

theorem latest :
    StoreInv o s (⟨s.latestSnapshot, s.transactions.committedNow⟩ :: taken) owner chains := by
  refine ⟨h.table, ?_, h.chains.frame (fun y hy => hy) fun e he => mem_cons_of_mem _ he⟩
  exact h.snapshots.take h.table (fun _ => rfl) le_rfl (fun hne => absurd rfl hne)
    fun y hy => .inl ⟨hy, rfl⟩

theorem beginTransaction : StoreInv o s.beginTransaction.2
      (⟨s.beginTransaction.1.2, s.transactions.committedNow⟩ :: taken) owner chains := by
  have hstatus := status_begin h.table
  refine ⟨h.table.begin_ok, ?_, ?_⟩
  · refine h.snapshots.take h.table hstatus (Nat.le_succ _)
      (fun _ => ⟨rfl, Nat.lt_succ_self _⟩) fun y hy => ?_
    rcases (TableOk.mem_begin _ y).mp hy with hold | rfl
    · have hne := ((h.table.of_running hold).2.2).ne
      exact .inl ⟨hold, update_of_ne hne _ _⟩
    · exact .inr ⟨rfl, rfl, update_self ..⟩
  · apply h.chains.frame _ fun e he => mem_cons_of_mem _ he
    intro y hy
    rwa [live, hstatus] at hy

theorem vacuum (cursor : Option Nat) (limits : VacuumLimits) (expired : Nat → Bool) :
    ∃ chains', StoreInv o (s.vacuumStep o cursor limits expired).2 taken owner chains' := by
  obtain ⟨heap, heq, chains', hchains⟩ := s.vacuumStep_induct
    (P := fun heap => ∃ chains', ChainsOk o { s with heap } taken owner chains') cursor limits
    expired (fun h' l v ⟨chains', hh⟩ _ _ => ⟨_, hh.reclaim l⟩)
    (fun h' pages ⟨chains', hh⟩ => ⟨chains', hh.stored, hh.pointed, hh.indexed, hh.chain, hh.ok⟩)
    ⟨chains, h.chains⟩
  rw [heq]
  exact ⟨chains', h.table, h.snapshots, hchains⟩

end StoreInv

/-- **Every call keeps the store in order** as long as puts fit. -/
theorem StoreInv.step {o : Options} {sys sys' : System} {act : Action}
    {owner : TupleLocator → Bytes} {chains : Chains}
    (h : StoreInv o sys.store sys.taken owner chains)
    (hfit : PutFits o sys act) (hstep : sys.step o act = some sys') :
    ∃ owner' chains', StoreInv o sys'.store sys'.taken owner' chains' := by
  cases act with
  | beginTransaction =>
    cases hstep
    exact ⟨owner, chains, h.beginTransaction⟩
  | latestSnapshot =>
    cases hstep
    exact ⟨owner, chains, h.latest⟩
  | put =>
    obtain ⟨hguard, ⟨⟩⟩ := Option.ite_none_right_eq_some.1 hstep
    obtain ⟨-, owner', chains', h', -⟩ := h.put hguard.1 hguard.2 hfit.1 hfit.2
    exact ⟨owner', chains', h'⟩
  | delete x key =>
    obtain ⟨hx, ⟨⟩⟩ := Option.ite_none_right_eq_some.1 hstep
    obtain ⟨-, chains', h', -⟩ := h.delete hx key
    exact ⟨owner, chains', h'⟩
  | commit x =>
    obtain ⟨hx, ⟨⟩⟩ := Option.ite_none_right_eq_some.1 hstep
    exact ⟨owner, chains, h.commit hx⟩
  | abort x =>
    obtain ⟨hx, ⟨⟩⟩ := Option.ite_none_right_eq_some.1 hstep
    exact ⟨owner, chains, h.abort hx⟩
  | freeze maxXids =>
    cases hstep
    exact ⟨owner, chains, h.freeze maxXids⟩
  | spill =>
    cases hstep
    exact ⟨owner, chains, h.spill⟩
  | vacuum cursor limits expired =>
    cases hstep
    exact ⟨owner, h.vacuum cursor limits expired⟩

/-- **In every run** whose puts fit, the store is in order. -/
theorem StoreInv.reach {o : Options} {sys : System}
    (h : Reach (System.step o) (PutFits o) (System.new o) sys) :
    ∃ owner chains, StoreInv o sys.store sys.taken owner chains := by
  refine h.invariant (fun sys => ∃ owner chains, StoreInv o sys.store sys.taken owner chains) ?_ ?_
  · exact ⟨fun _ => [], fun _ => [], .new _, .new _, .new⟩
  · rintro s act s' ⟨owner, chains, hs⟩ hok hstep
    exact hs.step hok hstep

end BicDb.Paged
