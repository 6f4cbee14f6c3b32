import BicDb.Foundation.LinkedCells
import BicDb.Foundation.VersionChains
import BicDb.Paged.Store

/-!
# What the store's operations do to version chains

On a chain shorter than the walk limit whose versions can be read, `get_as_of` is `readChain`, and
`write_base` finds the first version whose creator is live. `put_cases` and `delete_cases` list what
a write can do; `vacuumStep_induct` reduces vacuum to single removals.
-/

namespace BicDb.Paged

open BicDb.Foundation List Heap

/-- A version as the chain library has it; a stamp of zero is none. -/
def Version.toVer (v : Version) : Ver Nat Bytes :=
  ⟨v.header.xmin, if v.header.xmax = 0 then none else some v.header.xmax, v.value⟩

abbrev Version.prev (v : Version) : Option TupleLocator := v.header.prev

/-- The versions reached from a cursor, newest first. -/
abbrev VersionChain (h : Heap) : Option TupleLocator → List (TupleLocator × Version) → Prop :=
  Linked Version.prev h.tuples

def versions (xs : List (TupleLocator × Version)) : List (Ver Nat Bytes) :=
  xs.map fun p => p.2.toVer

@[simp] theorem versions_nil : versions [] = [] := rfl

@[simp] theorem versions_cons (p : TupleLocator × Version) (xs : List (TupleLocator × Version)) :
    versions (p :: xs) = p.2.toVer :: versions xs := rfl

@[simp] theorem versions_append (xs ys : List (TupleLocator × Version)) :
    versions (xs ++ ys) = versions xs ++ versions ys := map_append

theorem forall_mem_versions {xs : List (TupleLocator × Version)} {P : Ver Nat Bytes → Prop} :
    (∀ v ∈ versions xs, P v) ↔ ∀ p ∈ xs, P p.2.toVer := forall_mem_map

/-- The heap hands the whole version out. -/
def Options.readable (o : Options) (v : Version) : Bool :=
  decide (v.len ≤ o.inlineLimit) || decide (v.len ≤ o.maxValueBytes)

/-- A transaction whose writes may still count. -/
def TransactionTable.live (t : TransactionTable) (x : Nat) : Prop := t.status x ≠ .aborted

instance (t : TransactionTable) (x : Nat) : Decidable (t.live x) :=
  inferInstanceAs (Decidable (t.status x ≠ .aborted))

/-- The key index takes the key. -/
def Options.keyFits (o : Options) (key : Bytes) : Bool :=
  decide (key ≠ []) && decide (max (key.length + 14 + 8) (key.length + 8 + 8) * 2 ≤ o.usableBytes)

/-- The version with a deleter. -/
def Version.stamp (x : Nat) (v : Version) : Version :=
  { v with header := { v.header with xmax := x } }

theorem Version.stamp_toVer {x : Nat} (hx : x ≠ 0) (v : Version) :
    (v.stamp x).toVer = { v.toVer with dead := some x } := by
  simp [stamp, toVer, hx]

theorem Version.toVer_dead {v : Version} {y : Nat} :
    v.toVer.dead = some y ↔ v.header.xmax = y ∧ y ≠ 0 := by
  by_cases h0 : v.header.xmax = 0
  · simp only [toVer, h0, if_true, reduceCtorEq, false_iff, not_and, not_not]
    exact Eq.symm
  · simp only [toVer, h0, if_false, Option.some.injEq]
    exact ⟨fun h => ⟨h, h ▸ h0⟩, fun h => h.1⟩

variable {o : Options} {s : PagedStore}

theorem Heap.get_eq {h : Heap} {l : TupleLocator} {v : Version} (hl : h.tuples l = some v)
    (hv : o.readable v = true) : h.get o l = .ok v := by
  have hsmall : ¬ (o.inlineLimit < v.len ∧ o.maxValueBytes < v.len) := by
    simp only [Options.readable, Bool.or_eq_true, decide_eq_true_eq] at hv
    omega
  simp [get, hl, hsmall]

theorem PagedStore.isVisible_eq (v : Version) (snapshot : Snapshot) :
    s.isVisible v.header snapshot =
      v.toVer.visible (fun x => s.transactions.xidVisible x snapshot) := by
  by_cases hx : v.header.xmax = 0 <;> simp [isVisible, Version.toVer, Ver.visible, hx]

variable {xs : List (TupleLocator × Version)}

theorem PagedStore.walkChainAsOf_eq (snapshot : Snapshot) (head : TupleLocator) (limit : Nat)
    {cursor : Option TupleLocator} (h : VersionChain s.heap cursor xs)
    (hread : ∀ p ∈ xs, o.readable p.2 = true) {left : Nat} {seen : List TupleLocator}
    (hlen : xs.length < left) (hnodup : (seen ++ xs.map Prod.fst).Nodup)
    (hseen : ∀ l ∈ seen, s.heap.tuples l ≠ none) :
    s.walkChainAsOf o snapshot head limit left seen cursor =
      .ok (readChain (fun x => s.transactions.xidVisible x snapshot) (versions xs)) := by
  induction left generalizing cursor xs seen with
  | zero => omega
  | succ left ih =>
    cases h with
    | stop => rfl
    | @broken l hgone =>
      -- what was visited is still there, so the last pointer is a new one
      have hnew : seen.findIdx? (fun m => decide (m = l)) = none := by
        rw [findIdx?_eq_none_iff]
        intro m hm
        simpa using fun heq : m = l => hseen m hm (heq ▸ hgone)
      simp [walkChainAsOf, hnew, Heap.get, hgone]
    | @node l v rest hl htail =>
      rw [forall_mem_cons] at hread
      have hnew : seen.findIdx? (fun m => decide (m = l)) = none := by
        rw [findIdx?_eq_none_iff]
        intro m hm
        have hdisjoint := (nodup_append.mp hnodup).2.2 m hm l (by simp)
        simpa using hdisjoint
      have hrest := @ih rest v.prev htail hread.2 (seen ++ [l]) (Nat.lt_of_succ_lt_succ hlen)
        (by simpa using hnodup) (by simpa [or_imp, forall_and, hl] using hseen)
      simp only [walkChainAsOf, hnew, get_eq hl hread.1, s.isVisible_eq, versions_cons,
        readChain_cons, hrest]
      split <;> rfl

/-- **A read** of a chain in order. -/
theorem PagedStore.getAsOf_eq {key : Bytes} (h : VersionChain s.heap (s.index key) xs)
    (hread : ∀ p ∈ xs, o.readable p.2 = true) (hlen : xs.length < maxVersionChain)
    (snapshot : Snapshot) :
    s.getAsOf o snapshot key =
      .ok (readChain (fun x => s.transactions.xidVisible x snapshot) (versions xs)) := by
  unfold getAsOf
  cases hi : s.index key with
  | none =>
    rw [hi] at h
    cases h
    rfl
  | some head =>
    rw [hi] at h
    exact walkChainAsOf_eq snapshot head _ h hread hlen (by simpa using h.nodup) (by simp)

/-- **The base of a write**: the first version whose creator is live. -/
theorem PagedStore.writeBase_eq {x : Nat} (hx : s.transactions.live x)
    {cursor : Option TupleLocator} (h : VersionChain s.heap cursor xs) {left : Nat}
    (hlen : xs.length < left) : s.writeBase x left cursor =
      .ok ((xs.find? fun p => decide (s.transactions.live p.2.header.xmin)).map Prod.fst) := by
  induction left generalizing cursor xs with
  | zero => omega
  | succ left ih =>
    cases h with
    | stop => rfl
    | broken hgone => simp [writeBase, readHeader, hgone]
    | @node l v rest hl htail =>
      have hrest := ih htail (Nat.lt_of_succ_lt_succ hlen)
      -- transaction 0 and the writer itself are live
      have hbase : (v.header.xmin = 0 ∨ v.header.xmin = x ∨
          s.transactions.status v.header.xmin ≠ .aborted) ↔
          s.transactions.live v.header.xmin := by
        constructor
        · rintro (h0 | hown | hlive)
          · simp [TransactionTable.live, TransactionTable.status, h0]
          · exact hown ▸ hx
          · exact hlive
        · exact fun hlive => .inr (.inr hlive)
      simp only [writeBase, readHeader, hl, hbase, hrest, find?_cons]
      by_cases hlive : s.transactions.live v.header.xmin <;> simp [hlive]

/-! ## Writing -/

variable {x : Nat} {key : Bytes} {place : TupleLocator}

theorem PagedStore.indexInsert_eq (s : PagedStore) (hkey : o.keyFits key = true)
    (l : TupleLocator) :
    s.indexInsert o key l = .ok { s with index := Function.update s.index key (some l) } := by
  simp only [Options.keyFits, Bool.and_eq_true, decide_eq_true_eq] at hkey
  rw [indexInsert, if_neg hkey.1, if_neg (Nat.not_lt.mpr hkey.2)]

theorem PagedStore.indexInsert_error (s : PagedStore) (hkey : o.keyFits key = false)
    (l : TupleLocator) : ∃ e, s.indexInsert o key l = .error e := by
  unfold indexInsert
  split
  · exact ⟨_, rfl⟩
  next hne =>
    split
    · exact ⟨_, rfl⟩
    next hlt =>
      simp only [Options.keyFits, ne_eq, hne, not_false_eq_true, decide_true, Bool.true_and,
        decide_eq_false_iff_not] at hkey
      omega

theorem PagedStore.checkWriteConflict_ok {l : TupleLocator} {b : Version}
    (hl : s.heap.tuples l = some b) (hb : o.readable b = true)
    (h : s.checkWriteConflict o x l key = .ok ()) :
    s.transactions.isConcurrent b.header.xmin (s.snapshotOf x) = false ∧
      s.transactions.isConcurrent b.header.xmax (s.snapshotOf x) = false := by
  have hstamp : ∀ field other, s.checkStamp x key field other = .ok () →
      s.transactions.isConcurrent other (s.snapshotOf x) = false := by
    intro field other hok
    by_contra hc
    rw [Bool.not_eq_false] at hc
    simp only [checkStamp, hc, if_true] at hok
    split at hok <;> cases hok
  simp only [checkWriteConflict, get_eq hl hb] at h
  cases hmin : s.checkStamp x key .xmin b.header.xmin with
  | error e => simp [hmin] at h
  | ok u => exact ⟨hstamp _ _ hmin, hstamp _ _ (by simpa [hmin] using h)⟩

theorem PagedStore.markDeleted_eq {l : TupleLocator} {b : Version}
    (hl : s.heap.tuples l = some b) (hb : o.readable b = true) :
    s.markDeleted o l x = .ok { s with heap := s.heap.update l (b.stamp x) } := by
  simp [markDeleted, get_eq hl hb, Version.stamp]

/-- The version a write goes on: the first live one, with no concurrent creator or deleter. -/
structure Base (s : PagedStore) (x : Nat) (xs skipped : List (TupleLocator × Version))
    (l : TupleLocator) (b : Version) (rest : List (TupleLocator × Version)) : Prop where
  split : xs = skipped ++ (l, b) :: rest
  skipped_dead : ∀ p ∈ skipped, ¬ s.transactions.live p.2.header.xmin
  live : s.transactions.live b.header.xmin
  creator : s.transactions.isConcurrent b.header.xmin (s.snapshotOf x) = false
  deleter : s.transactions.isConcurrent b.header.xmax (s.snapshotOf x) = false

/-- The store with a new version in its heap. -/
def PagedStore.placed (s : PagedStore) (place : TupleLocator) (x : Nat)
    (previous : Option TupleLocator) (value : Bytes) : PagedStore :=
  { s with heap := s.heap.insert place ⟨⟨x, 0, previous⟩, value⟩ }

/-- **What a put can do**: nothing, leave a version that nothing points to, start a chain, or go on
top. -/
theorem PagedStore.put_cases (value : Bytes) (hx : s.transactions.live x)
    (h : VersionChain s.heap (s.index key) xs) (hread : ∀ p ∈ xs, o.readable p.2 = true)
    (hlen : xs.length < maxVersionChain) (hplace : s.heap.tuples place = none)
    (hkey : s.index key ≠ none → o.keyFits key = true) :
    (∃ e, s.put o place x key value = (.error e, s)) ∨
    (s.index key = none ∧ ∃ e, s.put o place x key value =
      (.error e, s.placed place x none value)) ∨
    (o.keyFits key = true ∧ (∀ p ∈ xs, ¬ s.transactions.live p.2.header.xmin) ∧
      s.put o place x key value = (.ok place, { s.placed place x none value with
        index := Function.update s.index key (some place) })) ∨
    (o.keyFits key = true ∧ ∃ skipped l b rest, Base s x xs skipped l b rest ∧
      s.put o place x key value = (.ok place, { s with
          heap := (s.heap.insert place ⟨⟨x, 0, some l⟩, value⟩).update l (b.stamp x)
          index := Function.update s.index key (some place) })) := by
  have hbase := writeBase_eq hx h hlen
  cases hfind : xs.find? fun p => decide (s.transactions.live p.2.header.xmin) with
  | none =>
    rw [hfind] at hbase
    have hdead : ∀ p ∈ xs, ¬ s.transactions.live p.2.header.xmin := by
      simpa using hfind
    by_cases hfits : o.keyFits key = true
    · refine .inr (.inr (.inl ⟨hfits, hdead, ?_⟩))
      simp [put, hbase, indexInsert_eq _ hfits, placed]
    · have hnone : s.index key = none := by
        by_contra hne
        exact hfits (hkey hne)
      obtain ⟨e, he⟩ := (s.placed place x none value).indexInsert_error (by simpa using hfits) place
      refine .inr (.inl ⟨hnone, e, ?_⟩)
      simp only [placed] at he
      simp [put, hbase, he, placed]
  | some p =>
    obtain ⟨l, b⟩ := p
    obtain ⟨hlive, skipped, rest, hsplit, hskip⟩ := find?_eq_some_iff_append.mp hfind
    rw [hfind] at hbase
    have hmem : (l, b) ∈ xs := by simp [hsplit]
    have hl := h.stored _ hmem
    have hb := hread _ hmem
    cases hcheck : s.checkWriteConflict o x l key with
    | error e =>
      simp [put, hbase, hcheck]
    | ok u =>
      have hstamps := checkWriteConflict_ok hl hb hcheck
      have hfits : o.keyFits key = true := by
        apply hkey
        intro hnone
        rw [hnone] at h
        cases h
        simp at hmem
      have hne : l ≠ place := fun heq => by simp [← heq, hl] at hplace
      have hl' : (s.placed place x (some l) value).heap.tuples l = some b := by
        simpa [placed, Heap.insert, hne] using hl
      have hmark := markDeleted_eq (x := x) hl' hb
      simp only [placed] at hmark
      refine .inr (.inr (.inr ⟨hfits, skipped, l, b, rest, ?_, ?_⟩))
      · exact ⟨hsplit, by simpa using hskip, by simpa using hlive, hstamps.1, hstamps.2⟩
      · simp [put, hbase, hcheck, hmark, indexInsert_eq _ hfits]

/-- **What a delete can do**: leave the store, or stamp the first live version. -/
theorem PagedStore.delete_cases (hx : s.transactions.live x)
    (h : VersionChain s.heap (s.index key) xs) (hread : ∀ p ∈ xs, o.readable p.2 = true)
    (hlen : xs.length < maxVersionChain) :
    (∃ r, s.delete o x key = (r, s) ∧ r ≠ .ok true) ∨
    ∃ skipped l b rest, Base s x xs skipped l b rest ∧
      readChain (fun y => s.transactions.xidVisible y (s.snapshotOf x)) (versions xs) ≠ none ∧
      s.delete o x key = (.ok true, { s with heap := s.heap.update l (b.stamp x) }) := by
  have hget := getAsOf_eq h hread hlen (s.snapshotOf x)
  cases hi : s.index key with
  | none => exact .inl ⟨.ok false, by simp [delete, hi], by simp⟩
  | some head =>
    have hbase := writeBase_eq hx h hlen
    rw [hi] at hbase
    cases hfind : xs.find? fun p => decide (s.transactions.live p.2.header.xmin) with
    | none =>
      rw [hfind] at hbase
      exact .inl ⟨.ok false, by simp [delete, hi, hbase], by simp⟩
    | some p =>
      obtain ⟨l, b⟩ := p
      obtain ⟨hlive, skipped, rest, hsplit, hskip⟩ := find?_eq_some_iff_append.mp hfind
      rw [hfind] at hbase
      have hmem : (l, b) ∈ xs := by simp [hsplit]
      have hl := h.stored _ hmem
      have hb := hread _ hmem
      cases hseen : readChain (fun y => s.transactions.xidVisible y (s.snapshotOf x))
          (versions xs) with
      | none =>
        rw [hseen] at hget
        exact .inl ⟨.ok false, by simp [delete, hi, hbase, hget], by simp⟩
      | some v =>
        rw [hseen] at hget
        cases hcheck : s.checkWriteConflict o x l key with
        | error e =>
          exact .inl ⟨.error e, by simp [delete, hi, hbase, hget, hcheck], by simp⟩
        | ok u =>
          have hstamps := checkWriteConflict_ok hl hb hcheck
          refine .inr ⟨skipped, l, b, rest, ?_, by simp, ?_⟩
          · exact ⟨hsplit, by simpa using hskip, by simpa using hlive, hstamps.1,
              hstamps.2⟩
          · simp [delete, hi, hbase, hget, hcheck, markDeleted_eq hl hb]

/-! ## Vacuum -/

section Vacuum

variable {t : TransactionTable} {oldestActive : Nat} {P : Heap → Prop}

/-- Reclaiming one tuple keeps `P`. -/
def KeptByReclaim (t : TransactionTable) (oldestActive : Nat) (P : Heap → Prop) : Prop :=
  ∀ (h : Heap) (l : TupleLocator) (v : Version), P h → h.tuples l = some v →
    h.reclaimable t oldestActive v = true → P (h.delete l)

section

variable (hkeep : KeptByReclaim t oldestActive P)

include hkeep

theorem Heap.vacuumTuple_induct (work : Heap × VacuumReport) (l : TupleLocator) (h : P work.1) :
    P (vacuumTuple o t oldestActive work l).1 := by
  unfold vacuumTuple
  cases hl : work.1.tuples l with
  | none => exact h
  | some v =>
    simp only
    split
    · next hreclaim => exact hkeep _ l v h hl hreclaim
    · exact h

theorem Heap.vacuumPage_induct (work : Heap × VacuumReport) (pageId : Nat) (h : P work.1) :
    P (vacuumPage o t oldestActive work pageId).1 := by
  have hfold : ∀ (ls : List TupleLocator) (w : Heap × VacuumReport), P w.1 →
      P (ls.foldl (vacuumTuple o t oldestActive) w).1 := by
    intro ls
    induction ls with
    | nil => exact fun w hw => hw
    | cons l ls ih => exact fun w hw => ih _ (vacuumTuple_induct hkeep w l hw)
  unfold vacuumPage
  simp only
  split <;> exact hfold _ _ h

theorem Heap.vacuumPages_induct (limits : VacuumLimits) (expired : Nat → Bool) (pages : List Nat) :
    ∀ (fullyDead : List Nat) (work : Heap × VacuumReport), P work.1 →
      P (vacuumPages o t oldestActive limits expired fullyDead pages work).1 := by
  induction pages with
  | nil => exact fun fullyDead work h => h
  | cons pageId pages ih =>
    intro fullyDead work h
    unfold vacuumPages
    split
    · exact h
    split
    · exact h
    split
    · exact h
    · exact ih _ _ (vacuumPage_induct hkeep work pageId h)

end

/-- **Vacuum removes reclaimable versions one by one.** -/
theorem PagedStore.vacuumStep_induct {s : PagedStore} (cursor : Option Nat)
    (limits : VacuumLimits) (expired : Nat → Bool)
    (hkeep : KeptByReclaim s.transactions s.transactions.oldestInProgressOrNext P)
    (hpages : ∀ (h : Heap) (pages : List Nat), P h → P { h with pages })
    (h : P s.heap) :
    ∃ heap, (s.vacuumStep o cursor limits expired).2 = { s with heap } ∧ P heap := by
  unfold vacuumStep
  cases limits.validate o.pageSize with
  | error e => exact ⟨s.heap, rfl, h⟩
  | ok u =>
    simp only
    have hdone := vacuumPages_induct (o := o) hkeep limits expired
      ((s.heap.pages.filter fun page => decide (cursor.getD 0 ≤ page)).insertionSort (· ≤ ·))
      [] (s.heap, { oldestActive := s.transactions.oldestInProgressOrNext }) h
    split <;> exact ⟨_, rfl, hpages _ _ hdone⟩

end Vacuum

end BicDb.Paged
