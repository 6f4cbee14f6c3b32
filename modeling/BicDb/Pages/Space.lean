import BicDb.Pages.Store
import Mathlib.Algebra.BigOperators.Group.List.Basic

/-!
# The space of a slotted page

What a page says about its space, and the pages of the candidate ring that an insertion compacts.

## What this module delivers

* `space_accounting_exact`: compaction leaves what `reclaimable_space` says where dead slots are not
  reused and lengths do not change.
* `space_accounting_off`: runs where it leaves more, less, or is not tried.
-/

namespace BicDb.Pages

open BicDb.Foundation List
open BicDb.Paged (Bytes TupleLocator)

namespace Page

/-- The lengths that dead slots still name. -/
def deadBytes (p : Page) : Nat :=
  (((List.range p.slotCount).filter fun i => (p.slotAt i).offset = deadOffset).map fun i =>
    (p.slotAt i).len).sum

/-- What a compaction is expected to leave free. -/
def reclaimableSpace (p : Page) : Nat := p.freeSpace + p.deadBytes

def requiredSpace (len : Nat) : Nat := len + slotBytes

/-- Whether a tuple fits without compaction. -/
def canFit (p : Page) (len : Nat) : Bool :=
  decide (len + (if p.findDeadSlot.isNone then slotBytes else 0) ≤ p.freeSpace)

/-- One page of the candidate ring: what the insertion returned, whether the page was compacted, and
the page. -/
def tryCandidate (size : Nat) (p : Page) (tuple : Bytes) :
    Option (Except PageError TupleLocator) × Bool × Page :=
  if p.canFit tuple.length then (some (p.insert tuple).1, false, (p.insert tuple).2)
  else if requiredSpace tuple.length ≤ p.reclaimableSpace then
    let q := (p.compact size).2
    if q.canFit tuple.length then (some (q.insert tuple).1, true, (q.insert tuple).2)
    else (none, true, q)
  else (none, false, p)

def lengths (p : Page) : Nat := ((List.range p.slotCount).map fun i => (p.slotAt i).len).sum

end Page

/-- No dead slot is reused or survives a compaction, and no update changes a length. -/
def Accounts (p : Page) : PageOp → Prop
  | .insert _ | .compact => p.findDeadSlot = none
  | .update l value => ∀ s ∈ (p.resolve l).toOption, s.len = value.length
  | .delete _ => True

instance (p : Page) : (op : PageOp) → Decidable (Accounts p op)
  | .insert _ | .compact => inferInstanceAs (Decidable (_ = _))
  | .update _ _ => inferInstanceAs (Decidable (∀ s ∈ _, _))
  | .delete _ => inferInstanceAs (Decidable True)

section Lengths

open Page

variable {size freeEnd k : Nat} {p r : Page} {s : Slot} {c : Cell}

theorem Page.lengths_eq (p : Page) : p.lengths = p.deadBytes + total p.liveTuples := by
  rw [lengths, ← sum_map_filter_add_sum_map_filter_not fun i => (p.slotAt i).offset = deadOffset]
  simp [deadBytes, total, liveTuples, Function.comp_def]

theorem Page.findDeadSlot_eq_none :
    p.findDeadSlot = none ↔ ∀ i c, p.cellAt i = some c → c.tuple ≠ none := by
  simp [findDeadSlot, cellAt, cell]

theorem Page.deadBytes_eq_zero (h : p.findDeadSlot = none) : p.deadBytes = 0 := by
  rw [deadBytes, filter_eq_nil_iff.mpr (find?_eq_none.mp h)]
  rfl

theorem Written.lengths_old (h : Written size p r k s freeEnd c) (hk : k < p.slotCount)
    (hlen : s.len = (p.slotAt k).len) : r.lengths = p.lengths := by
  rw [lengths, lengths, h.slotCount, Nat.max_eq_left hk]
  congr 1
  refine map_congr_left fun i hi => ?_
  by_cases hik : i = k
  · rw [hik, h.slot, hlen]
  · rw [h.others i (mem_range.mp hi) hik]

theorem Written.lengths_new (h : Written size p r p.slotCount s freeEnd c) :
    r.lengths = p.lengths + s.len := by
  rw [lengths, lengths, h.slotCount, Nat.max_eq_right (Nat.le_succ _), range_succ, map_append,
    sum_append, map_singleton, sum_singleton, h.slot]
  congr 2
  refine map_congr_left fun i hi => ?_
  have hi := mem_range.mp hi
  rw [h.others i hi hi.ne]

/-- Free end and lengths make up the page. -/
def Counted (size : Nat) (p : Page) : Prop := p.freeEnd + p.lengths = size - pageTrailerBytes

theorem Counted.run (hsize : size ≤ 65536) (h : SlottedOk size p) (hc : Counted size p)
    {op : PageOp}
    (hop : Accounts p op) : Counted size (op.run size p).2 := by
  unfold Counted at *
  cases op with
  | insert value =>
    rcases insert_spec hsize h value with ⟨e, he⟩ | ⟨k, g, -, hk, hle, hw, -⟩
    · rwa [PageOp.run, he]
    rw [hop] at hk
    subst hk
    rw [PageOp.run, hw.freeEnd, hw.lengths_new, Nat.add_comm p.lengths, ← Nat.add_assoc,
      Nat.sub_add_cancel hle, hc]
  | update l value =>
    rcases update_spec hsize h l value with ⟨e, he⟩ | ⟨-, ⟨s, top, hres, hw, hlen, htop⟩, -⟩
    · rwa [PageOp.run, he]
    · have hold : (p.slotAt l.slot).len = value.length := hop _ (by rw [hres]; rfl)
      rw [PageOp.run, hw.freeEnd, htop hold.ge,
        hw.lengths_old (resolve_ok hres).1 (hlen.trans hold.symm), hc]
  | delete l =>
    rcases delete_spec h l with ⟨e, he⟩ | ⟨-, hk, hw, -⟩
    · rwa [PageOp.run, he]
    · rw [PageOp.run, hw.freeEnd, hw.lengths_old hk rfl, hc]
  | compact =>
    obtain ⟨-, -, hcount, htotal, hlen⟩ := compact_spec hsize h
    have hsame : (p.compact size).2.lengths = p.lengths := by
      rw [lengths, hcount]
      exact congrArg _ (map_congr_left fun i hi => hlen i (mem_range.mp hi))
    rw [PageOp.run, hsame, p.lengths_eq, deadBytes_eq_zero hop, Nat.zero_add, htotal]

theorem Counted.reach {pageId floor : Nat} (hlo : minPageSize ≤ size) (hhi : size ≤ 65536)
    {s : PageRun} (h : Reach (PageRun.step size) (fun s op => Accounts s.page op)
      (PageRun.new pageId size floor) s) : RunOk size s ∧ Counted size s.page := by
  refine h.invariant (fun s => RunOk size s ∧ Counted size s.page)
    ⟨.new pageId floor hlo hhi, ?_⟩ fun s op s' hs hop hstep => ⟨hs.1.step hhi hstep, ?_⟩
  · obtain ⟨hok, hcount, -, hfree, -⟩ := @init_spec Slot.len _ pageId .heap floor hlo hhi
    have hstart := hok.start
    simp only [hcount, freeSpace, usableBytes, minPageSize, pageHeaderBytes,
      pageTrailerBytes, Counted, PageRun.new, initWithFloor, lengths, range_zero, map_nil, sum_nil]
      at hlo hstart hfree ⊢
    omega
  · have hrun := hs.2.run hhi hs.1.ok hop
    simp only [PageRun.step] at hstep
    split at hstep
    · split at hstep <;> cases hstep <;> simpa [*] using hrun
    · cases hstep

theorem Counted.freeSpace_compact (hsize : size ≤ 65536) (h : SlottedOk size p)
    (hc : Counted size p) : (p.compact size).2.freeSpace = p.reclaimableSpace := by
  obtain ⟨hkept, -, hcount, htotal, -⟩ := compact_spec hsize h
  have hstart := hkept.ok.start
  have hroom := h.room
  rw [hcount, ← h.start] at hstart
  rw [Counted, p.lengths_eq] at hc
  rw [reclaimableSpace, freeSpace, freeSpace, hstart]
  omega

theorem canFit_compact (hsize : size ≤ 65536) (h : SlottedOk size p) (hc : Counted size p)
    (len : Nat) : (p.compact size).2.canFit len =
      decide (len + (if p.findDeadSlot = none then slotBytes else 0) ≤ p.reclaimableSpace) := by
  have hdead : (p.compact size).2.findDeadSlot = none ↔ p.findDeadSlot = none := by
    rw [findDeadSlot_eq_none, findDeadSlot_eq_none, (compact_spec hsize h).2.1]
  simp only [canFit, hc.freeSpace_compact hsize h, Option.isNone_iff_eq_none, hdead]

end Lengths

/-- **Space accounting** is exact on every run that never reuses or compacts away a dead slot and
never changes a length, unless a dead slot would have saved the bytes of a new one. -/
theorem space_accounting_exact {pageId size floor : Nat} (hlo : minPageSize ≤ size)
    (hhi : size ≤ 65536) {s : PageRun} (h : Reach (PageRun.step size)
      (fun s op => Accounts s.page op) (PageRun.new pageId size floor) s) :
    (s.page.compact size).2.freeSpace = s.page.reclaimableSpace ∧
    ∀ tuple : Bytes, (s.page.findDeadSlot = none ∨ s.page.reclaimableSpace < tuple.length ∨
        Page.requiredSpace tuple.length ≤ s.page.reclaimableSpace) →
      ((s.page.tryCandidate size tuple).2.1 ↔ s.page.canFit tuple.length = false ∧
        (s.page.compact size).2.canFit tuple.length) := by
  obtain ⟨hok, hc⟩ := Counted.reach hlo hhi h
  refine ⟨hc.freeSpace_compact hhi hok.ok, fun tuple hcase => ?_⟩
  have hfit := canFit_compact hhi hok.ok hc tuple.length
  rw [Page.tryCandidate]
  split
  · next hnow => simp [hnow]
  next hnow =>
    rw [Page.requiredSpace] at hcase ⊢
    split
    · next hreq =>
        -- compacted: with the reclaimable bytes there is room even for a new slot
        have hafter : (s.page.compact size).2.canFit tuple.length = true := by
          rw [hfit, decide_eq_true_eq]
          split <;> omega
        simp [hnow, hafter]
    · next hreq =>
        have hafter : (s.page.compact size).2.canFit tuple.length = false := by
          rw [hfit, decide_eq_false_iff_not]
          rcases hcase with hnone | hlt | hle
          · rwa [if_pos hnone]
          · omega
          · exact absurd hle hreq
        simp [hafter]

/-- A deletion on a page without room: the next tuple gets it by a compaction. -/
theorem space_accounting_deleted : ∃ s, Reach (PageRun.step 512) (fun s op => Accounts s.page op)
    (PageRun.new 7 512 0) s ∧ (s.page.compact 512).2.freeSpace = s.page.reclaimableSpace ∧
      (s.page.tryCandidate 512 (List.replicate 30 9)).2.1 = true := by
  refine exists_reach_imp (fun s => s.page.canFit 30 = false ∧
    (s.page.compact 512).2.canFit 30 = true ∧ Page.requiredSpace 30 ≤ s.page.reclaimableSpace)
    [.insert (replicate 200 1), .insert (replicate 200 2), .delete ⟨7, 0, 1⟩]
    (by decide +kernel) fun hreach ⟨hfit, hafter, hreq⟩ => ?_
  obtain ⟨hspace, hcompacts⟩ := space_accounting_exact (by decide) (by decide) hreach
  exact ⟨hspace, (hcompacts (replicate 30 9) (.inr (.inr hreq))).2 ⟨hfit, hafter⟩⟩

/-- A shorter value gives up bytes that no slot remembers; a dead slot remembers a byte that has
been given back; and where a dead slot is free, a compaction that would help is not tried. -/
theorem space_accounting_off :
    (∃ s, Reach (PageRun.step 512) (fun _ _ => True) (PageRun.new 7 512 0) s ∧
    (s.page.compact 512).2.freeSpace = s.page.reclaimableSpace + 2) ∧
    (∃ s, Reach (PageRun.step 512) (fun _ _ => True) (PageRun.new 7 512 0) s ∧
      (s.page.compact 512).2.freeSpace + 1 = s.page.reclaimableSpace) ∧
    ∃ s, Reach (PageRun.step 512) (fun s op => Accounts s.page op) (PageRun.new 7 512 0) s ∧
      (s.page.canFit 220 = false ∧ (s.page.compact 512).2.canFit 220 = true ∧
        (s.page.tryCandidate 512 (List.replicate 220 9)).2.1 = false) :=
  ⟨exists_reach [.insert [1, 2, 3], .update ⟨7, 0, 1⟩ [1]] (by decide +kernel),
    exists_reach [.insert [1], .delete ⟨7, 0, 1⟩, .compact] (by decide +kernel),
    exists_reach [.insert (replicate 200 1), .insert (replicate 200 2), .delete ⟨7, 0, 1⟩]
      (by decide +kernel)⟩

end BicDb.Pages
