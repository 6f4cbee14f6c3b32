import BicDb.Foundation.Run
import BicDb.Pages.Layout

/-!
# A slotted page as a store of tuples

Runs of operations on one page, with the bytes last stored under each locator and the locators
returned and deleted.

## What this module delivers

* `run_spec`: an operation fails without effect, or changes the cell it names.
* `slottedPage_is_store`: in every run the page returns what was stored last, and nothing for a
  deleted locator.
-/

namespace BicDb.Pages

open BicDb.Foundation Function
open BicDb.Paged (Bytes TupleLocator)

/-- The operations on a page. -/
inductive PageOp where
  | insert (value : Bytes)
  | update (locator : TupleLocator) (value : Bytes)
  | delete (locator : TupleLocator)
  | compact

/-- The result and the page after an operation. -/
def PageOp.run (size : Nat) (p : Page) : PageOp → Except PageError (Option TupleLocator) × Page
  | .insert value => ((p.insert value).1.map some, (p.insert value).2)
  | .update locator value => ((p.update locator value).1.map fun _ => some locator,
      (p.update locator value).2)
  | .delete locator => ((p.delete locator).1.map fun _ => some locator, (p.delete locator).2)
  | .compact => (.ok none, (p.compact size).2)

def PageOp.stored : PageOp → Option Bytes
  | .insert value | .update _ value => some value
  | .delete _ | .compact => none

/-- How often a slot has been used: once for every locator issued for it. -/
def usesOf (issued : List TupleLocator) (slot : Nat) : Nat := issued.countP fun l => l.slot = slot

/-- A page, with records of what it holds and of the locators it gave out. -/
structure PageRun where
  page : Page
  held : TupleLocator → Option Bytes
  issued : List TupleLocator
  gone : List TupleLocator

namespace PageRun

def new (pageId size floor : Nat) : PageRun :=
  ⟨.initWithFloor pageId size floor, fun _ => none, [], []⟩

/-- Records what an operation named. -/
def record (s : PageRun) (op : PageOp) : Option TupleLocator → PageRun
  | none => s
  | some l => { s with
      held := update s.held l op.stored
      issued := match op with
        | .insert _ => l :: s.issued
        | _ => s.issued
      gone := match op with
        | .delete _ => l :: s.gone
        | _ => s.gone }

/-- A locator is used on the page it names. -/
def Addressed (p : Page) : PageOp → Prop
  | .update locator _ | .delete locator => locator.pageId = p.pageId
  | .insert _ | .compact => True

instance (p : Page) (op : PageOp) : Decidable (Addressed p op) := by
  cases op <;> dsimp only [Addressed] <;> infer_instance

/-- One operation. -/
def step (size : Nat) (s : PageRun) (op : PageOp) : Option PageRun :=
  if Addressed s.page op then
    match op.run size s.page with
    | (.error _, p) => some { s with page := p }
    | (.ok named, p) => some { s.record op named with page := p }
  else none

def uses (s : PageRun) (slot : Nat) : Nat := usesOf s.issued slot

end PageRun

/-! ## Cells under their locators -/

/-- The tuple of a locator. -/
def lookup (cells : Nat → Option Cell) (locator : TupleLocator) : Option Bytes :=
  (cells locator.slot).bind fun c => if c.generation = locator.generation then c.tuple else none

theorem get_eq_lookup (p : Page) (locator : TupleLocator) :
    (p.get locator).toOption = lookup p.cellAt locator := by
  by_cases hlt : locator.slot < p.slotCount
  · simp only [lookup, Page.cellAt_of_lt hlt, Page.get, Page.resolve, Page.slotEntry,
      if_neg (Nat.not_le.mpr hlt), Option.bind_some, Page.cell]
    split
    · simp [Except.map, Except.toOption]
    · split
      · rfl
      · next hgen => simp [Except.map, Except.toOption, not_not.mp hgen]
  · simp [lookup, Page.cellAt, hlt, Page.get, Page.resolve, Page.slotEntry, Nat.le_of_not_lt hlt,
      Except.map, Except.toOption]

theorem lookup_update {cells : Nat → Option Cell} {locator : TupleLocator}
    (h : ∀ c, cells locator.slot = some c → c.tuple = none ∨ c.generation = locator.generation)
    (value : Option Bytes) (l : TupleLocator) :
    lookup (update cells locator.slot (some ⟨locator.generation, value⟩)) l =
      if l.slot = locator.slot ∧ l.generation = locator.generation then value
      else lookup cells l := by
  by_cases hslot : l.slot = locator.slot
  · by_cases hgen : l.generation = locator.generation
    · simp [lookup, hslot, hgen]
    · simp only [lookup, hslot, update_self, Option.bind_some, if_neg (Ne.symm hgen), hgen,
        and_false, if_false]
      cases hc : cells locator.slot with
      | none => rfl
      | some c =>
        rcases h c hc with hnone | hsame
        · simp [hnone]
        · simp [hsame, Ne.symm hgen]
  · simp [lookup, hslot]

/-! ## Generations -/

/-- The generation of a slot counts its uses; a locator that is gone stands for an earlier use, or
the last of an empty slot. -/
structure History (floor : Nat) (cells : Nat → Option Cell) (issued gone : List TupleLocator) :
    Prop where
  generation : ∀ k c, cells k = some c →
    0 < usesOf issued k ∧ c.generation = (floor + usesOf issued k) % 2 ^ 32
  fresh : ∀ k, cells k = none → usesOf issued k = 0
  gone : ∀ l ∈ gone, ∃ n, 0 < n ∧ n ≤ usesOf issued l.slot ∧ l.generation = (floor + n) % 2 ^ 32 ∧
    (n < usesOf issued l.slot ∨ ∀ c, cells l.slot = some c → c.tuple = none)

namespace History

variable {floor : Nat} {cells cells' : Nat → Option Cell} {issued gone : List TupleLocator}

theorem insert (h : History floor cells issued gone) {pageId k g : Nat} {value : Bytes}
    (hi : Inserted floor cells value k g cells') :
    History floor cells' (⟨pageId, k, g⟩ :: issued) gone := by
  obtain ⟨hclaim, rfl⟩ := hi
  have huses : ∀ i, usesOf (⟨pageId, k, g⟩ :: issued) i =
      usesOf issued i + if k = i then 1 else 0 := by
    intro i
    simp [usesOf, List.countP_cons]
  have hg : g = (floor + (usesOf issued k + 1)) % 2 ^ 32 := by
    rcases hclaim with ⟨c, hc, -, hg⟩ | ⟨hnone, hg⟩
    · have := h.generation k c hc
      omega
    · have := h.fresh k hnone
      omega
  refine ⟨fun i c hc => ?_, fun i hnone => ?_, fun l hl => ?_⟩
  · rw [huses]
    by_cases hik : i = k
    · subst hik
      rw [update_self] at hc
      cases hc
      simpa using hg
    · rw [update_of_ne hik] at hc
      simpa [Ne.symm hik] using h.generation i c hc
  · have hik : i ≠ k := by
      rintro rfl
      simp at hnone
    rw [update_of_ne hik] at hnone
    rw [huses, if_neg (Ne.symm hik), h.fresh i hnone]
  · obtain ⟨n, hpos, hle, hgen, hlast⟩ := h.gone l hl
    rw [huses]
    by_cases hlk : l.slot = k
    · exact ⟨n, hpos, by omega, hgen, .inl (by rw [if_pos hlk.symm]; omega)⟩
    · rw [update_of_ne hlk, if_neg (Ne.symm hlk)]
      exact ⟨n, hpos, hle, hgen, hlast⟩

variable {l : TupleLocator}

variable (h : History floor cells issued gone)

include h

theorem update {value : Option Bytes} (hr : Replaced cells l value cells') :
    History floor cells' issued gone := by
  obtain ⟨⟨c, hc, hgen, hlive⟩, rfl⟩ := hr
  refine ⟨fun i d hd => ?_, fun i hnone => h.fresh i ?_, fun l' hl' => ?_⟩
  · by_cases hik : i = l.slot
    · subst hik
      rw [update_self] at hd
      cases hd
      exact hgen ▸ h.generation _ c hc
    · rw [update_of_ne hik] at hd
      exact h.generation i d hd
  · by_cases hik : i = l.slot
    · simp [hik] at hnone
    · rwa [update_of_ne hik] at hnone
  · obtain ⟨n, hpos, hle, hgen', hlast⟩ := h.gone l' hl'
    refine ⟨n, hpos, hle, hgen', ?_⟩
    by_cases hlk : l'.slot = l.slot
    · exact .inl (hlast.resolve_right fun hnone => hlive (hnone c (hlk ▸ hc)))
    · rwa [update_of_ne hlk]

theorem delete (hr : Replaced cells l none cells') : History floor cells' issued (l :: gone) := by
  have hupd := h.update hr
  obtain ⟨⟨c, hc, hgen, hlive⟩, rfl⟩ := hr
  obtain ⟨hpos, hcount⟩ := h.generation _ c hc
  refine ⟨hupd.generation, hupd.fresh, ?_⟩
  rw [List.forall_mem_cons]
  refine ⟨⟨usesOf issued l.slot, hpos, Nat.le_refl _, hgen ▸ hcount, .inr fun d hd => ?_⟩,
    hupd.gone⟩
  rw [update_self] at hd
  cases hd
  rfl

/-- **A deleted locator stays dead** until its slot has been used more than `2 ^ 32` times. -/
theorem lookup_gone (hl : l ∈ gone) (huses : usesOf issued l.slot ≤ 2 ^ 32) :
    lookup cells l = none := by
  obtain ⟨n, hpos, hle, hgen, hlast⟩ := h.gone l hl
  cases hc : cells l.slot with
  | none => simp [lookup, hc]
  | some c =>
    simp only [lookup, hc, Option.bind_some]
    split
    · have hcell := h.generation _ c hc
      exact (hlast.resolve_left (by omega)) c hc
    · rfl

end History

/-! ## Runs -/

/-- The page holds what was recorded. -/
structure RunOk (size : Nat) (s : PageRun) : Prop where
  ok : SlottedOk size s.page
  exact : s.page.exact = true
  held : ∀ l, l.pageId = s.page.pageId → s.held l = lookup s.page.cellAt l
  foreign : ∀ l, l.pageId ≠ s.page.pageId → s.held l = none
  history : History s.page.generationFloor s.page.cellAt s.issued s.gone

/-- What an operation does to the cells. -/
def Effect (p q : Page) : PageOp → Option TupleLocator → Prop
  | .insert value, named => ∃ k g, named = some ⟨p.pageId, k, g⟩ ∧
      Inserted p.generationFloor p.cellAt value k g q.cellAt
  | .update l value, named => named = some l ∧ Replaced p.cellAt l (some value) q.cellAt
  | .delete l, named => named = some l ∧ Replaced p.cellAt l none q.cellAt
  | .compact, named => named = none ∧ q.cellAt = p.cellAt

variable {size : Nat} {p : Page}

theorem run_spec (hsize : size ≤ 65536) (h : SlottedOk size p) (op : PageOp) :
    (∃ e, op.run size p = (.error e, p)) ∨
      ∃ named q, op.run size p = (.ok named, q) ∧ Kept Slot.len size p q ∧ Effect p q op named := by
  cases op with
  | insert value =>
    rcases insert_spec hsize h value with ⟨e, he⟩ | ⟨k, g, hr, -, -, hw, hins⟩
    · exact .inl ⟨e, by simp [PageOp.run, he, Except.map]⟩
    · exact .inr ⟨_, _, by simp [PageOp.run, hr, Except.map], hw.toKept, k, g, rfl, hins⟩
  | update l value =>
    rcases update_spec hsize h l value with ⟨e, he⟩ | ⟨hr, ⟨_, _, -, hw, -⟩, hrep⟩
    · exact .inl ⟨e, by simp [PageOp.run, he, Except.map]⟩
    · exact .inr ⟨_, _, by simp [PageOp.run, hr, Except.map], hw.toKept, rfl, hrep⟩
  | delete l =>
    rcases delete_spec h l with ⟨e, he⟩ | ⟨hr, -, hw, hrep⟩
    · exact .inl ⟨e, by simp [PageOp.run, he, Except.map]⟩
    · exact .inr ⟨_, _, by simp [PageOp.run, hr, Except.map], hw.toKept, rfl, hrep⟩
  | compact =>
    obtain ⟨hkept, hcells, -⟩ := compact_spec hsize h
    exact .inr ⟨_, _, rfl, hkept, rfl, hcells⟩

variable {op : PageOp} {l : TupleLocator}

/-- An operation changes the lookup of what it names only. -/
theorem Effect.lookup {q : Page} {named : Option TupleLocator} (h : Effect p q op named)
    (haddr : PageRun.Addressed p op) (hl : l.pageId = p.pageId) :
    Pages.lookup q.cellAt l = if some l = named then op.stored else Pages.lookup p.cellAt l := by
  have hstores : ∀ {l' : TupleLocator}, l'.pageId = p.pageId → named = some l' →
      (∀ c, p.cellAt l'.slot = some c → c.tuple = none ∨ c.generation = l'.generation) →
      q.cellAt = update p.cellAt l'.slot (some ⟨l'.generation, op.stored⟩) →
      Pages.lookup q.cellAt l = if some l = named then op.stored else Pages.lookup p.cellAt l := by
    intro l' hl' hnamed hcell hq
    have hsame : l.slot = l'.slot ∧ l.generation = l'.generation ↔ some l = named := by
      cases l
      cases l'
      simp_all
    rw [hq, lookup_update hcell, if_congr hsame rfl rfl]
  have hreplaced : ∀ {l' : TupleLocator}, Replaced p.cellAt l' op.stored q.cellAt → ∀ c,
      p.cellAt l'.slot = some c → c.tuple = none ∨ c.generation = l'.generation := by
    rintro l' ⟨⟨c', hc', hgen, -⟩, -⟩ c hc
    rw [hc'] at hc
    cases hc
    exact .inr hgen
  cases op with
  | insert value =>
    obtain ⟨k, g, hnamed, hclaim, hq⟩ := h
    refine @hstores ⟨p.pageId, k, g⟩ rfl hnamed (fun c hc => ?_) hq
    rcases hclaim with ⟨c', hc', hnone, -⟩ | ⟨hnone, -⟩
    · rw [hc'] at hc
      cases hc
      exact .inl hnone
    · rw [hnone] at hc
      cases hc
  | update => exact hstores haddr h.1 (hreplaced h.2) h.2.2
  | delete l' => exact hstores haddr h.1 (hreplaced h.2) h.2.2
  | compact => rw [h.2, h.1, if_neg nofun]

variable {s : PageRun}

/-- An operation keeps page and records in step. -/
theorem RunOk.step {s' : PageRun} (hsize : size ≤ 65536) (h : RunOk size s)
    (hstep : s.step size op = some s') : RunOk size s' := by
  simp only [PageRun.step] at hstep
  split at hstep
  · next haddr =>
      rcases run_spec hsize h.ok op with ⟨e, hrun⟩ | ⟨named, q, hrun, hkept, heffect⟩
      · rw [hrun] at hstep
        cases hstep
        exact h
      · rw [hrun] at hstep
        cases hstep
        obtain ⟨hid, hfloor, -, -, hexact⟩ := hkept.preserved
        have hheld : ∀ l, (s.record op named).held l =
            if some l = named then op.stored else s.held l := by
          intro l
          cases named with
          | none => simp [PageRun.record]
          | some l' => simp [PageRun.record, update_apply]
        refine ⟨hkept.ok, hexact.trans h.exact, fun l hl => ?_, fun l hl => ?_, ?_⟩ <;>
          simp only [hid, hfloor] at *
        · rw [hheld, heffect.lookup haddr hl, h.held l hl]
        · rw [hheld, if_neg, h.foreign l hl]
          rintro rfl
          apply hl
          cases op with
          | insert value =>
            obtain ⟨k, g, hnamed, -⟩ := heffect
            rw [Option.some.inj hnamed]
          | update | delete =>
            cases heffect.1
            exact haddr
          | compact => cases heffect.1
        · cases op with
          | insert value =>
            obtain ⟨k, g, rfl, hins⟩ := heffect
            exact h.history.insert hins
          | update l value =>
            obtain ⟨rfl, hrep⟩ := heffect
            exact h.history.update hrep
          | delete l =>
            obtain ⟨rfl, hrep⟩ := heffect
            exact h.history.delete hrep
          | compact =>
            obtain ⟨rfl, hcells⟩ := heffect
            rw [hcells]
            exact h.history
  · cases hstep

theorem RunOk.new (pageId : Nat) (floor : Nat) (hlo : minPageSize ≤ size) (hhi : size ≤ 65536) :
    RunOk size (PageRun.new pageId size floor) := by
  obtain ⟨hok, hcount, hexact, -⟩ := @init_spec Slot.len _ pageId .heap floor hlo hhi
  have hcells : ∀ k, (Page.initWithFloor pageId size floor).cellAt k = none :=
    fun k => if_neg (by rw [Page.initWithFloor, hcount]; exact Nat.not_lt_zero k)
  refine ⟨hok, hexact, fun l _ => ?_, fun _ _ => rfl, ⟨fun k c hc => ?_, fun _ _ => rfl, nofun⟩⟩ <;>
    simp only [PageRun.new] at *
  · simp [lookup, hcells]
  · rw [hcells] at hc
    cases hc

theorem RunOk.reach {pageId floor : Nat} (hlo : minPageSize ≤ size) (hhi : size ≤ 65536)
    (h : Reach (PageRun.step size) (fun _ _ => True) (PageRun.new pageId size floor) s) :
    RunOk size s :=
  h.invariant (RunOk size) (.new pageId floor hlo hhi) fun _ _ _ hs _ hstep => hs.step hhi hstep

theorem get_eq_ok_iff {value : Bytes} :
    p.get l = .ok value ↔ lookup p.cellAt l = some value := by
  rw [← get_eq_lookup]
  cases p.get l <;> simp [Except.toOption]

theorem RunOk.get (h : RunOk size s) {value : Bytes} (hheld : s.held l = some value) :
    s.page.get l = .ok value := by
  rw [get_eq_ok_iff]
  by_cases hl : l.pageId = s.page.pageId
  · rw [← h.held l hl, hheld]
  · rw [h.foreign l hl] at hheld
    cases hheld

/-- **A slotted page is a store keyed by locators**, in every run on a page of 512 to 65536 bytes; a
deleted locator does not resolve while no slot has been reused `2 ^ 32` times. -/
theorem slottedPage_is_store {pageId size floor : Nat} (hlo : minPageSize ≤ size)
    (hhi : size ≤ 65536) {s : PageRun}
    (h : Reach (PageRun.step size) (fun _ _ => True) (PageRun.new pageId size floor) s) :
    (∀ l value, s.held l = some value → s.page.get l = .ok value) ∧
    ((∀ slot, s.uses slot ≤ 2 ^ 32) → ∀ l ∈ s.gone, ∀ value, s.page.get l ≠ .ok value) ∧
    (∀ i < s.page.slotCount, (s.page.slotAt i).offset ≠ deadOffset →
      Page.slotOffset s.page.slotCount ≤ (s.page.slotAt i).offset ∧
        (s.page.slotAt i).offset + (s.page.slotAt i).len ≤ size - pageTrailerBytes) ∧
    ∀ op, PageRun.Addressed s.page op →
      match op.run size s.page with
      | (.error _, p) => p = s.page
      | (.ok named, p) => ∀ l, l.pageId = s.page.pageId → some l ≠ named →
          (p.get l).toOption = (s.page.get l).toOption := by
  have hok := RunOk.reach hlo hhi h
  refine ⟨fun l value hheld => hok.get hheld, fun huses l hl value hres => ?_, fun i hi hlive => ?_,
    fun op haddr => ?_⟩
  · rw [get_eq_ok_iff, hok.history.lookup_gone hl (huses l.slot)] at hres
    cases hres
  · obtain ⟨hend, htop⟩ := hok.ok.inside i hi hlive
    exact ⟨(hok.ok.start ▸ hok.ok.room).trans hend, htop⟩
  · rcases run_spec hhi hok.ok op with ⟨e, hrun⟩ | ⟨named, q, hrun, -, heffect⟩
    · rw [hrun]
    · rw [hrun]
      intro l hl hne
      rw [get_eq_lookup, get_eq_lookup, heffect.lookup haddr hl, if_neg hne]

/-- A slot is used twice; the first locator stays dead. -/
theorem slottedPage_is_store_reused :
    ∃ s, Reach (PageRun.step 512) (fun _ _ => True) (PageRun.new 7 512 0) s ∧
      s.page.get ⟨7, 0, 2⟩ = .ok [9, 9, 9] ∧ ∀ value, s.page.get ⟨7, 0, 1⟩ ≠ .ok value := by
  refine exists_reach_imp (fun s => s.held ⟨7, 0, 2⟩ = some [9, 9, 9] ∧ ⟨7, 0, 1⟩ ∈ s.gone ∧
    s.issued.length ≤ 2 ^ 32)
      [.insert [1], .insert [2, 3], .delete ⟨7, 0, 1⟩, .insert [4], .compact,
      .update ⟨7, 0, 2⟩ [9, 9, 9]] (by decide +kernel) fun hreach ⟨hheld, hgone, hissued⟩ => ?_
  obtain ⟨hget, hdead, -⟩ := slottedPage_is_store (by decide) (by decide) hreach
  exact ⟨hget _ _ hheld, hdead (fun _ => (List.countP_le_length).trans hissued) _ hgone⟩

end BicDb.Pages
