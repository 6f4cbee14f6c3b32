import BicDb.Pages.Slotted

/-!
# Repairing the free list

Free pages are linked through `next_page`. `truncate_free_list_at_corruption` walks the links of a
damaged file and cuts the list before the first that `allocate` would refuse. The walk records no
page twice (`Trail.fresh`).

## What this module delivers

* `truncation_restores_free_list`: afterwards the list is in order, and a second repair finds
  nothing; the superblock is accepted unless the file has no page.
* `truncation_leaves_empty_file`: a file without pages.
-/

namespace BicDb.Pages

open List Function

/-- What the walk reads of a page header. -/
structure FreeHeader where
  pageType : PageType
  nextPage : Nat
  deriving DecidableEq

/-- The fields of the superblock that describe the free list. -/
structure Superblock where
  pageCount : Nat
  freeListHead : Nat
  freePageCount : Nat
  generation : Nat
  deriving DecidableEq

/-- A page file: the superblock and the result of `read_header` for each page. -/
structure PageFile where
  superblock : Superblock
  header : Nat → Except String FreeHeader

/-- What a truncation found, and whether it was made. -/
structure FreeListTruncateReport where
  advertised : Nat
  validPrefix : Nat
  corruptPage : Option Nat
  corruptReason : Option String
  applied : Bool
  deriving DecidableEq

/-- `validate_free_list_metadata`, with the reason of the corruption. -/
def Superblock.validateFreeList (sb : Superblock) : Except String Unit :=
  if sb.pageCount = 0 then .error "page count cannot be zero"
  else if decide (sb.freeListHead = 0) != decide (sb.freePageCount = 0) then
    .error "head and advertised free-page count disagree"
  else if sb.pageCount - 1 < sb.freePageCount then
    .error "advertised free pages exceed allocatable pages"
  else if sb.pageCount ≤ sb.freeListHead ∧ sb.freeListHead ≠ 0 then
    .error "head points beyond the logical page file"
  else .ok ()

namespace PageFile

variable (file : PageFile)

/-- The walk from `cursor`: the pages and their links, and where and why it ended before a link of
zero. -/
def walk : Nat → Nat → List (Nat × Nat) → List (Nat × Nat) × Option (Nat × String)
  | 0, cursor, chain =>
    if cursor = 0 then (chain, none)
    else
      let advertised := file.superblock.freePageCount
      (chain, some (cursor, s!"walk exceeds the advertised {advertised} pages (cycle?)"))
  | room + 1, cursor, chain =>
    if cursor = 0 then (chain, none)
    else
      let pageCount := file.superblock.pageCount
      if pageCount ≤ cursor then
        (chain, some (cursor, s!"link points beyond the logical file ({cursor} >= {pageCount})"))
      else
        match file.header cursor with
        | .error e => (chain, some (cursor, s!"header unreadable: {e}"))
        | .ok header =>
          if header.pageType ≠ .free then
            let found := header.pageType.toU8
            (chain, some (cursor, s!"page has type {found}, expected 6"))
          else if chain.any fun link => link.1 = header.nextPage then
            (chain, some (header.nextPage, "links form a cycle"))
          else walk room header.nextPage (chain ++ [(cursor, header.nextPage)])

/-- What the truncation publishes: the link of the last page that is kept, then the superblock. -/
def publish (chain : List (Nat × Nat)) : PageFile :=
  let sb := { file.superblock with
    generation := min (file.superblock.generation + 1) (2 ^ 64 - 1) }
  match chain.getLast? with
  | some (last, next) =>
    { superblock := { sb with freePageCount := chain.length }
      header := if next ≠ 0 then update file.header last (.ok ⟨.free, 0⟩)
        else file.header }
  | none => { file with superblock := { sb with freeListHead := 0, freePageCount := 0 } }

/-- Cuts the free list where it is corrupt. -/
def truncateFreeListAtCorruption (apply : Bool) : FreeListTruncateReport × PageFile :=
  let advertised := file.superblock.freePageCount
  let (chain, corrupt) := file.walk advertised file.superblock.freeListHead []
  let report : FreeListTruncateReport :=
    ⟨advertised, chain.length, corrupt.map Prod.fst, corrupt.map Prod.snd, false⟩
  if apply ∧ (corrupt ≠ none ∨ chain.length ≠ advertised) then
    ({ report with applied := true }, file.publish chain)
  else (report, file)

end PageFile

/-! ## Chains of free pages -/

/-- Links between free pages lead from `start` through `pages` to `stop`. -/
def Chained (header : Nat → Except String FreeHeader) (start : Nat) : List Nat → Nat → Prop
  | [], stop => start = stop
  | page :: rest, stop =>
    start = page ∧ ∃ next, header page = .ok ⟨.free, next⟩ ∧ Chained header next rest stop

/-- A free list in order: as long as the superblock says, within the file, and no page twice. -/
structure FreeListOk (file : PageFile) (pages : List Nat) : Prop where
  chained : Chained file.header file.superblock.freeListHead pages 0
  nodup : pages.Nodup
  inside : ∀ page ∈ pages, page ≠ 0 ∧ page < file.superblock.pageCount
  count : pages.length = file.superblock.freePageCount

variable {header : Nat → Except String FreeHeader} {start stop page : Nat} {pages : List Nat}

theorem chained_append_singleton : Chained header start (pages ++ [page]) stop ↔
    Chained header start pages page ∧ header page = .ok ⟨.free, stop⟩ := by
  induction pages generalizing start with
  | nil => simp [Chained]
  | cons first pages ih =>
    simp only [cons_append, Chained, ih, and_assoc]
    constructor <;> simp +contextual

theorem Chained.update (h : Chained header start pages stop) (hp : page ∉ pages)
    (new : Except String FreeHeader) :
    Chained (update header page new) start pages stop := by
  induction pages generalizing start with
  | nil => exact h
  | cons first pages ih =>
    rw [mem_cons, not_or] at hp
    obtain ⟨hstart, next, hheader, hrest⟩ := h
    refine ⟨hstart, next, ?_, ih hrest hp.2⟩
    rwa [update_of_ne (Ne.symm hp.1)]

/-- What a walk has behind it at `cursor`. -/
structure Trail (file : PageFile) (chain : List (Nat × Nat)) (cursor : Nat) : Prop where
  chained : Chained file.header file.superblock.freeListHead (chain.map Prod.fst) cursor
  nodup : (chain.map Prod.fst).Nodup
  inside : ∀ page ∈ chain.map Prod.fst, page ≠ 0 ∧ page < file.superblock.pageCount
  last : ∀ link ∈ chain.getLast?, link.2 = cursor
  fresh : cursor ∈ chain.map Prod.fst → file.header cursor = .ok ⟨.free, cursor⟩

variable {file : PageFile} {chain : List (Nat × Nat)} {cursor : Nat}

theorem Trail.record (h : Trail file chain cursor) (hpos : cursor ≠ 0)
    (hin : cursor < file.superblock.pageCount) {next : Nat}
    (hheader : file.header cursor = .ok ⟨.free, next⟩) (hnew : next ∉ chain.map Prod.fst) :
    Trail file (chain ++ [(cursor, next)]) next := by
  have hcursor : cursor ∉ chain.map Prod.fst := by
    intro hmem
    have hself := h.fresh hmem
    rw [hheader] at hself
    cases hself
    exact hnew hmem
  have hmap : (chain ++ [(cursor, next)]).map Prod.fst = chain.map Prod.fst ++ [cursor] := by simp
  constructor
  · rw [hmap]
    exact chained_append_singleton.mpr ⟨h.chained, hheader⟩
  · rw [hmap, nodup_append_comm]
    exact nodup_cons.mpr ⟨hcursor, h.nodup⟩
  · rw [hmap, forall_mem_append]
    exact ⟨h.inside, by simpa using ⟨hpos, hin⟩⟩
  · simp
  · rw [hmap, mem_append, mem_singleton]
    rintro (hmem | rfl)
    · exact absurd hmem hnew
    · exact hheader

/-- **The walk** records a chain, which ends at zero if nothing was found wrong. -/
theorem Trail.walk (room : Nat) (h : Trail file chain cursor) :
    ∃ stop, Trail file (file.walk room cursor chain).1 stop ∧
      ((file.walk room cursor chain).2 = none → stop = 0) := by
  induction room generalizing chain cursor with
  | zero =>
    unfold PageFile.walk
    split
    · next hzero => exact ⟨cursor, h, fun _ => hzero⟩
    · exact ⟨cursor, h, nofun⟩
  | succ room ih =>
    unfold PageFile.walk
    -- every round but the recording one ends the walk where it stands
    split
    · next hzero => exact ⟨cursor, h, fun _ => hzero⟩
    next hpos =>
    dsimp only
    split
    · exact ⟨cursor, h, nofun⟩
    next hin =>
    split
    · exact ⟨cursor, h, nofun⟩
    next header hheader =>
    split
    · exact ⟨cursor, h, nofun⟩
    next htype =>
    split
    · exact ⟨cursor, h, nofun⟩
    next hcycle =>
    obtain ⟨pageType, next⟩ := header
    cases not_not.mp htype
    have hnew : next ∉ chain.map Prod.fst := by simpa using hcycle
    exact ih (h.record hpos (Nat.lt_of_not_le hin) hheader hnew)

theorem Trail.publish (h : Trail file chain cursor) :
    FreeListOk (file.publish chain) (chain.map Prod.fst) := by
  rcases eq_nil_or_concat chain with rfl | ⟨init, ⟨last, next⟩, rfl⟩
  · exact ⟨rfl, .nil, by simp, rfl⟩
  have hnext : next = cursor := h.last (last, next) (by simp)
  have hchained := h.chained
  have hnodup := h.nodup
  simp only [concat_eq_append, map_append, map_cons, map_nil] at *
  have hlast : last ∉ init.map Prod.fst := by
    rw [nodup_append_comm] at hnodup
    exact (nodup_cons.mp hnodup).1
  refine ⟨?_, hnodup, ?_, by simp [PageFile.publish]⟩
  · simp only [PageFile.publish, getLast?_append, getLast?_singleton, Option.some_or]
    rw [chained_append_singleton] at hchained ⊢
    split
    · exact ⟨hchained.1.update hlast _, update_self ..⟩
    · next hzero =>
        rwa [← hnext, not_not.mp hzero] at hchained
  · simpa [PageFile.publish] using h.inside

theorem walk_of_chained {pages : List Nat} (h : Chained file.header cursor pages 0)
    (hnodup : (chain.map Prod.fst ++ pages).Nodup)
    (hinside : ∀ page ∈ chain.map Prod.fst ++ pages, page ≠ 0 ∧ page < file.superblock.pageCount) :
    (file.walk pages.length cursor chain).1.length = chain.length + pages.length ∧
      (file.walk pages.length cursor chain).2 = none := by
  induction pages generalizing cursor chain with
  | nil => simp [PageFile.walk, show cursor = 0 from h]
  | cons page pages ih =>
    obtain ⟨rfl, next, hheader, hrest⟩ := h
    obtain ⟨hpos, hin⟩ := hinside cursor (by simp)
    -- the link goes on to a page that is still to come, or to the end
    have hnew : next ∉ chain.map Prod.fst := by
      intro hmem
      cases pages with
      | nil => exact (hinside next (mem_append_left _ hmem)).1 hrest
      | cons =>
        obtain ⟨rfl, -⟩ := hrest
        exact disjoint_of_nodup_append hnodup hmem (by simp)
    have hany : ¬ (chain.any fun link => decide (link.1 = next)) = true := by simpa using hnew
    have hmap : (chain ++ [(cursor, next)]).map Prod.fst ++ pages =
        chain.map Prod.fst ++ cursor :: pages := by simp
    have hgo := @ih (chain ++ [(cursor, next)]) next hrest (hmap ▸ hnodup) (hmap ▸ hinside)
    rw [length_cons, PageFile.walk, if_neg hpos]
    simp only [if_neg (Nat.not_le.mpr hin), hheader, ne_eq, not_true_eq_false, if_false,
      if_neg hany]
    rw [hgo.1, length_append, length_singleton]
    exact ⟨by omega, hgo.2⟩

theorem FreeListOk.truncate (h : FreeListOk file pages) :
    file.truncateFreeListAtCorruption true =
      (⟨pages.length, pages.length, none, none, false⟩, file) := by
  obtain ⟨hlen, hnone⟩ := @walk_of_chained file [] _ _ h.chained (by simpa using h.nodup)
    (by simpa using h.inside)
  rw [h.count] at hlen hnone
  simp only [PageFile.truncateFreeListAtCorruption, hlen, hnone, h.count]
  simp

theorem FreeListOk.validates (h : FreeListOk file pages) (hcount : 0 < file.superblock.pageCount) :
    file.superblock.validateFreeList = .ok () := by
  have hlen : pages.length ≤ file.superblock.pageCount - 1 := by
    have hsub : pages ⊆ range' 1 (file.superblock.pageCount - 1) := by
      intro page hpage
      obtain ⟨hpos, hin⟩ := h.inside page hpage
      rw [mem_range'_1]
      omega
    simpa using (h.nodup.subperm hsub).length_le
  have hcountEq := h.count
  have hchained := h.chained
  unfold Superblock.validateFreeList
  cases pages with
  | nil =>
    simp [← hcountEq, show file.superblock.freeListHead = 0 from hchained, hcount.ne']
  | cons page pages =>
    obtain ⟨hpos, hin⟩ := h.inside page (by simp)
    have hzero : file.superblock.freePageCount ≠ 0 := by
      rw [← hcountEq]
      simp
    rw [hchained.1, if_neg hcount.ne', if_neg (by simp [hpos, hzero]), if_neg (by omega),
      if_neg (by omega)]

theorem FreeListOk.validates_iff (h : FreeListOk file pages) :
    file.superblock.validateFreeList = .ok () ↔ 0 < file.superblock.pageCount := by
  refine ⟨fun hvalid => Nat.pos_of_ne_zero fun hzero => ?_, h.validates⟩
  rw [Superblock.validateFreeList, if_pos hzero] at hvalid
  cases hvalid

/-- **Truncation restores the free list.** Whatever the pages hold, the list is in order afterwards:
the first pages of the old one, as many as the superblock counts. The check of the superblock passes
unless the file has no page at all. -/
theorem truncation_restores_free_list (file : PageFile) :
    ∃ pages stop, Chained file.header file.superblock.freeListHead pages stop ∧
      FreeListOk (file.truncateFreeListAtCorruption true).2 pages ∧
      (file.truncateFreeListAtCorruption true).2.truncateFreeListAtCorruption true =
        (⟨pages.length, pages.length, none, none, false⟩,
          (file.truncateFreeListAtCorruption true).2) ∧
      ((file.truncateFreeListAtCorruption true).2.superblock.validateFreeList = .ok () ↔
        0 < file.superblock.pageCount) := by
  have hstart : Trail file [] file.superblock.freeListHead := ⟨rfl, .nil, by simp, by simp, by simp⟩
  obtain ⟨stop, htrail, hend⟩ := hstart.walk file.superblock.freePageCount
  refine ⟨_, stop, htrail.chained, ?_⟩
  suffices h : FreeListOk (file.truncateFreeListAtCorruption true).2 _ ∧
      (file.truncateFreeListAtCorruption true).2.superblock.pageCount =
        file.superblock.pageCount from
    ⟨h.1, h.1.truncate, h.1.validates_iff.trans (by rw [h.2])⟩
  simp only [PageFile.truncateFreeListAtCorruption, true_and]
  split
  · refine ⟨htrail.publish, ?_⟩
    unfold PageFile.publish
    split <;> rfl
  · next hok =>
      rw [not_or, not_not, not_not] at hok
      refine ⟨⟨?_, htrail.nodup, htrail.inside, by rw [length_map]; exact hok.2⟩, rfl⟩
      rw [← hend hok.1]
      exact htrail.chained

/-- Pages 2 and 5 link to each other, behind page 3. -/
def cyclicFile : PageFile where
  superblock := ⟨6, 3, 4, 7⟩
  header := fun page =>
    if page = 3 then .ok ⟨.free, 2⟩ else if page = 2 then .ok ⟨.free, 5⟩
    else if page = 5 then .ok ⟨.free, 2⟩ else .error "checksum mismatch"

/-- The cut list of a cyclic file is in order. -/
theorem truncation_restores_cyclic_list :
    ((cyclicFile.truncateFreeListAtCorruption true).2.truncateFreeListAtCorruption true).1 =
      ⟨2, 2, none, none, false⟩ := by
  obtain ⟨pages, -, -, hok, hagain, -⟩ := truncation_restores_free_list cyclicFile
  have hlen : pages.length = 2 := hok.count
  rw [hagain, hlen]

/-- A file without pages is refused whatever its free list is. -/
theorem truncation_leaves_empty_file :
    ∃ file : PageFile, (file.truncateFreeListAtCorruption true).2.superblock.validateFreeList =
      .error "page count cannot be zero" :=
  ⟨⟨⟨0, 0, 0, 1⟩, fun _ => .error "short read"⟩, by decide⟩

end BicDb.Pages
