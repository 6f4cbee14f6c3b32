import Mathlib.Data.List.Basic
import Mathlib.Logic.Function.Basic
import Mathlib.Algebra.GroupWithZero.Nat

/-!
# Publishing a segment

`publish_segment` of `fts_segment.rs`, as its steps in the directory of the segment: it creates and
fills `terms.dat`, writes the manifest to a temporary file and renames it, and then removes its
inputs one by one. A crash leaves the files as after some of these steps, and the call is made
again, with another name for the temporary file.

The main result, `publishSegment_restarts`, says exactly after which crashes the second call returns
the same count and leaves the same files: those that left everything but `terms.dat` and
`manifest.json` as it was, and those after the last step. `publishSegment_removed_fails` is a crash
between the two.
-/

namespace BicDb.FullText

open List Function

/-- What a phase of the build leaves for publishing. -/
structure PhaseState where
  bytes : Nat
  sha256 : String
  docsBytes : Nat
  docsSha256 : String
  partDataBytes : List Nat

/-- A file of the segment with its length and its checksum. -/
structure ManifestFile where
  name : String
  bytes : Nat
  sha256 : String

/-- The record that a segment is complete. -/
structure SegmentManifest where
  format : Nat
  termCount : Nat
  files : List ManifestFile

/-- The files that publishing reads and writes. The metadata files are those of a sequential build
or of a part; the temporary manifest has a fresh identifier in its name. -/
inductive SegmentFile where
  | terms
  | manifest
  | manifestTmp (uuid : Nat)
  | pkState
  | impactState
  | termsPkTmp (part : Option Nat)
  | termsImpactTmp (part : Option Nat)
  deriving DecidableEq

/-- What a file holds. -/
inductive Content where
  | bytes (bytes : List UInt8)
  | state (state : PhaseState)
  | manifest (manifest : SegmentManifest)

/-- The directory of a segment. -/
abbrev SegmentDir := SegmentFile → Option Content

/-- Write a file, or remove it. -/
abbrev FileUpdate := SegmentFile × Option Content

/-- What one step does at once: a rename writes one file and removes another. -/
abbrev FileStep := List FileUpdate

/-- The merge loop over one pair of metadata files gives what it writes, and its state or an error.
The buffered writer and the write of the manifest may reach the disk in several pieces. -/
structure Merge (σ : Type) where
  start : σ
  part : σ → List UInt8 → List UInt8 → Nat → Nat → List UInt8 × Except String σ
  footer : σ → List UInt8
  termCount : σ → Nat
  sha256 : List UInt8 → String
  flushes : List UInt8 → List (List UInt8)
  manifestWrites : SegmentManifest → List (List UInt8)

variable {σ : Type} (merge : Merge σ) (dir : SegmentDir) (uuid : Nat)

/-- The parts of the build, and where their data start. -/
def tmpPairs (pkState impactState : PhaseState) : Except String (List (Option Nat × Nat × Nat)) :=
  if pkState.partDataBytes = [] then .ok [(none, 0, 0)]
  else if impactState.partDataBytes.length ≠ pkState.partDataBytes.length then
    .error "segment part manifests disagree; the build is torn"
  else .ok ((range pkState.partDataBytes.length).map fun part =>
    (some part, (pkState.partDataBytes.take part).sum, (impactState.partDataBytes.take part).sum))

/-- The merge over all pairs: what is written up to its end or its error. -/
def mergeParts : σ → List (Option Nat × Nat × Nat) → List UInt8 × Except String σ
  | s, [] => ([], .ok s)
  | s, (part, pkOffset, impactOffset) :: pairs =>
    match dir (.termsPkTmp part), dir (.termsImpactTmp part) with
    | some (.bytes pk), some (.bytes impact) =>
      match merge.part s pk impact pkOffset impactOffset with
      | (out, .error e) => (out, .error e)
      | (out, .ok s) => (mergeParts s pairs).map (out ++ ·) id
    | _, _ => ([], .error "cannot open")

/-- A file is given one content after the other. -/
def writes (file : SegmentFile) (contents : List Content) : List FileStep :=
  contents.map fun content => [(file, some content)]

/-- The steps of the buffered writer: the file is created empty and filled by flushes. -/
def createTerms (terms : List UInt8) : List FileStep :=
  writes .terms (([] :: merge.flushes terms).map .bytes)

/-- `write_atomic`: a temporary file is created, written and renamed. -/
def writeManifest (manifest : SegmentManifest) : List FileStep :=
  writes (.manifestTmp uuid)
      (([] :: merge.manifestWrites manifest).map Content.bytes ++ [.manifest manifest]) ++
    [[(.manifest, some (.manifest manifest)), (.manifestTmp uuid, none)]]

/-- The metadata files that are removed, those of a sequential build in any case. -/
def metadataFiles (parts : List (Option Nat)) : List SegmentFile :=
  (parts ++ [none]).flatMap fun part => [.termsPkTmp part, .termsImpactTmp part]

/-- All that is removed at the end, in this order; the states of the phases come last. -/
def cleanupFiles (parts : List (Option Nat)) : List SegmentFile :=
  metadataFiles parts ++ [.pkState, .impactState]

/-- Remove files in their order, the result of each removal ignored. -/
def removeFiles (files : List SegmentFile) : List FileStep := files.map fun file => [(file, none)]

/-- The steps of a merge that succeeded. -/
def publishSteps (terms : List UInt8) (manifest : SegmentManifest) (parts : List (Option Nat)) :
    List FileStep :=
  createTerms merge terms ++ writes .terms [.bytes terms] ++ writeManifest merge uuid manifest ++
    removeFiles (cleanupFiles parts)

/-- The call once it has not returned early, with the steps it takes. -/
def publishParts : Except String Nat × List FileStep :=
  match dir .pkState, dir .impactState with
  | some (.state pkState), some (.state impactState) =>
    match tmpPairs pkState impactState with
    | .error e => (.error e, [])
    | .ok pairs =>
      match mergeParts merge dir merge.start pairs with
      | (out, .error e) => (.error e, createTerms merge out)
      | (out, .ok s) =>
        let terms := out ++ merge.footer s
        let manifest := ⟨6, merge.termCount s,
          [⟨"postings.dat", pkState.bytes, pkState.sha256⟩,
            ⟨"docs.dat", pkState.docsBytes, pkState.docsSha256⟩,
            ⟨"impacts.dat", impactState.bytes, impactState.sha256⟩,
            ⟨"terms.dat", terms.length, merge.sha256 terms⟩]⟩
        (.ok manifest.termCount, publishSteps merge uuid terms manifest (pairs.map Prod.fst))
  | _, _ => (.error "cannot read", [])

/-- `publish_segment`: it returns early where the manifest is there and the first state is not. -/
def publishSegment : Except String Nat × List FileStep :=
  match dir .pkState, dir .manifest with
  | none, some (.manifest manifest) => (.ok manifest.termCount, [])
  | none, some _ => (.error "cannot parse", [])
  | _, _ => publishParts merge dir uuid

/-- The directory after some updates. -/
def apply (updates : List FileUpdate) : SegmentDir :=
  updates.foldl (fun dir u => update dir u.1 u.2) dir

/-- The directory after some steps. -/
def after (steps : List FileStep) : SegmentDir := apply dir steps.flatten

/-- The second call does what an uninterrupted run does: it returns the same count, and leaves the
same files. -/
def Restarts (steps : Nat) (uuid' : Nat) : Prop :=
  let crashed := after dir ((publishSegment merge dir uuid).2.take steps)
  (publishSegment merge crashed uuid').1 = (publishSegment merge dir uuid).1 ∧
    after crashed (publishSegment merge crashed uuid').2 =
      after dir (publishSegment merge dir uuid).2

/-- Everything but what publishing writes for readers. -/
def SegmentFile.isKept : SegmentFile → Bool
  | .terms | .manifest => false
  | _ => true

/-- What publishing reads, but for the manifest. -/
def SegmentFile.isInput : SegmentFile → Bool
  | .terms | .manifest | .manifestTmp _ => false
  | _ => true

/-! ## Updates -/

variable {merge dir uuid} {uuid' : Nat} {file : SegmentFile}

theorem apply_append (updates updates' : List FileUpdate) :
    apply dir (updates ++ updates') = apply (apply dir updates) updates' := foldl_append

theorem after_append (steps steps' : List FileStep) :
    after dir (steps ++ steps') = after (after dir steps) steps' := by
  rw [after, flatten_append, apply_append]
  rfl

theorem apply_of_not_mem {updates : List FileUpdate} (h : file ∉ updates.map Prod.fst) :
    apply dir updates file = dir file := by
  induction updates generalizing dir with
  | nil => rfl
  | cons u updates ih =>
    rw [map_cons, mem_cons, not_or] at h
    exact (ih h.2).trans (update_of_ne h.1 _ _)

/-- Steps that write one file leave the others. -/
theorem after_writes_of_ne {target : SegmentFile} (contents : List Content) (h : file ≠ target) :
    after dir (writes target contents) file = dir file := by
  apply apply_of_not_mem
  simp [writes, h]

/-- The content that was written last is there. -/
theorem after_writes_concat (target : SegmentFile) (contents : List Content) (last : Content) :
    after dir (writes target (contents ++ [last])) target = some last := by
  rw [writes, map_append, after_append]
  exact update_self ..

theorem after_removeFiles (files : List SegmentFile) :
    after dir (removeFiles files) file = if file ∈ files then none else dir file := by
  induction files generalizing dir with
  | nil => rfl
  | cons target files ih =>
    refine ih.trans ?_
    by_cases hmem : file ∈ files
    · simp [hmem]
    · by_cases hfile : file = target
      · simp [hfile, update_self]
      · simp [hmem, hfile]

/-- The directory once `terms.dat` is complete. -/
theorem after_terms (terms : List UInt8) :
    after dir (createTerms merge terms ++ writes .terms [.bytes terms]) file =
      if file = .terms then some (.bytes terms) else dir file := by
  have hjoin : createTerms merge terms ++ writes .terms [.bytes terms] =
      writes .terms (([] :: merge.flushes terms).map .bytes ++ [.bytes terms]) := by
    rw [createTerms, writes, writes, writes, map_append]
  rw [hjoin]
  split_ifs with hfile
  · rw [hfile, after_writes_concat]
  · exact after_writes_of_ne _ hfile

/-- The directory once the manifest has been renamed. -/
theorem after_writeManifest (manifest : SegmentManifest) :
    after dir (writeManifest merge uuid manifest) file =
      if file = .manifest then some (.manifest manifest)
      else if file = .manifestTmp uuid then none else dir file := by
  rw [writeManifest, after_append]
  change update (update _ _ _) _ _ file = _
  by_cases htmp : file = .manifestTmp uuid
  · rw [htmp, update_self, if_neg (by simp), if_pos rfl]
  · rw [update_of_ne htmp, if_neg htmp, update_apply, after_writes_of_ne _ htmp]

/-- The directory after a run that succeeds. -/
theorem after_publishSteps (terms : List UInt8) (manifest : SegmentManifest)
    (parts : List (Option Nat)) :
    after dir (publishSteps merge uuid terms manifest parts) file =
      if file ∈ cleanupFiles parts then none
      else if file = .manifest then some (.manifest manifest)
      else if file = .manifestTmp uuid then none
      else if file = .terms then some (.bytes terms) else dir file := by
  rw [publishSteps, after_append, after_removeFiles, after_append, after_writeManifest, after_terms]

/-! ## The directory after a crash -/

/-- What a crash within the steps of a run can leave. -/
inductive Crashed (dir : SegmentDir) (uuid : Nat) (manifest : SegmentManifest) (first : Option Nat)
    (crashed : SegmentDir) : Prop where
  /-- Nothing but `terms.dat` and the manifest has changed. -/
  | kept : (∀ file, file.isKept → crashed file = dir file) → Crashed dir uuid manifest first crashed
  /-- The temporary manifest is there, and the inputs are. -/
  | pending : (∀ file, file.isInput → crashed file = dir file) →
      crashed (.manifestTmp uuid) ≠ none → Crashed dir uuid manifest first crashed
  /-- The first metadata file is gone, and the states are there. -/
  | consumed : crashed (.termsPkTmp first) = none → crashed .pkState = dir .pkState →
      crashed .impactState = dir .impactState → Crashed dir uuid manifest first crashed
  /-- All is done but for the removal of the last state. -/
  | left : crashed .pkState = none → crashed .manifest = some (.manifest manifest) →
      crashed .impactState = dir .impactState → Crashed dir uuid manifest first crashed

theorem take_writes (target : SegmentFile) (contents : List Content) (k : Nat) :
    (writes target contents).take k = writes target (contents.take k) := map_take.symm

theorem take_removeFiles (files : List SegmentFile) (k : Nat) :
    (removeFiles files).take k = removeFiles (files.take k) := map_take.symm

theorem not_mem_metadataFiles {parts : List (Option Nat)}
    (h : file = .pkState ∨ file = .impactState ∨
    file = .manifest ∨ ∃ id, file = .manifestTmp id) : file ∉ metadataFiles parts := by
  rcases h with rfl | rfl | rfl | ⟨id, rfl⟩ <;> simp [metadataFiles]

/-- A crash while files are being removed. -/
theorem crashed_removing (hfresh : dir (.manifestTmp uuid) = none) {renamed : SegmentDir}
    (terms : List UInt8) {manifest : SegmentManifest} {first : Option Nat}
    {parts : List (Option Nat)}
    (hrenamed : ∀ file, renamed file = if file = .manifest then some (.manifest manifest)
      else if file = .manifestTmp uuid then none
      else if file = .terms then some (.bytes terms) else dir file)
    {i : Nat} (hi : i < (cleanupFiles (first :: parts)).length) :
    Crashed dir uuid manifest first
      (after renamed (removeFiles ((cleanupFiles (first :: parts)).take i))) := by
  have hstates : ∀ k, .impactState ∉ (metadataFiles (first :: parts)).take k ∧
      .pkState ∉ (metadataFiles (first :: parts)).take k := fun k =>
    ⟨fun h => not_mem_metadataFiles (.inr (.inl rfl)) (mem_of_mem_take h),
      fun h => not_mem_metadataFiles (.inl rfl) (mem_of_mem_take h)⟩
  cases i with
  | zero =>
    refine .kept fun file hfile => ?_
    rw [take_zero, after_removeFiles, if_neg not_mem_nil, hrenamed]
    cases file with
    | manifestTmp id =>
      by_cases hid : id = uuid
      · simp [hid, hfresh]
      · simp [hid]
    | terms | manifest => cases hfile
    | _ => simp
  | succ i =>
    have hfirst : .termsPkTmp first ∈ (cleanupFiles (first :: parts)).take (i + 1) := by
      simp [cleanupFiles, metadataFiles]
    rw [cleanupFiles] at hi hfirst ⊢
    by_cases hmeta : i + 1 ≤ (metadataFiles (first :: parts)).length
    · rw [take_append_of_le_length hmeta] at hfirst ⊢
      refine .consumed ?_ ?_ ?_
      · rw [after_removeFiles, if_pos hfirst]
      · rw [after_removeFiles, if_neg (hstates _).2, hrenamed]
        simp
      · rw [after_removeFiles, if_neg (hstates _).1, hrenamed]
        simp
    · -- only the last state is left
      rw [length_append] at hi
      have hlast : i + 1 = (metadataFiles (first :: parts)).length + 1 := by
        simp only [length_cons, length_nil] at hi
        omega
      rw [hlast, take_length_add_append]
      refine .left ?_ ?_ ?_
      · rw [after_removeFiles, if_pos (by simp)]
      · rw [after_removeFiles, if_neg, hrenamed, if_pos rfl]
        simpa using @not_mem_metadataFiles .manifest (first :: parts) (.inr (.inr (.inl rfl)))
      · rw [after_removeFiles, if_neg, hrenamed]
        · simp
        · simpa using @not_mem_metadataFiles .impactState (first :: parts) (.inr (.inl rfl))

/-- A crash leaves one of the states known, wherever it comes. -/
theorem crashed_take (hfresh : dir (.manifestTmp uuid) = none) (terms : List UInt8)
    (manifest : SegmentManifest) (first : Option Nat) (parts : List (Option Nat)) (k : Nat) :
    (publishSteps merge uuid terms manifest (first :: parts)).take k =
        publishSteps merge uuid terms manifest (first :: parts) ∨
      Crashed dir uuid manifest first
        (after dir ((publishSteps merge uuid terms manifest (first :: parts)).take k)) := by
  by_cases hall : (publishSteps merge uuid terms manifest (first :: parts)).length ≤ k
  · exact .inl (take_of_length_le hall)
  refine .inr ?_
  rw [publishSteps] at hall ⊢
  generalize hbegin : createTerms merge terms ++ writes .terms [.bytes terms] = begin at *
  have hterms (file : SegmentFile) := @after_terms σ merge dir file terms
  rw [hbegin] at hterms
  rcases Nat.le_total k begin.length with hk | hk
  · -- `terms.dat` is being written
    rw [append_assoc, take_append_of_le_length hk, ← hbegin, createTerms, writes, writes,
      ← map_append]
    refine .kept fun file hfile => ?_
    rw [← writes, take_writes]
    exact after_writes_of_ne _ (by rintro rfl; cases hfile)
  obtain ⟨j, rfl⟩ := Nat.exists_eq_add_of_le hk
  rw [append_assoc, take_length_add_append, after_append]
  rcases Nat.lt_or_ge j (writeManifest merge uuid manifest).length with hj | hj
  · -- the temporary manifest is being written
    rw [take_append_of_le_length (Nat.le_of_lt hj)]
    rw [writeManifest] at hj ⊢
    generalize ([] :: merge.manifestWrites manifest).map Content.bytes ++ [.manifest manifest] =
      contents at hj ⊢
    rw [length_append, length_singleton] at hj
    rw [take_append_of_le_length (by omega), take_writes]
    have hothers : ∀ file, file ≠ .terms → file ≠ .manifestTmp uuid →
        after (after dir begin) (writes (.manifestTmp uuid) (contents.take j)) file = dir file := by
      intro file hfile htmp
      rw [after_writes_of_ne _ htmp, hterms, if_neg hfile]
    rcases eq_nil_or_concat (contents.take j) with hnil | ⟨front, last, hlast⟩
    · refine .kept fun file hfile => ?_
      rw [hnil]
      exact (hterms file).trans (if_neg (by rintro rfl; cases hfile))
    · refine .pending (fun file hfile => hothers file ?_ ?_) ?_
      · rintro rfl
        cases hfile
      · rintro rfl
        cases hfile
      · rw [hlast, concat_eq_append, after_writes_concat]
        exact Option.some_ne_none last
  · obtain ⟨i, rfl⟩ := Nat.exists_eq_add_of_le hj
    rw [take_length_add_append, after_append, take_removeFiles]
    refine crashed_removing hfresh terms (fun file => ?_) ?_
    · rw [after_writeManifest, hterms]
    · simp only [length_append, removeFiles, length_map] at hall
      omega

/-! ## The second call -/

/-- With the same inputs and the state of the first phase among them, the call returns the same, and
takes the same steps up to the name of its temporary file. -/
theorem publishSegment_congr {dir' : SegmentDir} (hnew : dir .pkState ≠ none)
    (h : ∀ file, file.isInput → dir' file = dir file) :
    publishSegment merge dir' uuid = publishSegment merge dir uuid := by
  have hmerge : mergeParts merge dir' = mergeParts merge dir := by
    funext s pairs
    induction pairs generalizing s with
    | nil => rfl
    | cons pair pairs ih =>
      simp only [mergeParts, ih, h (.termsPkTmp pair.1) rfl, h (.termsImpactTmp pair.1) rfl]
  obtain ⟨content, hstate⟩ := Option.ne_none_iff_exists'.1 hnew
  simp only [publishSegment, publishParts, h .pkState rfl, h .impactState rfl, hmerge, hstate]

/-- The parts of a build are never none at all. -/
theorem tmpPairs_ne_nil {pkState impactState : PhaseState} {pairs : List (Option Nat × Nat × Nat)}
    (h : tmpPairs pkState impactState = .ok pairs) : pairs ≠ [] := by
  unfold tmpPairs at h
  split_ifs at h with hparts
  · cases h
    exact cons_ne_nil _ _
  · cases h
    simpa using hparts

/-- What a run that succeeds has found: the steps it takes, and that it needs the first metadata
file and the state of the second phase. -/
theorem publishSegment_ok {count : Nat} (h : (publishSegment merge dir uuid).1 = .ok count)
    (hnew : dir .pkState ≠ none) : ∃ terms manifest first parts, manifest.termCount = count ∧
      (∀ uuid', publishSegment merge dir uuid' =
        (.ok count, publishSteps merge uuid' terms manifest (first :: parts))) ∧
      dir .impactState ≠ none ∧ ∀ (dir' : SegmentDir) uuid', dir' .pkState = dir .pkState →
        dir' .impactState = dir .impactState → dir' (.termsPkTmp first) = none →
          (publishSegment merge dir' uuid').1 = .error "cannot open" := by
  obtain ⟨content, hstate⟩ := Option.ne_none_iff_exists'.1 hnew
  have hparts : ∀ (dir' : SegmentDir) uuid', dir' .pkState = dir .pkState →
      publishSegment merge dir' uuid' = publishParts merge dir' uuid' := by
    intro dir' uuid' hsame
    simp only [publishSegment, hsame, hstate]
  rw [hparts dir uuid rfl] at h
  unfold publishParts at h
  split at h
  case h_2 => cases h
  next pkState impactState hpk himpact =>
  split at h
  · cases h
  next pairs hpairs =>
  split at h
  · cases h
  next out s hmerge =>
  cases h
  obtain ⟨⟨first, offsets⟩, rest, rfl⟩ := exists_cons_of_ne_nil (tmpPairs_ne_nil hpairs)
  refine ⟨out ++ merge.footer s, _, first, rest.map Prod.fst, rfl, fun uuid' => ?_, ?_,
    fun dir' uuid' hpk' himpact' hgone => ?_⟩
  · simp only [hparts dir uuid' rfl, publishParts, hpk, himpact, hpairs, hmerge, map_cons]
  · rw [himpact]
    exact Option.some_ne_none _
  · simp only [hparts dir' uuid' hpk', publishParts, hpk', himpact', hpk, himpact,
      hpairs, mergeParts, hgone]

/-- Without the state of the first phase the call takes no step. -/
theorem publishSegment_of_no_state (h : dir .pkState = none) :
    (publishSegment merge dir uuid).2 = [] ∧
      publishSegment merge dir uuid' = publishSegment merge dir uuid := by
  unfold publishSegment publishParts
  rw [h]
  rcases dir .manifest with _ | _ | _ | _ <;> exact ⟨rfl, rfl⟩

/-- Runs that start with the same files, but for those they write, and with fresh names lead to the
same directory. -/
theorem after_publishSteps_congr {dir' : SegmentDir} (hfresh : ∀ id, dir (.manifestTmp id) = none)
    (h : ∀ file, file.isKept → dir' file = dir file) (terms : List UInt8)
    (manifest : SegmentManifest) (parts : List (Option Nat)) :
    after dir' (publishSteps merge uuid' terms manifest parts) =
      after dir (publishSteps merge uuid terms manifest parts) := by
  funext file
  rw [after_publishSteps, after_publishSteps]
  cases file with
  | terms | manifest => simp
  | manifestTmp id => simp [h (.manifestTmp id) rfl, hfresh id]
  | pkState => simp [h .pkState rfl]
  | impactState => simp [h .impactState rfl]
  | termsPkTmp part => simp [h (.termsPkTmp part) rfl]
  | termsImpactTmp part => simp [h (.termsImpactTmp part) rfl]

/-- **Publishing can be repeated** exactly after a crash that left everything but `terms.dat` and
the manifest as it was, or came after the last step. -/
theorem publishSegment_restarts {count : Nat} (h : (publishSegment merge dir uuid).1 = .ok count)
    (hfresh : ∀ id, dir (.manifestTmp id) = none) (hother : uuid ≠ uuid') (k : Nat) :
    Restarts merge dir uuid k uuid' ↔
      (∀ file, file.isKept →
        after dir ((publishSegment merge dir uuid).2.take k) file = dir file) ∨
      after dir ((publishSegment merge dir uuid).2.take k) .impactState = none := by
  unfold Restarts
  by_cases hnew : dir .pkState = none
  · obtain ⟨hsteps, hsame⟩ := @publishSegment_of_no_state σ merge dir uuid uuid' hnew
    simp only [hsteps, take_nil]
    refine iff_of_true ⟨congrArg Prod.fst hsame, ?_⟩ (.inl fun _ _ => rfl)
    exact congrArg (after dir) ((congrArg Prod.snd hsame).trans hsteps)
  obtain ⟨terms, manifest, first, parts, hcount, hruns, himpact, hneeds⟩ := publishSegment_ok h hnew
  have hfinal : after dir (publishSteps merge uuid terms manifest (first :: parts)) .impactState =
      none := by
    rw [after_publishSteps, if_pos (by simp [cleanupFiles])]
  -- a call that finds the manifest and not the first state returns at once
  have hearly : ∀ crashed : SegmentDir, crashed .pkState = none →
      crashed .manifest = some (.manifest manifest) →
        publishSegment merge crashed uuid' = (.ok count, []) := by
    intro crashed hpk hmanifest
    simp only [publishSegment, hpk, hmanifest, hcount]
  simp only [hruns uuid]
  rcases @crashed_take σ merge dir uuid (hfresh uuid) terms manifest first parts k with
    hall | hcrash
  · rw [hall]
    refine iff_of_true ?_ (.inr hfinal)
    rw [hearly _ (by rw [after_publishSteps, if_pos (by simp [cleanupFiles])])
      (by rw [after_publishSteps, if_neg (by simp [cleanupFiles, metadataFiles]), if_pos rfl])]
    exact ⟨rfl, rfl⟩
  generalize after dir ((publishSteps merge uuid terms manifest (first :: parts)).take k) = crashed
    at hcrash ⊢
  cases hcrash with
  | kept hkept =>
    have hinputs : ∀ file, file.isInput → crashed file = dir file := fun file hfile =>
      hkept file (by cases file <;> first | rfl | cases hfile)
    rw [publishSegment_congr hnew hinputs, hruns uuid']
    exact iff_of_true ⟨rfl, after_publishSteps_congr hfresh hkept terms manifest _⟩ (.inl hkept)
  | pending hinputs htmp =>
    rw [publishSegment_congr hnew hinputs, hruns uuid']
    refine iff_of_false (fun hsame => htmp ?_) ?_
    · have := congrFun hsame.2 (.manifestTmp uuid)
      rw [after_publishSteps, after_publishSteps] at this
      simpa [cleanupFiles, metadataFiles, hother] using this
    · rintro (hkept | hgone)
      · exact htmp ((hkept (.manifestTmp uuid) rfl).trans (hfresh uuid))
      · exact himpact ((hinputs .impactState rfl).symm.trans hgone)
  | consumed hgone hpk hstate =>
    have hthere : dir (.termsPkTmp first) ≠ none := by
      intro hnone
      rw [hneeds dir uuid rfl rfl hnone] at h
      cases h
    rw [hneeds crashed uuid' hpk hstate hgone]
    refine iff_of_false (fun hsame => by cases hsame.1) ?_
    rintro (hkept | hlast)
    · exact hthere ((hkept (.termsPkTmp first) rfl).symm.trans hgone)
    · exact himpact (hstate.symm.trans hlast)
  | left hpk hmanifest hstate =>
    rw [hearly crashed hpk hmanifest]
    refine iff_of_false (fun hsame => ?_) ?_
    · have := congrFun hsame.2 .impactState
      rw [hfinal] at this
      exact himpact (hstate.symm.trans this)
    · rintro (hkept | hlast)
      · exact hnew ((hkept .pkState rfl).symm.trans hpk)
      · exact himpact (hstate.symm.trans hlast)

/-! ## A build of two parts -/

/-- A merge for the examples: the metadata of a part are its terms, one byte each. -/
def byteTerms : Merge Nat where
  start := 0
  part := fun s pk _ _ _ => (pk, .ok (s + pk.length))
  footer := fun _ => [0, 0, 0, 0, 66, 70, 84, 83, 84, 82, 77, 49]
  termCount := id
  sha256 := fun _ => ""
  flushes := fun _ => []
  manifestWrites := fun _ => []

/-- A build of two parts with one term each, whose two phases are written. -/
def written : SegmentDir
  | .pkState | .impactState => some (.state ⟨0, "", 0, "", [1, 1]⟩)
  | .termsPkTmp (some part) | .termsImpactTmp (some part) =>
    if part < 2 then some (.bytes [UInt8.ofNat part]) else none
  | _ => none

/-- The manifest has just been renamed, in the fifth step: the second call can do it all again. -/
theorem publishSegment_restarts_manifest :
    (publishSegment byteTerms written 0).1 = .ok 2 ∧ Restarts byteTerms written 0 5 1 := by
  refine ⟨rfl,
    (publishSegment_restarts rfl (fun _ => rfl) (by decide) 5).2 (.inl fun file hfile => ?_)⟩
  cases file with
  | terms | manifest => cases hfile
  | manifestTmp id =>
    by_cases hid : id = 0
    · rw [hid]
      rfl
    · refine apply_of_not_mem fun hmem => hid ?_
      simpa [publishSegment, publishParts, written, tmpPairs, mergeParts, byteTerms, publishSteps,
        createTerms, writeManifest, writes, removeFiles, range_succ] using hmem
  | _ => rfl

/-- In the sixth step the first metadata file is removed: the second call empties `terms.dat` and
fails. -/
theorem publishSegment_removed_fails :
    let crashed := after written ((publishSegment byteTerms written 0).2.take 6)
    (publishSegment byteTerms written 0).1 = .ok 2 ∧ (crashed .manifest).isSome ∧
      (publishSegment byteTerms crashed 1).1 = .error "cannot open" ∧
      after crashed (publishSegment byteTerms crashed 1).2 .terms = some (.bytes []) :=
  ⟨rfl, rfl, rfl, rfl⟩

end BicDb.FullText
