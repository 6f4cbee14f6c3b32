import BicDb.Foundation.Checks
import BicDb.FullText.Intersection
import Mathlib.Algebra.GroupWithZero.Nat
import Mathlib.Data.Finset.Basic

/-!
# Text-search queries and their index candidates

`fts.rs`: a query is evaluated on a vector of lexemes, a phrase by the positions where its parts
end. Before that the index proposes rows: `fts_index_candidate_node` keeps the terms that every
match must have, and the ids of the candidate are looked up term by term.

Texts are their UTF-8 bytes. A phrase result is the answer with the `PhraseData` the source writes
through `&mut`.

## What this module delivers

* `full_text_index_loses_no_row`: a row that matches a query is among the ids looked up.
-/

namespace BicDb.FullText

open BicDb.Foundation List

abbrev Text := List UInt8

/-- The weights of a position. -/
inductive PgTsWeight where
  | D
  | C
  | B
  | A
  deriving DecidableEq

def PgTsWeight.rank : PgTsWeight → ℕ
  | D => 0
  | C => 1
  | B => 2
  | A => 3

def PgTsWeight.queryBit (weight : PgTsWeight) : ℕ := 1 <<< weight.rank

/-- A position of a lexeme. -/
structure PgTsPosition where
  position : Fin (2 ^ 16)
  weight : PgTsWeight

/-- A lexeme with its positions. -/
structure PgTsLexeme where
  text : Text
  positions : List PgTsPosition

/-- A document as its lexemes. -/
structure PgTsVector where
  lexemes : List PgTsLexeme

/-- A word of a query, or a prefix of words. -/
structure PgTsQueryOperand where
  text : Text
  weights : ℕ
  byPrefix : Bool

/-- The nodes of a query. -/
inductive PgTsQueryNode where
  | operand (operand : PgTsQueryOperand)
  | not (child : PgTsQueryNode)
  | and (left right : PgTsQueryNode)
  | or (left right : PgTsQueryNode)
  | phrase (left right : PgTsQueryNode) (distance : ℕ)

/-- A query; an empty one has no root. -/
structure PgTsQuery where
  root : Option PgTsQueryNode

/-! ## Matching -/

/-- A match, none, or one that positions would have to settle. -/
inductive QueryMatch where
  | no
  | yes
  | maybe
  deriving DecidableEq

/-- The positions where a phrase matches, or those where it does not. -/
structure PhraseData where
  positions : List ℕ := []
  negate : Bool := false
  width : ℕ := 0
  deriving DecidableEq

/-- The text of a term, or the start of it. -/
def textMatches (term : Text) (byPrefix : Bool) (text : Text) : Bool :=
  if byPrefix then term.isPrefixOf text else text == term

def PgTsQueryOperand.admits (operand : PgTsQueryOperand) (weight : PgTsWeight) : Bool :=
  operand.weights == 0 || operand.weights &&& weight.queryBit != 0

/-- The lexemes that the loop of `operand_matches` does not pass over. -/
def PgTsQueryOperand.lexemes (operand : PgTsQueryOperand) (vector : PgTsVector) :
    List PgTsLexeme :=
  vector.lexemes.filter fun lexeme => textMatches operand.text operand.byPrefix lexeme.text

/-- Some lexeme that matches has no positions. -/
def PgTsQueryOperand.missingPositions (operand : PgTsQueryOperand) (vector : PgTsVector) : Bool :=
  (operand.lexemes vector).any (·.positions.isEmpty)

/-- The positions of matching lexemes whose weight is admitted. -/
def PgTsQueryOperand.positions (operand : PgTsQueryOperand) (vector : PgTsVector) : List ℕ :=
  (operand.lexemes vector).flatMap fun lexeme =>
    (lexeme.positions.filter (operand.admits ·.weight)).map (·.position.val)

/-- `operand_matches` without phrase data. -/
def operandMatches (operand : PgTsQueryOperand) (vector : PgTsVector) : QueryMatch :=
  if !(operand.lexemes vector).isEmpty &&
      (operand.weights == 0 || operand.missingPositions vector ||
        !(operand.positions vector).isEmpty) then .yes
  else .no

/-- `sort_unstable` and `dedup`. -/
def sortDedup (positions : List ℕ) : List ℕ :=
  (positions.insertionSort (· ≤ ·)).dedup

/-- `operand_matches` with phrase data. -/
def operandPhraseMatch (operand : PgTsQueryOperand) (vector : PgTsVector) (data : PhraseData) :
    QueryMatch × PhraseData :=
  if operand.missingPositions vector then (.maybe, data)
  else
    let positions := sortDedup (operand.positions vector)
    if positions.isEmpty then (.no, data) else (.yes, { data with positions := positions })

/-- `binary_search` of a sorted slice. -/
def binarySearch (values : List ℕ) (needle : ℕ) : Bool :=
  values[partitionPoint (· < needle) values]? == some needle

/-- `checked_add` on 16 bits; a position that does not fit is dropped. -/
def shiftedPositions (positions : List ℕ) (offset : ℕ) : List ℕ :=
  positions.filterMap fun position =>
    if position + offset < 2 ^ 16 then some (position + offset) else none

def unionPositions (left right : List ℕ) : List ℕ := sortDedup (left ++ right)

def intersectPositions (left right : List ℕ) : List ℕ := left.filter (binarySearch right)

def differencePositions (left right : List ℕ) : List ℕ := left.filter (!binarySearch right ·)

def saturatingAdd (a b : ℕ) : ℕ := min (a + b) (2 ^ 16 - 1)

/-- The width of a phrase, or of an `And` where there is no distance. -/
def phraseWidth (distance : Option ℕ) (left right : ℕ) : ℕ :=
  match distance with
  | some distance => saturatingAdd (saturatingAdd distance left) right
  | none => max left right

/-- How far the sides of a phrase are shifted. -/
def phraseOffsets (distance : Option ℕ) (left right : ℕ) : ℕ × ℕ :=
  match distance with
  | some distance => (saturatingAdd distance right, 0)
  | none => (max left right - left, max left right - right)

/-- The positions of a `phrase_binary` and their sign; `negate` is the sign that the output had. -/
def meetPositions (leftNegate rightNegate negate : Bool) (left right : List ℕ) : List ℕ × Bool :=
  match leftNegate, rightNegate with
  | true, true => (unionPositions left right, true)
  | true, false => (differencePositions right left, negate)
  | false, true => (differencePositions left right, negate)
  | false, false => (intersectPositions left right, negate)

/-- The positions of a `phrase_or` and their sign. -/
def joinPositions (leftNegate rightNegate negate : Bool) (left right : List ℕ) : List ℕ × Bool :=
  match leftNegate, rightNegate with
  | true, true => (intersectPositions left right, true)
  | true, false => (differencePositions left right, true)
  | false, true => (differencePositions right left, true)
  | false, false => (unionPositions left right, negate)

/-- `phrase_binary`, on what its operands have given. -/
def phraseBinary (left right : QueryMatch × PhraseData) (distance : Option ℕ)
    (output : PhraseData) : QueryMatch × PhraseData :=
  if left.1 = .no ∨ right.1 = .no then (.no, output)
  else if left.1 = .maybe ∨ right.1 = .maybe then (.maybe, output)
  else
    let offsets := phraseOffsets distance left.2.width right.2.width
    let (positions, negate) := meetPositions left.2.negate right.2.negate output.negate
      (shiftedPositions left.2.positions offsets.1) (shiftedPositions right.2.positions offsets.2)
    (if negate || !positions.isEmpty then .yes else .no,
      ⟨positions, negate, phraseWidth distance left.2.width right.2.width⟩)

/-- `phrase_or`. The data of an alternative that has not matched are used as they were left. -/
def phraseOr (left right : QueryMatch × PhraseData) (output : PhraseData) :
    QueryMatch × PhraseData :=
  if left.1 = .maybe ∨ right.1 = .maybe then (.maybe, output)
  else if left.1 = .no ∧ right.1 = .no then (.no, output)
  else
    let width := max left.2.width right.2.width
    let (positions, negate) := joinPositions left.2.negate right.2.negate output.negate
      (shiftedPositions left.2.positions (width - left.2.width))
      (shiftedPositions right.2.positions (width - right.2.width))
    (.yes, ⟨positions, negate, width⟩)

/-- Matches a node by positions. -/
def phraseMatch (vector : PgTsVector) : PgTsQueryNode → PhraseData → QueryMatch × PhraseData
  | .operand operand, data => operandPhraseMatch operand vector data
  | .not child, data =>
    match phraseMatch vector child data with
    | (.no, data) => (.yes, { data with negate := true })
    | (.yes, data) =>
      if !data.positions.isEmpty then (.yes, { data with negate := !data.negate })
      else if data.negate then (.no, { data with negate := false })
      else (.yes, data)
    | (.maybe, data) => (.maybe, data)
  | .and left right, data =>
    phraseBinary (phraseMatch vector left {}) (phraseMatch vector right {}) none data
  | .or left right, data => phraseOr (phraseMatch vector left {}) (phraseMatch vector right {}) data
  | .phrase left right distance, data =>
    phraseBinary (phraseMatch vector left {}) (phraseMatch vector right {}) (some distance) data

/-- Matches a node. -/
def matchesQueryNode (vector : PgTsVector) : PgTsQueryNode → Bool
  | .operand operand => operandMatches operand vector != .no
  | .not child => !matchesQueryNode vector child
  | .and left right => matchesQueryNode vector left && matchesQueryNode vector right
  | .or left right => matchesQueryNode vector left || matchesQueryNode vector right
  | .phrase left right distance => (phraseMatch vector (.phrase left right distance) {}).1 == .yes

/-- Whether a document matches. -/
def PgTsQuery.matches (query : PgTsQuery) (vector : PgTsVector) : Bool :=
  query.root.any (matchesQueryNode vector)

/-! ## Index candidates -/

/-- What the index is asked for a query. -/
inductive FtsIndexCandidate where
  | term (text : Text) (byPrefix : Bool)
  | and (left right : FtsIndexCandidate)
  | or (left right : FtsIndexCandidate)
  deriving DecidableEq

/-- Of `And` and `Phrase` every candidate that a side has is kept. -/
def bothCandidates : Option FtsIndexCandidate → Option FtsIndexCandidate → Option FtsIndexCandidate
  | some left, some right => some (.and left right)
  | some candidate, none | none, some candidate => some candidate
  | none, none => none

/-- The candidate of a node, where the index can help. -/
def ftsIndexCandidateNode : PgTsQueryNode → Option FtsIndexCandidate
  | .operand operand => some (.term operand.text operand.byPrefix)
  | .not _ => none
  | .and left right | .phrase left right _ =>
    bothCandidates (ftsIndexCandidateNode left) (ftsIndexCandidateNode right)
  | .or left right => do
    let left ← ftsIndexCandidateNode left
    let right ← ftsIndexCandidateNode right
    return .or left right

/-- The candidate of a query. -/
def PgTsQuery.indexCandidate (query : PgTsQuery) : Option FtsIndexCandidate :=
  query.root.bind ftsIndexCandidateNode

/-- The lexemes of a vector satisfy a candidate. -/
def FtsIndexCandidate.Satisfied (vector : PgTsVector) : FtsIndexCandidate → Prop
  | .term text byPrefix => ∃ lexeme ∈ vector.lexemes, textMatches text byPrefix lexeme.text = true
  | .and left right => left.Satisfied vector ∧ right.Satisfied vector
  | .or left right => left.Satisfied vector ∨ right.Satisfied vector

/-! ## Looking up the ids -/

def maxFullTextTermBytes : ℕ := 2046

/-- Longer terms are not indexed. -/
def fullTextTermIsIndexable (term : Text) : Bool := term.length ≤ maxFullTextTermBytes

/-- A row and its vector. Rows hold vectors as text, and `from_postgres_text` refuses a lexeme that
the index would skip. -/
structure Document (ι : Type) where
  id : ι
  vector : PgTsVector
  indexable : ∀ lexeme ∈ vector.lexemes, fullTextTermIsIndexable lexeme.text = true

/-- The postings, and whether they are all there. -/
structure FullTextIndex (ι : Type) where
  buildIncomplete : Bool
  postings : List (Text × ι)

section Lookup

variable {ι β ε : Type} [DecidableEq ι]

/-- The postings of a row, without the terms that are too long. -/
def recordFullTextPostings (document : Document ι) : List (Text × ι) :=
  ((document.vector.lexemes.map (·.text)).filter fullTextTermIsIndexable).map (·, document.id)

/-- The documents of a term. -/
def lookupFullTextTerm (index : FullTextIndex ι) (term : Text) (byPrefix : Bool) : List ι :=
  if !fullTextTermIsIndexable term then []
  else (index.postings.filter fun posting => textMatches term byPrefix posting.1).map Prod.snd

variable (chargeCandidates : β → ℕ → Except ε β) (incomplete : ε)

/-- The same within a budget. -/
def lookupFullTextTermBudgeted (index : FullTextIndex ι) (term : Text) (byPrefix : Bool)
    (budget : β) : Except ε (List ι × β) := do
  require (index.buildIncomplete = false) incomplete
  let pks := lookupFullTextTerm index term byPrefix
  let budget ← chargeCandidates budget pks.length
  return (pks, budget)

/-- The documents that may match, within a budget. -/
def fullTextCandidateIdsBudgeted (index : FullTextIndex ι) :
    FtsIndexCandidate → β → Except ε (Finset ι × β)
  | .term text byPrefix, budget => do
    let (postings, budget) ←
      lookupFullTextTermBudgeted chargeCandidates incomplete index text byPrefix budget
    return (postings.toFinset, budget)
  | .and left right, budget => do
    let (left, budget) ← fullTextCandidateIdsBudgeted index left budget
    let (right, budget) ← fullTextCandidateIdsBudgeted index right budget
    return (left ∩ right, budget)
  | .or left right, budget => do
    let (left, budget) ← fullTextCandidateIdsBudgeted index left budget
    let (right, budget) ← fullTextCandidateIdsBudgeted index right budget
    return (left ∪ right, budget)

end Lookup

/-! ## No match without its terms -/

section Candidates

variable {vector : PgTsVector}

theorem phraseBinary_ne_no {left right : QueryMatch × PhraseData} {distance : Option ℕ}
    {output : PhraseData} (h : (phraseBinary left right distance output).1 ≠ .no) :
    left.1 ≠ .no ∧ right.1 ≠ .no := by
  by_cases hno : left.1 = .no ∨ right.1 = .no
  · simp [phraseBinary, hno] at h
  · exact not_or.1 hno

theorem phraseOr_ne_no {left right : QueryMatch × PhraseData} {output : PhraseData}
    (h : (phraseOr left right output).1 ≠ .no) : left.1 ≠ .no ∨ right.1 ≠ .no := by
  by_contra hno
  obtain ⟨hleft, hright⟩ := not_or.1 hno
  simp [phraseOr, not_not.1 hleft, not_not.1 hright] at h

theorem satisfied_of_lexemes {operand : PgTsQueryOperand} (h : operand.lexemes vector ≠ []) :
    (FtsIndexCandidate.term operand.text operand.byPrefix).Satisfied vector := by
  obtain ⟨lexeme, hlexeme⟩ := exists_mem_of_ne_nil _ h
  exact ⟨lexeme, (mem_filter.1 hlexeme).1, (mem_filter.1 hlexeme).2⟩

/-- Without a lexeme of the operand neither form of `operand_matches` matches. -/
theorem operand_no_of_lexemes {operand : PgTsQueryOperand} (h : operand.lexemes vector = [])
    (data : PhraseData) :
    operandMatches operand vector = .no ∧ (operandPhraseMatch operand vector data).1 = .no := by
  simp [operandMatches, operandPhraseMatch, PgTsQueryOperand.missingPositions,
    PgTsQueryOperand.positions, h, sortDedup]

theorem satisfied_both {left right : Option FtsIndexCandidate} {candidate : FtsIndexCandidate}
    (h : bothCandidates left right = some candidate)
    (hleft : ∀ c, left = some c → c.Satisfied vector)
    (hright : ∀ c, right = some c → c.Satisfied vector) : candidate.Satisfied vector := by
  rcases left with _ | left <;> rcases right with _ | right <;>
    simp only [bothCandidates, Option.some.injEq, reduceCtorEq] at h <;> subst h
  · exact hright _ rfl
  · exact hleft _ rfl
  · exact ⟨hleft _ rfl, hright _ rfl⟩

theorem exists_candidates_of_or {left right : PgTsQueryNode} {candidate : FtsIndexCandidate}
    (h : ftsIndexCandidateNode (.or left right) = some candidate) :
    ∃ l, ftsIndexCandidateNode left = some l ∧
      ∃ r, ftsIndexCandidateNode right = some r ∧ FtsIndexCandidate.or l r = candidate := by
  simpa [ftsIndexCandidateNode, Option.bind_eq_some_iff] using h

/-- A negated result does no harm: `Not` has no candidate, and a side that has one answers `No`. -/
theorem satisfied_of_phraseMatch (node : PgTsQueryNode) (data : PhraseData)
    {candidate : FtsIndexCandidate} (hcandidate : ftsIndexCandidateNode node = some candidate)
    (hmatch : (phraseMatch vector node data).1 ≠ .no) : candidate.Satisfied vector := by
  induction node generalizing data candidate with
  | operand operand =>
    cases hcandidate
    apply satisfied_of_lexemes
    intro hnone
    exact hmatch (operand_no_of_lexemes hnone data).2
  | not child => cases hcandidate
  | and left right ihl ihr | phrase left right distance ihl ihr =>
    obtain ⟨hleft, hright⟩ := phraseBinary_ne_no hmatch
    exact satisfied_both hcandidate (fun c hc => ihl {} hc hleft) fun c hc => ihr {} hc hright
  | or left right ihl ihr =>
    obtain ⟨l, hl, r, hr, rfl⟩ := exists_candidates_of_or hcandidate
    exact (phraseOr_ne_no hmatch).imp (ihl {} hl) (ihr {} hr)

theorem satisfied_of_matchesQueryNode (node : PgTsQueryNode) {candidate : FtsIndexCandidate}
    (hcandidate : ftsIndexCandidateNode node = some candidate)
    (hmatch : matchesQueryNode vector node = true) : candidate.Satisfied vector := by
  induction node generalizing candidate with
  | operand operand =>
    cases hcandidate
    apply satisfied_of_lexemes
    intro hnone
    simp [matchesQueryNode, (operand_no_of_lexemes hnone {}).1] at hmatch
  | not child => cases hcandidate
  | and left right ihl ihr =>
    simp only [matchesQueryNode, Bool.and_eq_true] at hmatch
    exact satisfied_both hcandidate (fun c hc => ihl hc hmatch.1) fun c hc => ihr hc hmatch.2
  | phrase left right distance =>
    apply satisfied_of_phraseMatch _ {} hcandidate
    intro hno
    simp [matchesQueryNode, hno] at hmatch
  | or left right ihl ihr =>
    obtain ⟨l, hl, r, hr, rfl⟩ := exists_candidates_of_or hcandidate
    simp only [matchesQueryNode, Bool.or_eq_true] at hmatch
    exact hmatch.imp (ihl hl) (ihr hr)

end Candidates

section Ids

variable {ι β ε : Type} {index : FullTextIndex ι} {document : Document ι}

/-- A term longer than the index admits is the start of no lexeme that is stored. -/
theorem mem_lookupFullTextTerm (hindexed : recordFullTextPostings document ⊆ index.postings)
    {term : Text} {byPrefix : Bool}
    (h : (FtsIndexCandidate.term term byPrefix).Satisfied document.vector) :
    document.id ∈ lookupFullTextTerm index term byPrefix := by
  obtain ⟨lexeme, hlexeme, htext⟩ := h
  have hfits := document.indexable lexeme hlexeme
  have hterm : fullTextTermIsIndexable term = true := by
    have hle : term.length ≤ lexeme.text.length := by
      unfold textMatches at htext
      split at htext
      · exact (List.isPrefixOf_iff_prefix.1 htext).length_le
      · exact (congrArg length (eq_of_beq htext)).ge
    simp only [fullTextTermIsIndexable, decide_eq_true_eq] at hfits ⊢
    exact hle.trans hfits
  have hposting : (lexeme.text, document.id) ∈ index.postings := by
    apply hindexed
    exact mem_map.2 ⟨_, mem_filter.2 ⟨mem_map_of_mem hlexeme, hfits⟩, rfl⟩
  rw [lookupFullTextTerm, hterm]
  exact mem_map.2 ⟨_, mem_filter.2 ⟨hposting, htext⟩, rfl⟩

variable [DecidableEq ι] {chargeCandidates : β → ℕ → Except ε β} {incomplete : ε}

theorem mem_fullTextCandidateIds (hindexed : recordFullTextPostings document ⊆ index.postings)
    (candidate : FtsIndexCandidate) {budget : β} {result : Finset ι × β}
    (hresult : fullTextCandidateIdsBudgeted chargeCandidates incomplete index candidate budget =
      .ok result) (h : candidate.Satisfied document.vector) : document.id ∈ result.1 := by
  induction candidate generalizing budget result with
  | term text byPrefix =>
    obtain ⟨pks, hpks, hresult⟩ := bind_eq_ok.1 hresult
    rw [lookupFullTextTermBudgeted, andThen_eq_ok] at hpks
    obtain ⟨_, -, hcharged⟩ := bind_eq_ok.1 hpks.2
    cases hcharged
    cases hresult
    exact mem_toFinset.2 (mem_lookupFullTextTerm hindexed h)
  | and left right ihl ihr =>
    obtain ⟨l, hl, hresult⟩ := bind_eq_ok.1 hresult
    obtain ⟨r, hr, hresult⟩ := bind_eq_ok.1 hresult
    cases hresult
    exact Finset.mem_inter.2 ⟨ihl hl h.1, ihr hr h.2⟩
  | or left right ihl ihr =>
    obtain ⟨l, hl, hresult⟩ := bind_eq_ok.1 hresult
    obtain ⟨r, hr, hresult⟩ := bind_eq_ok.1 hresult
    cases hresult
    exact Finset.mem_union.2 (h.imp (ihl hl) (ihr hr))

end Ids

/-- **A full-text index loses no row** that the query matches, where the query has a candidate. -/
theorem full_text_index_loses_no_row {query : PgTsQuery} {candidate : FtsIndexCandidate}
    (hcandidate : query.indexCandidate = some candidate) :
    (∀ vector, query.matches vector = true → candidate.Satisfied vector) ∧
      ∀ {ι β ε : Type} [DecidableEq ι] (chargeCandidates : β → ℕ → Except ε β) (incomplete : ε)
        (index : FullTextIndex ι) (budget : β) (result : Finset ι × β) (document : Document ι),
        fullTextCandidateIdsBudgeted chargeCandidates incomplete index candidate budget =
          .ok result → recordFullTextPostings document ⊆ index.postings →
        query.matches document.vector = true → document.id ∈ result.1 := by
  have hsatisfied : ∀ vector, query.matches vector = true → candidate.Satisfied vector := by
    intro vector hmatch
    obtain ⟨node, hnode, hcandidate⟩ := Option.bind_eq_some_iff.1 hcandidate
    apply satisfied_of_matchesQueryNode node hcandidate
    simpa [PgTsQuery.matches, hnode] using hmatch
  refine ⟨hsatisfied, ?_⟩
  intro ι β ε _ chargeCandidates incomplete index budget result document hresult hindexed hmatch
  exact mem_fullTextCandidateIds hindexed candidate hresult (hsatisfied _ hmatch)

def sampleDocument : Document ℕ := ⟨7, ⟨[⟨[97, 98], []⟩]⟩, by decide⟩

/-- A word that starts with `a` and no word `c`. -/
def sampleQuery : PgTsQuery :=
  ⟨some (.and (.operand ⟨[97], 0, true⟩) (.not (.operand ⟨[99], 0, false⟩)))⟩

/-- The row with the first word is found by it. -/
theorem full_text_index_loses_no_row_and_not :
    (FtsIndexCandidate.term [97] true).Satisfied sampleDocument.vector ∧
      sampleDocument.id ∈ ({7} : Finset ℕ) := by
  obtain ⟨hsatisfied, hids⟩ :=
    @full_text_index_loses_no_row sampleQuery (.term [97] true) (by decide)
  refine ⟨hsatisfied _ (by decide), ?_⟩
  exact hids (fun budget n => Except.ok (budget + n)) ()
    ⟨false, recordFullTextPostings sampleDocument⟩ 0 ({7}, 1) sampleDocument (by rfl)
    (Subset.refl _) (by decide)

end BicDb.FullText
