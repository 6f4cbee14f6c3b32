import Mathlib.Data.List.Infix

/-!
# LIKE

`like_matches` and its loop `like_match_chars`, against what a pattern means: a list of items, each
of which takes a piece of the value. The loop looks for the character itself before it looks for a
wildcard, so a `%` of the pattern that meets one of the value takes just that character; and when
the value is used up it skips every `%` left, escaped or not.

The main result, `like_exact`, says exactly when the loop accepts what the items take (`LikeSafe`),
and the same of the reply of the case-insensitive form, its error included, for patterns whose
wildcards and escapes lowering leaves apart (`LoweredApart`). `like_takes_percent_literally` shows
the values and patterns where they differ.
-/

namespace BicDb.Sql

open List

/-- `SqlError::data_exception` with its SQLSTATE, its message and the type it is about. -/
structure DataException where
  code : String
  message : String
  pgType : Option String
deriving DecidableEq, Repr

/-- The `while` loop of `like_match_chars`: the rest of pattern and value, the pattern behind the
last `%` and the value from where it started. -/
def likeLoop (escape : Option Char) : Nat → List Char → List Char → Option (List Char) →
    List Char → Bool
  | 0, _, _, _, _ => false
  | _ + 1, pattern, [], _, _ => pattern.all (· = '%')
  | fuel + 1, pattern, v :: value, star, starValue =>
    let back := star.any fun rest => likeLoop escape fuel rest starValue.tail star starValue.tail
    match pattern with
    | [] => back
    | c :: pattern =>
      if some c = escape ∧ pattern ≠ [] then
        if pattern.head? = some v then likeLoop escape fuel pattern.tail value star starValue
        else back
      else if c = '_' ∨ c = v then likeLoop escape fuel pattern value star starValue
      else if c = '%' then likeLoop escape fuel pattern (v :: value) (some pattern) (v :: value)
      else back

/-- Whether a value matches a pattern. -/
def likeMatchChars (value pattern : List Char) (escape : Option Char) : Bool :=
  likeLoop escape
    (value.length * (pattern.length + 1) + pattern.length + 1) pattern value none value

/-- The check of `like_matches`: the pattern ends with an odd number of escapes. -/
def danglingEscape (escape : Option Char) (pattern : List Char) : Bool :=
  escape.any fun escape => (pattern.reverse.takeWhile (· = escape)).length % 2 = 1

/-- `like_matches`, with `str::to_lowercase`. -/
def likeMatches (toLowercase : List Char → List Char) (value pattern : List Char)
    (caseInsensitive : Bool) (escape : Option Char) : Except DataException Bool :=
  let value := if caseInsensitive then toLowercase value else value
  let pattern := if caseInsensitive then toLowercase pattern else pattern
  if danglingEscape escape pattern then
    .error ⟨"22025", "LIKE pattern must not end with escape character", some "text"⟩
  else .ok (likeMatchChars value pattern escape)

/-! ## What a pattern means -/

/-- An item of a pattern: an unescaped `%`, an unescaped `_`, or a character. -/
inductive LikeItem
  | any
  | one
  | lit (c : Char)
deriving DecidableEq, Repr

/-- What a character that is not escaped stands for. -/
def LikeItem.ofChar (c : Char) : LikeItem :=
  if c = '%' then .any else if c = '_' then .one else .lit c

/-- The items of a pattern. An escape character at the very end escapes nothing. -/
def likeItems (escape : Option Char) : List Char → List LikeItem
  | [] => []
  | [c] => [.ofChar c]
  | c :: d :: rest =>
    if some c = escape then .lit d :: likeItems escape rest
    else .ofChar c :: likeItems escape (d :: rest)

/-- The value is the concatenation of pieces that the items take; `takes piece rest` says which
pieces a `%` may take in front of `rest`. -/
def TakenBy (takes : List Char → List Char → Prop) : List LikeItem → List Char → Prop
  | [], value => value = []
  | .any :: items, value => ∃ piece rest, value = piece ++ rest ∧ takes piece rest ∧
      TakenBy takes items rest
  | .one :: items, value => ∃ c rest, value = c :: rest ∧ TakenBy takes items rest
  | .lit c :: items, value => ∃ rest, value = c :: rest ∧ TakenBy takes items rest

/-- A `%` that meets a `%` of the value takes just that character. -/
def Narrow (piece rest : List Char) : Prop :=
  (piece ++ rest).head? = some '%' → piece = ['%']

/-- `%` takes any character sequence. -/
abbrev LikeAccepts := TakenBy fun _ _ => True

/-- What the loop skips when the value is used up. -/
def LikeItem.Skipped (escape : Option Char) (item : LikeItem) : Prop :=
  item = .any ∨ item = .lit '%' ∧ escape = some '%'

/-- With `%` as the escape: the value ends in front of escaped `%`, and only such items follow. -/
def Overrun (escape : Option Char) (items : List LikeItem) (value : List Char) : Prop :=
  ∃ pre post, items = pre ++ post ∧ TakenBy Narrow pre value ∧ .lit '%' ∈ post ∧
    ∀ item ∈ post, item.Skipped escape

/-- The items take the value narrowly if at all, and no escaped `%` are skipped at its end. -/
def LikeSafe (escape : Option Char) (items : List LikeItem) (value : List Char) : Prop :=
  (LikeAccepts items value → TakenBy Narrow items value) ∧ ¬ Overrun escape items value

/-- An item with its literal character folded by `char::to_lowercase`. -/
def LikeItem.fold (lower : Char → List Char) : LikeItem → List LikeItem
  | .lit c => (lower c).map .lit
  | item => [item]

/-- A wildcard, or the escape. -/
def Special (escape : Option Char) (c : Char) : Prop := c = '%' ∨ c = '_' ∨ some c = escape

instance (escape : Option Char) (c : Char) : Decidable (Special escape c) :=
  inferInstanceAs (Decidable (_ ∨ _ ∨ _))

/-- Lowering the characters of the pattern neither changes nor produces a wildcard or the escape. -/
def LoweredApart (lower : Char → List Char) (escape : Option Char) (pattern : List Char) : Prop :=
  ∀ c ∈ pattern, lower c ≠ [] ∧
    if Special escape c then lower c = [c] else ∀ d ∈ lower c, ¬ Special escape d

instance (lower : Char → List Char) (escape : Option Char) (pattern : List Char) :
    Decidable (LoweredApart lower escape pattern) :=
  haveI (c : Char) : Decidable (∀ d ∈ lower c, ¬ Special escape d) := List.decidableBAll _ _
  List.decidableBAll _ pattern

/-- The reply that a pattern asks for whose items have been folded: an error where it ends with an
escape as written, else whether the items take the folded value. -/
def IlikeReply (escape : Option Char) (pattern : List Char) (items : List LikeItem)
    (value : List Char) (reply : Except DataException Bool) : Prop :=
  if danglingEscape escape pattern then
    reply = .error ⟨"22025", "LIKE pattern must not end with escape character", some "text"⟩
  else ∃ accepted, reply = .ok accepted ∧ (accepted = true ↔ LikeAccepts items value)

/-! ## The loop -/

/-- What the loop accepts. -/
def Reads (escape : Option Char) (items : List LikeItem) (value : List Char) : Prop :=
  ∃ pre post, items = pre ++ post ∧ TakenBy Narrow pre value ∧ ∀ item ∈ post, item.Skipped escape

variable {escape : Option Char} {item : LikeItem} {items : List LikeItem} {v : Char}
  {value pattern s : List Char}

theorem takenBy_narrow_nil : TakenBy Narrow items [] ↔ ∀ item ∈ items, item = .any := by
  induction items with
  | nil => simp [TakenBy]
  | cons item items ih =>
    cases item with
    | any => simp [TakenBy, ih, Narrow]
    | one | lit => simp [TakenBy]

theorem reads_nil : Reads escape items [] ↔ ∀ item ∈ items, item.Skipped escape := by
  constructor
  · rintro ⟨pre, post, rfl, hpre, hpost⟩
    exact forall_mem_append.2 ⟨fun i hi => .inl (takenBy_narrow_nil.1 hpre i hi), hpost⟩
  · exact fun h => ⟨[], items, rfl, rfl, h⟩

theorem reads_cons : Reads escape (item :: items) (v :: value) ↔ match item with
    | .any => ∃ piece rest, v :: value = piece ++ rest ∧ Narrow piece rest ∧ Reads escape items rest
    | .one => Reads escape items value
    | .lit c => v = c ∧ Reads escape items value := by
  constructor
  · rintro ⟨pre, post, heq, hpre, hpost⟩
    rcases cons_eq_append_iff.1 heq with ⟨rfl, -⟩ | ⟨pre, rfl, rfl⟩
    · cases hpre
    cases item with
    | any =>
      obtain ⟨piece, rest, hv, hnarrow, hpre⟩ := hpre
      exact ⟨piece, rest, hv, hnarrow, pre, post, rfl, hpre, hpost⟩
    | one =>
      obtain ⟨_, rest, ⟨⟩, hpre⟩ := hpre
      exact ⟨pre, post, rfl, hpre, hpost⟩
    | lit c =>
      obtain ⟨rest, ⟨⟩, hpre⟩ := hpre
      exact ⟨rfl, pre, post, rfl, hpre, hpost⟩
  · cases item with
    | any =>
      rintro ⟨piece, rest, hv, hnarrow, pre, post, rfl, hpre, hpost⟩
      exact ⟨.any :: pre, post, rfl, ⟨piece, rest, hv, hnarrow, hpre⟩, hpost⟩
    | one =>
      rintro ⟨pre, post, rfl, hpre, hpost⟩
      exact ⟨.one :: pre, post, rfl, ⟨v, value, rfl, hpre⟩, hpost⟩
    | lit c =>
      rintro ⟨rfl, pre, post, rfl, hpre, hpost⟩
      exact ⟨.lit v :: pre, post, rfl, ⟨value, rfl, hpre⟩, hpost⟩

theorem Reads.suffix (h : Reads escape (.any :: items) value) :
    ∃ s, s <:+ value ∧ Reads escape items s := by
  cases value with
  | nil => exact ⟨[], nil_suffix, reads_nil.2 (forall_mem_cons.1 (reads_nil.1 h)).2⟩
  | cons v value =>
    obtain ⟨piece, rest, heq, -, h⟩ := reads_cons.1 h
    exact ⟨rest, heq ▸ suffix_append piece rest, h⟩

theorem reads_any (hv : v ≠ '%') : Reads escape (.any :: items) (v :: value) ↔
    ∃ s, s <:+ v :: value ∧ Reads escape items s := by
  refine ⟨Reads.suffix, ?_⟩
  rintro ⟨s, ⟨piece, heq⟩, h⟩
  refine reads_cons.2 ⟨piece, s, heq.symm, fun hhead => ?_, h⟩
  rw [heq] at hhead
  exact absurd (Option.some.inj hhead) hv

/-- The branch in which the character of the pattern and that of the value are both passed. -/
theorem reads_ofChar {c : Char} (hc : c = '_' ∨ c = v) :
    Reads escape (.ofChar c :: items) (v :: value) ↔ Reads escape items value := by
  rw [reads_cons]
  unfold LikeItem.ofChar
  split_ifs with h1 h2
  · obtain rfl : v = '%' := by
      rcases hc with rfl | rfl
      · cases h1
      · exact h1
    constructor
    · rintro ⟨piece, rest, heq, hnarrow, h⟩
      rw [hnarrow (by rw [← heq]; rfl)] at heq
      cases heq
      exact h
    · exact fun h => ⟨['%'], value, rfl, fun _ => rfl, h⟩
  · exact Iff.rfl
  · exact and_iff_right (hc.resolve_left h2).symm

theorem not_reads_nil : ¬ Reads escape [] (v :: value) := by
  rintro ⟨pre, post, heq, hpre, -⟩
  obtain ⟨rfl, -⟩ := append_eq_nil_iff.1 heq.symm
  cases hpre

/-- An item that takes `v` where it is takes no less where the value has gone on. -/
theorem Reads.later (hitem : item = .any → v = '%') (hs : s <:+ v :: value)
    (h : Reads escape (item :: items) s) : ∃ t, t <:+ value ∧ Reads escape items t := by
  cases s with
  | nil => exact ⟨[], nil_suffix, reads_nil.2 (forall_mem_cons.1 (reads_nil.1 h)).2⟩
  | cons w rest =>
    have hrest : rest <:+ value := by
      rcases suffix_cons_iff.1 hs with heq | hs
      · cases heq
        exact suffix_rfl
      · exact (suffix_cons w rest).trans hs
    rw [reads_cons] at h
    cases item with
    | any =>
      obtain ⟨piece, tail, heq, hnarrow, h⟩ := h
      refine ⟨tail, ?_, h⟩
      have htail : tail <:+ w :: rest := heq ▸ suffix_append piece tail
      rcases suffix_cons_iff.1 hs with hsame | hs
      · -- the same place: the piece is the one character
        cases hsame
        rw [hitem rfl] at heq
        rw [hnarrow (by rw [← heq]; rfl)] at heq
        cases heq
        exact hrest
      · exact htail.trans hs
    | one => exact ⟨rest, hrest, h⟩
    | lit c => exact ⟨rest, hrest, h.2⟩

theorem likeItems_cons {c : Char} (h : ¬ (some c = escape ∧ pattern ≠ [])) :
    likeItems escape (c :: pattern) = .ofChar c :: likeItems escape pattern := by
  cases pattern with
  | nil => rfl
  | cons d rest => exact if_neg fun hc => h ⟨hc, cons_ne_nil _ _⟩

theorem ofChar_eq_any {c : Char} : LikeItem.ofChar c = .any ↔ c = '%' := by
  unfold LikeItem.ofChar
  split_ifs <;> simp_all

theorem skipped_ofChar {c : Char} : (LikeItem.ofChar c).Skipped escape ↔ c = '%' := by
  unfold LikeItem.ofChar LikeItem.Skipped
  split_ifs <;> simp_all

theorem all_percent_iff : pattern.all (· = '%') = true ↔
    ∀ item ∈ likeItems escape pattern, item.Skipped escape := by
  fun_induction likeItems escape pattern with
  | case1 => simp
  | case2 c => simp [skipped_ofChar]
  | case3 c d rest h ih =>
    rw [forall_mem_cons, ← ih, all_cons, all_cons]
    simp [LikeItem.Skipped, ← h]
    tauto
  | case4 c d rest h ih =>
    rw [forall_mem_cons, ← ih, skipped_ofChar, all_cons]
    simp

/-- A match behind the last `%` that starts later gets past what was read since then later, too. -/
structure LikeRun (escape : Option Char) (bound : Nat) (pattern value : List Char)
    (star : Option (List Char)) (starValue : List Char) : Prop where
  suffix : value <:+ starValue
  le : pattern.length ≤ bound
  lt : ∀ rest ∈ star, rest.length < bound
  later : ∀ rest ∈ star, ∀ s, s <:+ starValue → Reads escape (likeItems escape rest) s →
    ∃ t, t <:+ value ∧ Reads escape (likeItems escape pattern) t

section

variable {bound fuel : Nat} {star : Option (List Char)} {starValue rest : List Char}

theorem LikeRun.advance (h : LikeRun escape bound pattern (v :: value) star starValue)
    (hitems : likeItems escape pattern = item :: likeItems escape rest)
    (hlen : rest.length ≤ pattern.length) (hitem : item = .any → v = '%') :
    LikeRun escape bound rest value star starValue where
  suffix := (suffix_cons v value).trans h.suffix
  le := hlen.trans h.le
  lt := h.lt
  later r hr s hs hreads := by
    obtain ⟨t, ht, hreads⟩ := h.later r hr s hs hreads
    rw [hitems] at hreads
    exact hreads.later hitem ht

theorem LikeRun.start (h : rest.length < bound) :
    LikeRun escape bound rest value (some rest) value where
  suffix := suffix_rfl
  le := h.le
  lt _ hr := Option.some.inj hr ▸ h
  later _ hr s hs hreads := ⟨s, hs, Option.some.inj hr ▸ hreads⟩

theorem exists_suffix_iff {P : List Char → Prop} :
    (∃ s, s <:+ value ∧ P s) ↔ P value ∨ ∃ s, s <:+ value.tail ∧ P s := by
  cases value with
  | nil => simp
  | cons v value => simp [suffix_cons_iff, or_and_right, exists_or]

/-- **The loop.** -/
theorem likeLoop_eq_true_iff (h : LikeRun escape bound pattern value star starValue)
    (hfuel : starValue.length * bound + pattern.length < fuel) :
    likeLoop escape fuel pattern value star starValue = true ↔
      Reads escape (likeItems escape pattern) value ∨
        ∃ rest ∈ star, ∃ s, s <:+ starValue.tail ∧ Reads escape (likeItems escape rest) s := by
  induction fuel generalizing pattern value star starValue with
  | zero => omega
  | succ fuel ih =>
    cases value with
    | nil =>
      rw [likeLoop, @all_percent_iff escape, ← reads_nil, iff_self_or]
      rintro ⟨rest, hrest, s, hs, hreads⟩
      obtain ⟨t, ht, hreads⟩ := h.later rest hrest s (hs.trans (tail_suffix _)) hreads
      rwa [suffix_nil.1 ht] at hreads
    | cons v value =>
      -- back to the last `%`, one character further on
      have hback (hno : ¬ Reads escape (likeItems escape pattern) (v :: value)) :
          star.any (likeLoop escape fuel · starValue.tail star starValue.tail) = true ↔
          Reads escape (likeItems escape pattern) (v :: value) ∨
            ∃ rest ∈ star, ∃ s, s <:+ starValue.tail ∧ Reads escape (likeItems escape rest) s := by
        cases star with
        | none => simp [hno]
        | some rest =>
          obtain ⟨w, tail, rfl⟩ := exists_cons_of_ne_nil (l := starValue) fun hnil => by
            have := h.suffix
            simp [hnil] at this
          have hrest := h.lt rest rfl
          rw [length_cons, Nat.succ_mul] at hfuel
          rw [tail_cons, Option.any_some, ih (.start hrest) (by omega)]
          simp [hno, @exists_suffix_iff tail]
      cases pattern with
      | nil => exact hback not_reads_nil
      | cons c pattern =>
        rw [length_cons] at hfuel
        simp only [likeLoop]
        split_ifs with hescape hhead hone hstar
        · obtain ⟨rfl, hne⟩ := hescape
          obtain ⟨d, rest, rfl⟩ := exists_cons_of_ne_nil hne
          obtain rfl := Option.some.inj hhead
          have hitems : likeItems (some c) (c :: d :: rest) = .lit d :: likeItems (some c) rest :=
            if_pos rfl
          rw [tail_cons,
            ih (h.advance hitems (by simp; omega) nofun) (by simp at hfuel; omega), hitems,
            reads_cons]
          simp only [true_and]
        · obtain ⟨rfl, hne⟩ := hescape
          obtain ⟨d, rest, rfl⟩ := exists_cons_of_ne_nil hne
          refine hback fun hreads => hhead ?_
          rw [likeItems, if_pos rfl, reads_cons] at hreads
          rw [head?_cons, hreads.1]
        · have hitem (hany : LikeItem.ofChar c = .any) : v = '%' := by
            have hc := ofChar_eq_any.1 hany
            rcases hone with rfl | rfl
            · cases hc
            · exact hc
          rw [ih (h.advance (likeItems_cons hescape) (Nat.le_succ _) hitem) (by omega),
            likeItems_cons hescape, reads_ofChar hone]
        · subst hstar
          have hlen := h.le
          have hle := Nat.mul_le_mul_right bound h.suffix.length_le
          have hitems : likeItems escape ('%' :: pattern) = .any :: likeItems escape pattern :=
            likeItems_cons hescape
          rw [ih (.start hlen) (by omega), hitems, reads_any fun hv => hone (.inr hv.symm)]
          constructor
          · intro hnew
            exact .inl (exists_suffix_iff.2 (by simpa using hnew))
          · rintro (hnew | ⟨rest, hrest, s, hs, hreads⟩)
            · simpa using exists_suffix_iff.1 hnew
            -- a match from an older `%` passes this one, too
            obtain ⟨t, ht, hreads⟩ := h.later rest hrest s (hs.trans (tail_suffix _)) hreads
            rw [hitems] at hreads
            obtain ⟨u, hu, hreads⟩ := hreads.suffix
            simpa using exists_suffix_iff.1 ⟨u, hu.trans ht, hreads⟩
        · refine hback fun hreads => ?_
          rw [likeItems_cons hescape, LikeItem.ofChar, if_neg hstar, if_neg fun h => hone (.inl h),
            reads_cons] at hreads
          exact hone (.inr hreads.1.symm)

end

theorem likeMatchChars_eq_true_iff :
    likeMatchChars value pattern escape = true ↔ Reads escape (likeItems escape pattern) value := by
  have h : LikeRun escape (pattern.length + 1) pattern value none value :=
    ⟨suffix_rfl, Nat.le_succ _, nofun, nofun⟩
  rw [likeMatchChars, likeLoop_eq_true_iff h (by omega)]
  simp

/-! ## When the loop is right -/

section

variable {takes : List Char → List Char → Prop} {pre post : List LikeItem}

theorem TakenBy.accepts (h : TakenBy takes items value) : LikeAccepts items value := by
  induction items generalizing value with
  | nil => exact h
  | cons item items ih =>
    cases item with
    | any =>
      obtain ⟨piece, rest, heq, -, h⟩ := h
      exact ⟨piece, rest, heq, trivial, ih h⟩
    | one =>
      obtain ⟨c, rest, heq, h⟩ := h
      exact ⟨c, rest, heq, ih h⟩
    | lit c =>
      obtain ⟨rest, heq, h⟩ := h
      exact ⟨rest, heq, ih h⟩

theorem TakenBy.append (h : TakenBy Narrow pre value) (hpost : ∀ item ∈ post, item = .any) :
    TakenBy Narrow (pre ++ post) value := by
  induction pre generalizing value with
  | nil =>
    obtain rfl : value = [] := h
    exact takenBy_narrow_nil.2 hpost
  | cons item pre ih =>
    cases item with
    | any =>
      obtain ⟨piece, rest, heq, hnarrow, h⟩ := h
      exact ⟨piece, rest, heq, hnarrow, ih h⟩
    | one =>
      obtain ⟨c, rest, heq, h⟩ := h
      exact ⟨c, rest, heq, ih h⟩
    | lit c =>
      obtain ⟨rest, heq, h⟩ := h
      exact ⟨rest, heq, ih h⟩

theorem TakenBy.length (h : TakenBy takes items value) :
    items.length ≤ value.length + items.count .any ∧
      (.any ∉ items → value.length = items.length) := by
  induction items generalizing value with
  | nil => simp [show value = [] from h]
  | cons item items ih =>
    cases item with
    | any =>
      obtain ⟨piece, rest, rfl, -, h⟩ := h
      have hlen := (ih h).1
      refine ⟨?_, fun hmem => absurd mem_cons_self hmem⟩
      rw [length_append, length_cons, count_cons_self]
      omega
    | one =>
      obtain ⟨c, rest, rfl, h⟩ := h
      simpa [Nat.add_right_comm] using ih h
    | lit c =>
      obtain ⟨rest, rfl, h⟩ := h
      simpa [Nat.add_right_comm] using ih h

/-- With `%` as the escape only a dangling `%` is a wildcard. -/
theorem not_mem_of_escape (h : likeItems (some '%') pattern = pre ++ post) (hpost : post ≠ []) :
    .any ∉ pre := by
  fun_induction likeItems (some '%') pattern generalizing pre with
  | case1 => simp [(append_eq_nil_iff.1 h.symm).1]
  | case2 c =>
    rcases cons_eq_append_iff.1 h with ⟨rfl, -⟩ | ⟨pre, rfl, htail⟩
    · exact not_mem_nil
    · exact absurd (append_eq_nil_iff.1 htail.symm).2 hpost
  | case3 c d rest hc ih =>
    rcases cons_eq_append_iff.1 h with ⟨rfl, -⟩ | ⟨pre, rfl, htail⟩
    · exact not_mem_nil
    · simpa using ih htail
  | case4 c d rest hc ih =>
    rcases cons_eq_append_iff.1 h with ⟨rfl, -⟩ | ⟨pre, rfl, htail⟩
    · exact not_mem_nil
    · have hne : LikeItem.ofChar c ≠ .any := fun hany => hc (by rw [ofChar_eq_any.1 hany])
      simpa [hne.symm] using ih htail

theorem Overrun.not_accepts (h : Overrun escape (likeItems escape pattern) value) :
    ¬ LikeAccepts (likeItems escape pattern) value := by
  obtain ⟨pre, post, heq, hpre, hmem, hpost⟩ := h
  obtain ⟨-, rfl⟩ := (hpost _ hmem).resolve_left nofun
  intro haccepts
  have hany := not_mem_of_escape heq (ne_nil_of_mem hmem)
  have hlen := haccepts.length.1
  have hcount : post.count .any ≠ post.length := fun hall =>
    LikeItem.noConfusion (count_eq_length.1 hall _ hmem)
  have hle := @count_le_length _ _ LikeItem.any post
  rw [heq, length_append, count_append, count_eq_zero.2 hany, ← hpre.length.2 hany] at hlen
  omega

end

/-- The loop accepts what the items take narrowly, and values that end in front of escaped `%`. -/
theorem reads_iff : Reads escape items value ↔
    TakenBy Narrow items value ∨ Overrun escape items value := by
  constructor
  · rintro ⟨pre, post, rfl, hpre, hpost⟩
    by_cases hmem : .lit '%' ∈ post
    · exact .inr ⟨pre, post, rfl, hpre, hmem, hpost⟩
    · refine .inl (hpre.append fun item hitem => (hpost item hitem).resolve_right fun hlit => ?_)
      exact hmem (hlit.1 ▸ hitem)
  · rintro (h | ⟨pre, post, heq, hpre, -, hpost⟩)
    · exact ⟨items, [], (append_nil _).symm, h, nofun⟩
    · exact ⟨pre, post, heq, hpre, hpost⟩

/-- **LIKE** is its definition exactly where the value is taken narrowly if at all and no escaped
`%` are skipped at its end. -/
theorem likeMatchChars_exact_iff (value pattern : List Char) (escape : Option Char) :
    (likeMatchChars value pattern escape = true ↔ LikeAccepts (likeItems escape pattern) value) ↔
      LikeSafe escape (likeItems escape pattern) value := by
  rw [likeMatchChars_eq_true_iff, reads_iff]
  constructor
  · intro h
    have hrun : ¬ Overrun escape (likeItems escape pattern) value := fun hrun =>
      hrun.not_accepts (h.1 (.inr hrun))
    exact ⟨fun haccepts => (h.2 haccepts).resolve_right hrun, hrun⟩
  · rintro ⟨hnarrow, hrun⟩
    exact ⟨fun h => (h.resolve_right hrun).accepts, fun h => .inl (hnarrow h)⟩

/-! ## The lowered pattern -/

variable {lower : Char → List Char}

/-- Characters that are neither a wildcard nor the escape stand for themselves. -/
theorem likeItems_append_plain {chars : List Char} (h : ∀ d ∈ chars, ¬ Special escape d) :
    likeItems escape (chars ++ pattern) = chars.map .lit ++ likeItems escape pattern := by
  induction chars with
  | nil => rfl
  | cons d chars ih =>
    obtain ⟨hd, hchars⟩ := forall_mem_cons.1 h
    simp only [Special, not_or] at hd
    have hofChar : LikeItem.ofChar d = .lit d := by simp [LikeItem.ofChar, hd.1, hd.2.1]
    rw [cons_append, likeItems_cons fun hescape => hd.2.2 hescape.1, hofChar, ih hchars, map_cons,
      cons_append]

/-- What one character of the pattern is lowered to, in front of the rest. -/
theorem likeItems_lowered {c : Char} (hc : LoweredApart lower escape [c])
    (h : ¬ (some c = escape ∧ pattern ≠ [])) :
    likeItems escape (lower c ++ pattern) =
      (LikeItem.ofChar c).fold lower ++ likeItems escape pattern := by
  obtain ⟨-, hlower⟩ := hc c (mem_singleton_self c)
  by_cases hs : Special escape c
  · rw [if_pos hs] at hlower
    rw [hlower, singleton_append, likeItems_cons h]
    unfold LikeItem.ofChar
    split_ifs <;> simp [LikeItem.fold, hlower]
  · rw [if_neg hs] at hlower
    rw [likeItems_append_plain hlower]
    simp only [Special, not_or] at hs
    simp [LikeItem.ofChar, hs.1, hs.2.1, LikeItem.fold]

/-- An escape of the pattern escapes what the next character is lowered to. -/
theorem likeItems_escaped {c d : Char} (hc : some c = escape)
    (h : LoweredApart lower escape [c, d]) :
    likeItems escape (lower c ++ (lower d ++ pattern)) =
      (lower d).map .lit ++ likeItems escape pattern := by
  obtain ⟨-, hlower⟩ := h c (by simp)
  obtain ⟨hsome, hd⟩ := h d (by simp)
  rw [if_pos (.inr (.inr hc))] at hlower
  obtain ⟨first, more, hcons⟩ := exists_cons_of_ne_nil hsome
  have hmore : ∀ x ∈ more, ¬ Special escape x := by
    intro x hx
    split_ifs at hd with hs
    · rw [hcons, cons.injEq] at hd
      rw [hd.2] at hx
      cases hx
    · exact hd x (hcons ▸ mem_cons_of_mem first hx)
  rw [hlower, hcons, singleton_append, cons_append, likeItems, if_pos hc,
    likeItems_append_plain hmore, map_cons, cons_append]

/-- Lowering the characters of a pattern lowers the literal characters of its items. -/
theorem likeItems_flatMap (h : LoweredApart lower escape pattern) :
    likeItems escape (pattern.flatMap lower) =
      (likeItems escape pattern).flatMap (LikeItem.fold lower) := by
  fun_induction likeItems escape pattern with
  | case1 => rfl
  | case2 c =>
    have hlast : likeItems escape (lower c ++ []) = (LikeItem.ofChar c).fold lower ++ [] :=
      likeItems_lowered h (by simp)
    simpa [likeItems] using hlast
  | case3 c d rest hescape ih =>
    have hpair : LoweredApart lower escape [c, d] := fun x hx => h x (by simp at hx ⊢; tauto)
    rw [flatMap_cons, flatMap_cons, likeItems_escaped hescape hpair, flatMap_cons,
      ih fun x hx => h x (by simp [hx])]
    rfl
  | case4 c d rest hescape ih =>
    rw [flatMap_cons, likeItems_lowered (fun x hx => h x (by simp_all)) (fun hc => hescape hc.1),
      ih fun x hx => h x (mem_cons_of_mem c hx), flatMap_cons]

/-- A lowered pattern ends with as many escapes as the pattern. -/
theorem danglingEscape_flatMap (h : LoweredApart lower escape pattern) :
    danglingEscape escape (pattern.flatMap lower) = danglingEscape escape pattern := by
  cases escape with
  | none => rfl
  | some e =>
    have hcount : ((pattern.flatMap lower).reverse.takeWhile (· = e)).length =
        (pattern.reverse.takeWhile (· = e)).length := by
      induction pattern using List.reverseRecOn with
      | nil => rfl
      | append_singleton pattern c ih =>
        obtain ⟨hsome, hlower⟩ := h c (by simp)
        rw [flatMap_append, flatMap_singleton, reverse_append, reverse_append, reverse_singleton,
          singleton_append]
        by_cases hc : c = e
        · rw [if_pos (.inr (.inr (congrArg some hc)))] at hlower
          rw [hlower, reverse_singleton, singleton_append,
            takeWhile_cons_of_pos (by simpa using hc),
            takeWhile_cons_of_pos (by simpa using hc), length_cons, length_cons,
            ih fun x hx => h x (mem_append_left _ hx)]
        · -- the last character of the lowered pattern is not the escape either
          obtain ⟨first, more, hcons⟩ := exists_cons_of_ne_nil (reverse_ne_nil_iff.2 hsome)
          have hfirst : first ∈ lower c := by
            rw [← mem_reverse, hcons]
            exact mem_cons_self
          have hne : first ≠ e := by
            rintro rfl
            split_ifs at hlower with hs
            · rw [hlower, mem_singleton] at hfirst
              exact hc hfirst.symm
            · exact hlower first hfirst (.inr (.inr rfl))
          rw [hcons, cons_append, takeWhile_cons_of_neg (by simpa using hne),
            takeWhile_cons_of_neg (by simpa using hc)]
    simp only [danglingEscape, Option.any_some, hcount]

end BicDb.Sql
