import Mathlib.Data.List.Basic
import Mathlib.Data.List.Chain
import Mathlib.Data.Option.Basic
import Mathlib.Tactic.Common

/-!
# Version chains

The versions of one key, newest first, each with maker and deleter. A reader takes the first version
whose maker it sees and whose deleter it does not (`readChain`); it should get the effect of the
last write it sees (`lastSeen`). `Records` relates writes and chain, `Records.read` the main result.
-/

namespace BicDb.Foundation

open List

universe u v

variable {X : Type u} {V : Type v}

/-- Maker, deleter, and value. -/
structure Ver (X : Type u) (V : Type v) where
  born : X
  dead : Option X
  value : V

/-- A write of one key: a put has a value, a delete has none. -/
structure KeyWrite (X : Type u) (V : Type v) where
  author : X
  effect : Option V

section Read

variable (sees : X → Bool)

/-- The maker is seen and the deleter is not. -/
def Ver.visible (v : Ver X V) : Bool := sees v.born && !v.dead.any sees

/-- The first visible version of a chain. -/
def readChain (chain : List (Ver X V)) : Option V :=
  (chain.find? (Ver.visible sees)).map (·.value)

/-- The effect of the last write seen; `none` stands for absence. -/
def lastSeen (writes : List (KeyWrite X V)) : Option V :=
  (writes.find? fun w => sees w.author).bind (·.effect)

@[simp] theorem readChain_nil : readChain sees ([] : List (Ver X V)) = none := rfl

theorem readChain_cons (v : Ver X V) (chain : List (Ver X V)) :
    readChain sees (v :: chain) =
      if v.visible sees = true then some v.value else readChain sees chain := by
  unfold readChain
  split <;> simp_all

@[simp] theorem lastSeen_nil : lastSeen sees ([] : List (KeyWrite X V)) = none := rfl

theorem lastSeen_cons (w : KeyWrite X V) (writes : List (KeyWrite X V)) :
    lastSeen sees (w :: writes) =
      if sees w.author = true then w.effect else lastSeen sees writes := by
  unfold lastSeen
  split <;> simp_all

/-- A reader's last own write counts, or else the last of the others. -/
theorem lastSeen_own (own other : X → Bool) {writes : List (KeyWrite X V)}
    (hsees : ∀ w ∈ writes, sees w.author = (own w.author || other w.author))
    (hlast : writes.Pairwise fun newer older =>
      other newer.author = true → own older.author = true → own newer.author = true) :
    lastSeen sees writes =
      match writes.find? fun w => own w.author with
      | some w => w.effect
      | none => lastSeen other writes := by
  induction writes with
  | nil => rfl
  | cons w writes ih =>
    rw [forall_mem_cons] at hsees
    rw [pairwise_cons] at hlast
    have hrest := ih hsees.2 hlast.2
    rw [lastSeen_cons, lastSeen_cons, hsees.1, find?_cons]
    cases hown : own w.author with
    | true => simp
    | false =>
      cases hother : other w.author with
      | true =>
        -- nothing of its own below a write of another one
        have hnone : writes.find? (fun v => own v.author) = none := by
          rw [find?_eq_none]
          intro v hv hv'
          simp [hlast.1 v hv hother hv'] at hown
        simp [hnone]
      | false => simpa using hrest

theorem readChain_append (above below : List (Ver X V)) :
    readChain sees (above ++ below) = (readChain sees above).or (readChain sees below) := by
  induction above with
  | nil => simp
  | cons v above ih =>
    rw [cons_append, readChain_cons, readChain_cons, ih]
    split <;> simp

end Read

/-! ## Chains that record writes -/

/-- The chain records the writes; `next` is the live write after them. A delete is the stamp on the
version of the put before it. -/
inductive Records (live : X → Prop) :
    Option X → List (KeyWrite X V) → List (Ver X V) → Prop where
  | nil {next : Option X} : Records live next [] []
  | skip {next : Option X} {writes : List (KeyWrite X V)} {chain : List (Ver X V)} {v : Ver X V} :
      ¬ live v.born → Records live next writes chain → Records live next writes (v :: chain)
  | put {next : Option X} {writes : List (KeyWrite X V)} {chain : List (Ver X V)} {v : Ver X V} :
      live v.born → (∀ x, v.dead = some x ∧ live x ↔ next = some x) →
      Records live (some v.born) writes chain →
      Records live next (⟨v.born, some v.value⟩ :: writes) (v :: chain)
  | delete {next : Option X} {writes : List (KeyWrite X V)} {chain : List (Ver X V)} {v : Ver X V}
      {x : X} :
      live v.born → live x → v.dead = some x → Records live (some v.born) writes chain →
      Records live next (⟨x, none⟩ :: ⟨v.born, some v.value⟩ :: writes) (v :: chain)

namespace Records

variable {live : X → Prop} {next : Option X} {writes : List (KeyWrite X V)}
  {chain : List (Ver X V)} {sees : X → Bool}

theorem read_covered (h : Records live next writes chain) (hseen : ∀ x, sees x = true → live x)
    (hnext : ∃ x, next = some x ∧ sees x = true) (hall : ∀ w ∈ writes, sees w.author = true) :
    readChain sees chain = none := by
  induction h with
  | nil => simp
  | @skip next writes chain v hdead _ ih =>
    have hv : sees v.born = false := by
      simpa using fun hs => hdead (hseen _ hs)
    simp [readChain_cons, Ver.visible, hv, ih hnext hall]
  | @put next writes chain v _ hdel _ ih =>
    obtain ⟨x, hx, hsx⟩ := hnext
    have hgone := ((hdel x).mpr hx).1
    have hrest := ih ⟨v.born, rfl, hall _ mem_cons_self⟩ fun w hw => hall w (mem_cons_of_mem _ hw)
    simp [readChain_cons, Ver.visible, hgone, hsx, hrest]
  | @delete next writes chain v x _ _ hdel _ ih =>
    have hsx : sees x = true := hall _ mem_cons_self
    have hrest := ih ⟨v.born, rfl, hall _ (mem_cons_of_mem _ mem_cons_self)⟩
      fun w hw => hall w (mem_cons_of_mem _ (mem_cons_of_mem _ hw))
    simp [readChain_cons, Ver.visible, hdel, hsx, hrest]

/-- **Reading a chain.** A reader that sees with a write all writes before it gets the last write it
sees. -/
theorem read (h : Records live next writes chain) (hseen : ∀ x, sees x = true → live x)
    (hnext : ∀ x, next = some x → sees x = false)
    (hclosed : writes.Pairwise fun newer older =>
      sees newer.author = true → sees older.author = true) :
    readChain sees chain = lastSeen sees writes := by
  induction h with
  | nil => rfl
  | @skip next writes chain v hdead _ ih =>
    have hv : sees v.born = false := by
      simpa using fun hs => hdead (hseen _ hs)
    simp [readChain_cons, Ver.visible, hv, ih hnext hclosed]
  | @put next writes chain v _ hdel _ ih =>
    rw [pairwise_cons] at hclosed
    cases hs : sees v.born with
    | true =>
      -- nobody the reader sees has deleted the version
      have hkept : v.dead.any sees = false := by
        cases hd : v.dead with
        | none => rfl
        | some x =>
          simp only [Option.any_some]
          by_contra hx
          rw [Bool.not_eq_false] at hx
          rw [hnext x ((hdel x).mp ⟨hd, hseen x hx⟩)] at hx
          cases hx
      simp [readChain_cons, lastSeen_cons, Ver.visible, hs, hkept]
    | false =>
      have hrest := ih (by simpa using hs) hclosed.2
      simp [readChain_cons, lastSeen_cons, Ver.visible, hs, hrest]
  | @delete next writes chain v x _ _ hdel hrec ih =>
    rw [pairwise_cons, pairwise_cons] at hclosed
    obtain ⟨hnewest, hput, hrest⟩ := hclosed
    cases hx : sees x with
    | true =>
      have hv : sees v.born = true := hnewest _ mem_cons_self hx
      have hnone := hrec.read_covered hseen ⟨v.born, rfl, hv⟩ fun w hw =>
        hnewest w (mem_cons_of_mem _ hw) hx
      simp [readChain_cons, lastSeen_cons, Ver.visible, hdel, hx, hnone]
    | false =>
      cases hv : sees v.born with
      | true => simp [readChain_cons, lastSeen_cons, Ver.visible, hdel, hx, hv]
      | false =>
        have hbelow := ih (by simpa using hv) hrest
        simp [readChain_cons, lastSeen_cons, Ver.visible, hx, hv, hbelow]

variable {b : Ver X V}

theorem newest {w : KeyWrite X V} (h : Records live next (w :: writes) (b :: chain))
    (hb : live b.born) : w.author = b.born ∨ b.dead = some w.author ∧ live w.author := by
  cases h with
  | skip hdead _ => exact absurd hb hdead
  | put _ _ _ => exact .inl rfl
  | delete _ hx hdel _ => exact .inr ⟨hdel, hx⟩

/-! ### How chains change -/

variable {skipped : List (Ver X V)}

theorem append_skipped (hskip : ∀ v ∈ skipped, ¬ live v.born) :
    Records live next writes (skipped ++ chain) ↔ Records live next writes chain := by
  induction skipped with
  | nil => rfl
  | cons v skipped ih =>
    have hv : ¬ live v.born := hskip v mem_cons_self
    have ih' := ih fun u hu => hskip u (mem_cons_of_mem _ hu)
    constructor
    · intro h
      cases h with
      | skip _ hrest => exact ih'.mp hrest
      | put hlive _ _ => exact absurd hlive hv
      | delete hlive _ _ _ => exact absurd hlive hv
    · exact fun h => .skip hv (ih'.mpr h)

variable {x : X}

theorem put_over {value : V} (h : Records live none writes (skipped ++ b :: chain))
    (hskip : ∀ v ∈ skipped, ¬ live v.born) (hb : live b.born) (hx : live x)
    (hown : ∀ y, b.dead = some y → live y → y = x) :
    Records live none (⟨x, some value⟩ :: writes)
      (⟨x, none, value⟩ :: { b with dead := some x } :: chain) := by
  refine .put (v := ⟨x, none, value⟩) hx (by simp) ?_
  cases (append_skipped hskip).mp h with
  | skip hdead _ => exact absurd hb hdead
  | put _ _ hrest =>
    refine .put (v := { b with dead := some x }) hb (fun y => ?_) hrest
    constructor
    · exact fun hy => hy.1
    · rintro ⟨⟩
      exact ⟨rfl, hx⟩
  | @delete _ _ _ _ y _ hy hdel hrest =>
    obtain rfl := hown y hdel hy
    exact .delete (v := { b with dead := some y }) hb hx rfl hrest

theorem put_first {value : V} (h : Records live none writes chain)
    (hskip : ∀ v ∈ chain, ¬ live v.born) (hx : live x) :
    Records live none (⟨x, some value⟩ :: writes) [⟨x, none, value⟩] := by
  have hnil : Records live none writes [] := by
    rwa [← append_skipped hskip, append_nil]
  cases hnil
  exact .put (v := ⟨x, none, value⟩) hx (by simp) .nil

theorem delete_over (h : Records live none writes (skipped ++ b :: chain))
    (hskip : ∀ v ∈ skipped, ¬ live v.born) (hb : live b.born) (hx : live x)
    (hkept : ∀ y, b.dead = some y → ¬ live y) :
    Records live none (⟨x, none⟩ :: writes) (skipped ++ { b with dead := some x } :: chain) := by
  rw [append_skipped hskip] at h ⊢
  cases h with
  | skip hdead _ => exact absurd hb hdead
  | put _ _ hrest => exact .delete (v := { b with dead := some x }) hb hx rfl hrest
  | delete _ hy hdel _ => exact absurd hy (hkept _ hdel)

/-- The writes of an aborted author can be left out. -/
theorem retire [DecidableEq X] (x : X) {next' : Option X} (h : Records live next writes chain)
    (hnext : ∀ y, next' = some y ↔ next = some y ∧ y ≠ x)
    (hlast : ∀ y, next = some y → (∃ w ∈ writes, w.author = x) → y = x)
    (hfront : writes.Pairwise fun newer older => older.author = x → newer.author = x) :
    Records (fun y => live y ∧ y ≠ x) next' (writes.filter fun w => decide (w.author ≠ x))
      chain := by
  induction h generalizing next' with
  | nil => exact .nil
  | skip hdead _ ih => exact .skip (fun hv => hdead hv.1) (ih hnext hlast hfront)
  | @put next writes chain v hlive hdel _ ih =>
    rw [pairwise_cons] at hfront
    by_cases hv : v.born = x
    · -- what came after a write of `x` is a write of `x`
      have hnone : next' = none := by
        cases hn : next' with
        | none => rfl
        | some y =>
          obtain ⟨hy, hne⟩ := (hnext y).mp hn
          exact absurd (hlast y hy ⟨_, mem_cons_self, hv⟩) hne
      rw [filter_cons_of_neg (by simp [hv]), hnone]
      refine .skip (fun hb => hb.2 hv) (ih (fun y => ?_) (fun y hy _ => ?_) hfront.2)
      · simp [hv]
        exact Eq.symm
      · cases hy
        exact hv
    · rw [filter_cons_of_pos (by simp [hv])]
      refine .put ⟨hlive, hv⟩ (fun y => ?_) (ih (fun y => ?_) (fun y hy hw => ?_) hfront.2)
      · rw [hnext y, ← hdel y]
        constructor
        · exact fun hy => ⟨⟨hy.1, hy.2.1⟩, hy.2.2⟩
        · exact fun hy => ⟨hy.1.1, hy.1.2, hy.2⟩
      · constructor
        · rintro ⟨⟩
          exact ⟨rfl, hv⟩
        · exact fun hy => hy.1
      · obtain ⟨w, hw, hwx⟩ := hw
        exact absurd (hfront.1 w hw hwx) hv
  | @delete next writes chain v y hlive hy hdel _ ih =>
    rw [pairwise_cons, pairwise_cons] at hfront
    obtain ⟨hnewest, hput, hrest⟩ := hfront
    by_cases hv : v.born = x
    · have hyx : y = x := hnewest _ mem_cons_self hv
      rw [filter_cons_of_neg (by simp [hyx]), filter_cons_of_neg (by simp [hv])]
      have hnone : next' = none := by
        cases hn : next' with
        | none => rfl
        | some z =>
          obtain ⟨hz, hne⟩ := (hnext z).mp hn
          exact absurd (hlast z hz ⟨_, mem_cons_self, hyx⟩) hne
      rw [hnone]
      refine .skip (fun hb => hb.2 hv) (ih (fun z => ?_) (fun z hz _ => ?_) hrest)
      · simp [hv]
        exact Eq.symm
      · cases hz
        exact hv
    · have hbelow : Records (fun y => live y ∧ y ≠ x) (some v.born)
          (writes.filter fun w => decide (w.author ≠ x)) chain := by
        refine ih (fun z => ?_) (fun z hz hw => ?_) hrest
        · constructor
          · rintro ⟨⟩
            exact ⟨rfl, hv⟩
          · exact fun hz => hz.1
        · obtain ⟨w, hw, hwx⟩ := hw
          exact absurd (hput w hw hwx) hv
      by_cases hyx : y = x
      · -- only the delete is dropped, and nothing live came after it
        rw [filter_cons_of_neg (by simp [hyx]), filter_cons_of_pos (by simp [hv])]
        refine .put ⟨hlive, hv⟩ (fun z => ?_) hbelow
        constructor
        · rintro ⟨hz, -, hne⟩
          rw [hdel] at hz
          cases hz
          exact absurd hyx hne
        · intro hz
          obtain ⟨hz, hne⟩ := (hnext z).mp hz
          exact absurd (hlast z hz ⟨_, mem_cons_self, hyx⟩) hne
      · rw [filter_cons_of_pos (by simp [hyx]), filter_cons_of_pos (by simp [hv])]
        exact .delete ⟨hlive, hv⟩ ⟨hy, hyx⟩ hdel hbelow

end Records

/-! ## Cutting chains -/

section Cut

variable {live : X → Prop} {sees : X → Bool}

/-- A version above another was made by its deleter, unless dead. -/
def Chained (live : X → Prop) (chain : List (Ver X V)) : Prop :=
  chain.IsChain fun v u => live v.born → u.dead = some v.born

namespace Chained

variable {chain above below skipped : List (Ver X V)} {b : Ver X V}

theorem mono {live' : X → Prop} (h : Chained live chain) (hlive : ∀ x, live' x → live x) :
    Chained live' chain :=
  List.IsChain.imp (fun _ _ hv hl => hv (hlive _ hl)) h

theorem left (h : Chained live (above ++ below)) : Chained live above :=
  (isChain_append.mp h).1

theorem right (h : Chained live (above ++ below)) : Chained live below :=
  (isChain_append.mp h).2.1

theorem restamp (h : Chained live (b :: below)) (d : Option X) :
    Chained live ({ b with dead := d } :: below) := by
  cases below with
  | nil => exact isChain_singleton _
  | cons u below =>
    rw [Chained, isChain_cons_cons] at h ⊢
    exact h

theorem restamp_under (h : Chained live (skipped ++ b :: below))
    (hskip : ∀ v ∈ skipped, ¬ live v.born) (d : Option X) :
    Chained live (skipped ++ { b with dead := d } :: below) := by
  refine isChain_append.mpr ⟨h.left, h.right.restamp d, ?_⟩
  intro v hv u _ hlive
  exact absurd hlive (hskip v (mem_of_mem_getLast? hv))

theorem push {x : X} {value : V} (h : Chained live (b :: below)) :
    Chained live (⟨x, none, value⟩ :: { b with dead := some x } :: below) := by
  rw [Chained, isChain_cons_cons]
  exact ⟨fun _ => rfl, h.restamp _⟩

end Chained

theorem readChain_dead {v : Ver X V} {below : List (Ver X V)} {d : X}
    (h : Chained live (v :: below)) (hseen : ∀ x, sees x = true → live x)
    (hback : ∀ u ∈ v :: below, ∀ x, u.dead = some x → sees x = true → sees u.born = true)
    (hd : v.dead = some d) (hs : sees d = true) : readChain sees (v :: below) = none := by
  induction below generalizing v d with
  | nil => simp [readChain_cons, Ver.visible, hd, hs]
  | cons u below ih =>
    rw [Chained, isChain_cons_cons] at h
    have hv : sees v.born = true := hback v mem_cons_self d hd hs
    have hrest := ih h.2 (fun w hw => hback w (mem_cons_of_mem _ hw)) (h.1 (hseen _ hv)) hv
    rw [readChain_cons, hrest]
    simp [Ver.visible, hd, hs]

/-- **A cut that goes unnoticed.** -/
theorem readChain_cut {above below : List (Ver X V)} {v : Ver X V}
    (h : Chained live (above ++ v :: below)) (hseen : ∀ x, sees x = true → live x)
    (hback : ∀ u ∈ above ++ v :: below, ∀ x, u.dead = some x → sees x = true → sees u.born = true)
    (hcut : (∃ d, v.dead = some d ∧ sees d = true) ∨
      ¬ live v.born ∧ ∀ u ∈ below.head?, ∃ d, u.dead = some d ∧ sees d = true) :
    readChain sees (above ++ v :: below) = readChain sees above := by
  have hbelow : Chained live (v :: below) := h.right
  have hback' : ∀ u ∈ v :: below, ∀ x, u.dead = some x → sees x = true → sees u.born = true :=
    fun u hu => hback u (mem_append_right _ hu)
  have hnone : readChain sees (v :: below) = none := by
    rcases hcut with ⟨d, hd, hs⟩ | ⟨hv, hnext⟩
    · exact readChain_dead hbelow hseen hback' hd hs
    have hvis : sees v.born = false := by
      simpa using fun hs => hv (hseen _ hs)
    rw [readChain_cons]
    simp only [Ver.visible, hvis, Bool.false_and, Bool.false_eq_true, if_false]
    cases below with
    | nil => rfl
    | cons u below =>
      obtain ⟨d, hd, hs⟩ := hnext u rfl
      rw [Chained, isChain_cons_cons] at hbelow
      exact readChain_dead hbelow.2 hseen (fun w hw => hback' w (mem_cons_of_mem _ hw)) hd hs
  rw [readChain_append, hnone, Option.or_none]

end Cut

end BicDb.Foundation
