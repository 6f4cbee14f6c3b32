import Mathlib.Data.Finset.Card
import BicDb.Foundation.IndexedLog

/-!
# Leader logs: the history behind log replication by terms

A `History` keeps which terms had a leader, the leaders' logs, the votes with the logs they were
cast on, and the acknowledged prefixes; `Sound` relates it to the nodes, and each protocol event has
a lemma that continues it. No quorum occurs here: `Sound.carried_of_meet` is the step of leader
completeness, for which a protocol supplies the common node.
-/

namespace BicDb.Foundation

open Function List

universe u v

/-- The winner, the log it started from and the voters counted. -/
structure Election (N : Type u) (E : Type v) where
  leader : N
  start : List E
  votes : Finset N

/-- `won t` is the election of term `t`, `tlog t` its leader's log, `vote n t` and `vlog n t` the
vote of `n` and the log it was cast on, `late n t` a vote cast when the term had a leader; `acked n
t k`: `n` confirmed the first `k` entries of `tlog t`. -/
structure History (N : Type u) (E : Type v) where
  won : Nat → Option (Election N E)
  tlog : Nat → List E
  vote : N → Nat → Option N
  vlog : N → Nat → Option (List E)
  late : N → Nat → Prop
  acked : N → Nat → Nat → Prop

namespace History

variable {N : Type u} {E : Type v}

/-- Term `t` had a leader. -/
def Led (H : History N E) (t : Nat) : Prop := ∃ el, H.won t = some el

/-- Nothing has happened. -/
def empty : History N E where
  won := fun _ => none
  tlog := fun _ => []
  vote := fun _ _ => none
  vlog := fun _ _ => none
  late := fun _ _ => False
  acked := fun _ _ _ => False

end History

section Logs

variable {N : Type u} {E : Type v} (termOf : E → Nat)

/-- The term of the last entry, `0` for an empty log. -/
def lastTerm (l : List E) : Nat := (l.getLast?).elim 0 termOf

/-- The candidate's log `c` ends in a later term than `l`, or in the same and is no shorter. -/
def UpToDate (c l : List E) : Prop :=
  lastTerm termOf l < lastTerm termOf c ∨
    lastTerm termOf l = lastTerm termOf c ∧ l.length ≤ c.length

/-- Every prefix of `l` ending in term `t` is a prefix of the log of `t`. -/
def Matched (H : History N E) (l : List E) : Prop :=
  ∀ p e, p ++ [e] <+: l → H.Led (termOf e) ∧ p ++ [e] <+: H.tlog (termOf e)

variable {termOf}

variable {H : History N E} {l : List E}

theorem Matched.anti {l' : List E} (h : Matched termOf H l) (hp : l' <+: l) : Matched termOf H l' :=
  fun p e hpe => h p e (hpe.trans hp)

theorem matched_nil (H : History N E) : Matched termOf H [] := by
  intro p e hpe
  have hlen := hpe.length_le
  simp at hlen

variable {e : E}

theorem Matched.snoc (h : Matched termOf H l) (hled : H.Led (termOf e))
    (he : l ++ [e] <+: H.tlog (termOf e)) :
    Matched termOf H (l ++ [e]) := by
  intro p x hp
  rcases prefix_concat_iff.mp hp with heq | hp
  · obtain ⟨rfl, ⟨⟩⟩ := append_inj' heq rfl
    exact ⟨hled, he⟩
  · exact h p x hp

variable {k : Nat}

theorem Matched.take_succ (h : Matched termOf H l) (he : l[k]? = some e) :
    H.Led (termOf e) ∧ l.take (k + 1) <+: H.tlog (termOf e) := by
  rw [take_succ_of_get he]
  apply h
  rw [← take_succ_of_get he]
  exact take_prefix _ _

/-- **Log matching.** -/
theorem Matched.take_eq {l' : List E} (h : Matched termOf H l) (h' : Matched termOf H l') {e' : E}
    (he : l[k]? = some e) (he' : l'[k]? = some e') (hterm : termOf e = termOf e') :
    l.take (k + 1) = l'.take (k + 1) := by
  have hp := (h.take_succ he).2
  have hp' := (h'.take_succ he').2
  rw [← hterm] at hp'
  have hk : k < l.length := (List.getElem?_eq_some_iff.mp he).1
  have hk' : k < l'.length := (List.getElem?_eq_some_iff.mp he').1
  have hlen : (l.take (k + 1)).length = (l'.take (k + 1)).length := by
    rw [length_take_of_le hk, length_take_of_le hk']
  exact (prefix_of_prefix_length_le hp hp' hlen.le).eq_of_length hlen

theorem lastTerm_concat (l : List E) (e : E) : lastTerm termOf (l ++ [e]) = termOf e := by
  simp [lastTerm]

theorem lastTerm_take_succ (he : l[k]? = some e) :
    lastTerm termOf (l.take (k + 1)) = termOf e := by
  rw [take_succ_of_get he, lastTerm_concat]

theorem lastTerm_take_of {P : Nat → Prop} (hzero : P 0) (h : ∀ e ∈ l, P (termOf e)) (i : Nat) :
    P (lastTerm termOf (l.take i)) := by
  rcases eq_nil_or_concat' (l.take i) with hnil | ⟨p, e, hpe⟩
  · rwa [hnil]
  · rw [hpe, lastTerm_concat]
    exact h e (mem_of_mem_take (by rw [hpe]; simp))

theorem eq_nil_or_lastTerm (termOf : E → Nat) (l : List E) :
    l = [] ∨ ∃ p e, l = p ++ [e] ∧ lastTerm termOf l = termOf e := by
  rcases eq_nil_or_concat' l with rfl | ⟨p, e, rfl⟩
  · exact .inl rfl
  · exact .inr ⟨p, e, rfl, lastTerm_concat p e⟩

theorem Matched.prefix_tlog (h : Matched termOf H l) : l <+: H.tlog (lastTerm termOf l) := by
  rcases eq_nil_or_lastTerm termOf l with rfl | ⟨p, e, rfl, he⟩
  · exact nil_prefix
  · rw [he]
    exact (h p e prefix_rfl).2

/-! ## Continuing a history -/

/-- `H'` continues `H`. -/
structure History.Le (H H' : History N E) : Prop where
  won : ∀ {t el}, H.won t = some el → H'.won t = some el
  tlog : ∀ t, H.tlog t <+: H'.tlog t
  vote : ∀ {n t c}, H.vote n t = some c → H'.vote n t = some c
  acked : ∀ {n t k}, H.acked n t k → H'.acked n t k

namespace History

variable (H : History N E)

theorem Le.refl : H.Le H :=
  ⟨id, fun _ => prefix_rfl, id, id⟩

theorem Le.trans {H₁ H₂ H₃ : History N E} (h : H₁.Le H₂) (h' : H₂.Le H₃) : H₁.Le H₃ :=
  ⟨fun hw => h'.won (h.won hw), fun t => (h.tlog t).trans (h'.tlog t),
    fun hv => h'.vote (h.vote hv), fun ha => h'.acked (h.acked ha)⟩

theorem Le.led {H H' : History N E} (h : H.Le H') {t : Nat} (hl : H.Led t) : H'.Led t := by
  obtain ⟨el, hel⟩ := hl
  exact ⟨el, h.won hel⟩

theorem Le.take_tlog {H H' : History N E} (h : H.Le H') {t i : Nat}
    (hi : i ≤ (H.tlog t).length) : (H'.tlog t).take i = (H.tlog t).take i := by
  obtain ⟨r, hr⟩ := h.tlog t
  rw [← hr, take_append_of_le_length hi]

/-- Node `n` casts its vote of term `t` for `c`, holding `l`. -/
def castVote [DecidableEq N] (n : N) (t : Nat) (c : N) (l : List E) : History N E :=
  { H with
    vote := fun m s => if m = n ∧ s = t then some c else H.vote m s
    vlog := fun m s => if m = n ∧ s = t then some l else H.vlog m s
    late := fun m s => m = n ∧ s = t ∧ H.Led t ∨ H.late m s }

/-- Term `t` is won by the election `el`. -/
def elect (t : Nat) (el : Election N E) : History N E :=
  { H with
    won := update H.won t (some el)
    tlog := update H.tlog t el.start }

/-- The leader of term `t` writes the entry `e`. -/
def extend (t : Nat) (e : E) : History N E :=
  { H with tlog := update H.tlog t (H.tlog t ++ [e]) }

/-- Node `n` confirms the first `k` entries of the log of `t`. -/
def acknowledge (n : N) (t k : Nat) : History N E :=
  { H with acked := fun m s j => m = n ∧ s = t ∧ j = k ∨ H.acked m s j }

end History

theorem Matched.mono {H' : History N E} (hle : H.Le H') (h : Matched termOf H l) :
    Matched termOf H' l := by
  intro p e hpe
  obtain ⟨hled, hpre⟩ := h p e hpe
  exact ⟨hle.led hled, hpre.trans (hle.tlog _)⟩

end Logs

/-! ## Sound histories -/

section Sound

variable {N : Type u} {E : Type v} (termOf : E → Nat)

/-- `H` explains the terms and logs that the nodes hold. As long as no leader in between has lost an
acknowledged prefix, the node holds it, and held it when it voted. -/
structure History.Sound (H : History N E) (term : N → Nat) (log : N → List E) : Prop where
  led_pos : ∀ {t}, H.Led t → 0 < t
  tlog_led : ∀ {t}, ¬ H.Led t → H.tlog t = []
  tlog_matched : ∀ t, Matched termOf H (H.tlog t)
  tlog_le : ∀ {t e}, e ∈ H.tlog t → termOf e ≤ t
  log_matched : ∀ n, Matched termOf H (log n)
  log_le : ∀ {n e}, e ∈ log n → termOf e ≤ term n
  vote_le : ∀ {n t c}, H.vote n t = some c → t ≤ term n
  vlog_vote : ∀ {n t l}, H.vlog n t = some l → ∃ c, H.vote n t = some c
  vlog_of_vote : ∀ {n t c}, H.vote n t = some c → ∃ l, H.vlog n t = some l
  late_led : ∀ {n t}, H.late n t → H.Led t
  vlog_matched : ∀ {n t l}, H.vlog n t = some l → Matched termOf H l
  won_start : ∀ {t el}, H.won t = some el → el.start <+: H.tlog t ∧ ∀ e ∈ el.start, termOf e < t
  won_votes : ∀ {t el}, H.won t = some el → ∀ n ∈ el.votes,
    H.vote n t = some el.leader ∧ ¬ H.late n t ∧
      ∃ l, H.vlog n t = some l ∧ UpToDate termOf el.start l
  acked_bound : ∀ {n t k}, H.acked n t k → H.Led t ∧ t ≤ term n ∧ k ≤ (H.tlog t).length
  log_keeps : ∀ {n t k i}, H.acked n t k → i ≤ k →
    (∀ t', t < t' → t' ≤ term n → H.Led t' → (H.tlog t).take i <+: H.tlog t') →
    (H.tlog t).take i <+: log n
  vlog_keeps : ∀ {n t k i T l}, H.acked n t k → i ≤ k → t < T → H.vlog n T = some l →
    (∀ t', t < t' → t' < T ∨ t' = T ∧ H.late n T → H.Led t' → (H.tlog t).take i <+: H.tlog t') →
    (H.tlog t).take i <+: l

namespace History

variable {termOf} {H : History N E} {term : N → Nat} {log : N → List E}

theorem Sound.init (term : N → Nat) :
    (History.empty : History N E).Sound termOf term (fun _ => []) := by
  have hnotled : ∀ t, ¬ (History.empty : History N E).Led t := by
    rintro t ⟨el, hel⟩
    cases hel
  constructor <;> intros <;> simp_all [History.empty, matched_nil]

variable {l : List E} {e : E}

section

variable (hs : H.Sound termOf term log)

include hs

/-! ### The events of a replication protocol -/

theorem Sound.raiseTerm {term' : N → Nat}
    (hle : ∀ n, term n ≤ term' n) : H.Sound termOf term' log :=
  { hs with
    log_le := fun he => (hs.log_le he).trans (hle _)
    vote_le := fun hv => (hs.vote_le hv).trans (hle _)
    acked_bound := fun ha =>
      ⟨(hs.acked_bound ha).1, (hs.acked_bound ha).2.1.trans (hle _), (hs.acked_bound ha).2.2⟩
    log_keeps := fun ha hi hbetween =>
      hs.log_keeps ha hi fun t' ht ht' hled => hbetween t' ht (ht'.trans (hle _)) hled }

section Vote

variable [DecidableEq N]

omit hs in
theorem le_castVote {n : N} {t : Nat} {c : N} {l : List E} (hnew : H.vote n t = none) :
    H.Le (H.castVote n t c l) where
  won := id
  tlog := fun _ => List.prefix_rfl
  vote := by
    intro m s d hd
    have hne : ¬ (m = n ∧ s = t) := by
      rintro ⟨rfl, rfl⟩
      rw [hnew] at hd
      cases hd
    simp [castVote, hne, hd]
  acked := id

omit hs in
theorem castVote_vote_self (n : N) (t : Nat) (c : N) (l : List E) :
    (H.castVote n t c l).vote n t = some c := by
  simp [castVote]

omit hs in
theorem castVote_cases (n : N) (t : Nat) (c : N) (l : List E) (m : N) (s : Nat) :
    (m = n ∧ s = t) ∧ (H.castVote n t c l).vote m s = some c ∧
        (H.castVote n t c l).vlog m s = some l ∨
      (H.castVote n t c l).vote m s = H.vote m s ∧ (H.castVote n t c l).vlog m s = H.vlog m s := by
  by_cases hms : m = n ∧ s = t <;> simp [castVote, hms]

/-- A first vote in a term continues the history. -/
theorem Sound.castVote {n : N} (c : N)
    (hnew : H.vote n (term n) = none) :
    (H.castVote n (term n) c (log n)).Sound termOf term log := by
  have hle : H.Le (H.castVote n (term n) c (log n)) := le_castVote hnew
  have hvlog : ∀ {m s x}, (H.castVote n (term n) c (log n)).vlog m s = some x →
      H.vlog m s = some x ∨ m = n ∧ s = term n ∧ x = log n := by
    intro m s x hx
    rcases H.castVote_cases n (term n) c (log n) m s with ⟨⟨hm, hs⟩, -, hl⟩ | ⟨-, hl⟩
    · exact .inr ⟨hm, hs, Option.some.inj (hx.symm.trans hl)⟩
    · exact .inl (hl.symm.trans hx)
  refine
    { hs with vote_le := ?_, vlog_vote := ?_, vlog_of_vote := ?_, late_led := ?_
              vlog_matched := ?_, won_votes := ?_, vlog_keeps := ?_ }
  · intro m s d hd
    rcases H.castVote_cases n (term n) c (log n) m s with ⟨⟨rfl, rfl⟩, -⟩ | ⟨hv, -⟩
    · rfl
    · exact hs.vote_le (hv.symm.trans hd)
  · intro m s x hx
    rcases hvlog hx with hx | ⟨rfl, rfl, -⟩
    · obtain ⟨d, hd⟩ := hs.vlog_vote hx
      exact ⟨d, hle.vote hd⟩
    · exact ⟨c, castVote_vote_self _ _ _ _⟩
  · intro m s d hd
    rcases H.castVote_cases n (term n) c (log n) m s with ⟨-, -, hl⟩ | ⟨hv, hl⟩
    · exact ⟨log n, hl⟩
    · rw [hl]
      exact hs.vlog_of_vote (hv.symm.trans hd)
  · rintro m s (⟨-, rfl, hled⟩ | hlate)
    · exact hled
    · exact hs.late_led hlate
  · intro m s x hx
    rcases hvlog hx with hx | ⟨-, -, rfl⟩
    · exact hs.vlog_matched hx
    · exact hs.log_matched n
  · intro s el hel m hm
    obtain ⟨hv, hlate, x, hx, hup⟩ := hs.won_votes hel m hm
    have hne : ¬ (m = n ∧ s = term n) := by
      rintro ⟨rfl, rfl⟩
      rw [hnew] at hv
      cases hv
    refine ⟨hle.vote hv, ?_, x, by simp [History.castVote, hne, hx], hup⟩
    rintro (⟨rfl, rfl, -⟩ | hl)
    · exact hne ⟨rfl, rfl⟩
    · exact hlate hl
  · intro m t k i T x ha hi hlt hx hbetween
    rcases hvlog hx with hx | ⟨rfl, rfl, rfl⟩
    · refine hs.vlog_keeps ha hi hlt hx fun t' ht ht' hled => ?_
      exact hbetween t' ht (ht'.imp id fun h => ⟨h.1, .inr h.2⟩) hled
    · refine hs.log_keeps ha hi fun t' ht ht' hled => ?_
      rcases Nat.lt_or_eq_of_le ht' with hlt' | rfl
      · exact hbetween t' ht (.inl hlt') hled
      · exact hbetween _ ht (.inr ⟨rfl, .inl ⟨rfl, rfl, hled⟩⟩) hled

end Vote

variable {t : Nat} {el : Election N E}

theorem le_elect (hnl : ¬ H.Led t) :
    H.Le (H.elect t el) where
  won := by
    intro s x hx
    have hne : s ≠ t := by
      rintro rfl
      exact hnl ⟨x, hx⟩
    simpa [elect, hne] using hx
  tlog := by
    intro s
    by_cases hst : s = t
    · subst hst
      rw [hs.tlog_led hnl]
      exact nil_prefix
    · simp [elect, hst]
  vote := id
  acked := id

omit hs in
theorem elect_won {s : Nat} {x : Election N E} (hx : (H.elect t el).won s = some x) :
    s = t ∧ x = el ∨ s ≠ t ∧ H.won s = some x := by
  by_cases hst : s = t
  · subst hst
    exact .inl ⟨rfl, Option.some.inj (hx.symm.trans (update_self ..))⟩
  · exact .inr ⟨hst, (update_of_ne hst ..).symm.trans hx⟩

/-- A first leader of a term continues the history. -/
theorem Sound.elect (hnl : ¬ H.Led t) (hpos : 0 < t)
    (hstart : Matched termOf H el.start) (hlt : ∀ e ∈ el.start, termOf e < t)
    (hvotes : ∀ n ∈ el.votes, H.vote n t = some el.leader ∧
      ∀ l, H.vlog n t = some l → UpToDate termOf el.start l) :
    (H.elect t el).Sound termOf term log := by
  have hle : H.Le (H.elect t el) := le_elect hs hnl
  have hold : ∀ {s}, s ≠ t → (H.elect t el).tlog s = H.tlog s := fun hst => update_of_ne hst ..
  have hnew : (H.elect t el).tlog t = el.start := update_self ..
  have hne_of_led : ∀ {s}, H.Led s → s ≠ t := by
    rintro s hled rfl
    exact hnl hled
  refine
    { hs with
      led_pos := ?_, tlog_led := ?_, tlog_matched := ?_, tlog_le := ?_
      log_matched := fun n => (hs.log_matched n).mono hle
      late_led := fun hl => hle.led (hs.late_led hl)
      vlog_matched := fun hl => (hs.vlog_matched hl).mono hle, won_start := ?_, won_votes := ?_
      acked_bound := ?_, log_keeps := ?_, vlog_keeps := ?_ }
  · rintro s ⟨x, hx⟩
    rcases elect_won hx with ⟨rfl, -⟩ | ⟨-, hx⟩
    · exact hpos
    · exact hs.led_pos ⟨x, hx⟩
  · intro s hs'
    have hst : s ≠ t := by
      rintro rfl
      exact hs' ⟨el, by simp [History.elect]⟩
    rw [hold hst]
    exact hs.tlog_led fun hled => hs' (hle.led hled)
  · exact (forall_update_iff _ fun _ l => Matched termOf _ l).2
      ⟨hstart.mono hle, fun s _ => (hs.tlog_matched s).mono hle⟩
  · exact fun {s e} => (forall_update_iff _ fun s l => ∀ e ∈ l, termOf e ≤ s).2
      ⟨fun e he => (hlt e he).le, fun _ _ _ => hs.tlog_le⟩ s e
  · intro s x hx
    rcases elect_won hx with ⟨rfl, rfl⟩ | ⟨hst, hx⟩
    · exact ⟨by rw [hnew], hlt⟩
    · rw [hold hst]
      exact hs.won_start hx
  · intro s x hx n hn
    rcases elect_won hx with ⟨rfl, rfl⟩ | ⟨hst, hx⟩
    · obtain ⟨hv, hup⟩ := hvotes n hn
      obtain ⟨l, hl⟩ := hs.vlog_of_vote hv
      exact ⟨hv, fun hlate => hnl (hs.late_led hlate), l, hl, hup l hl⟩
    · exact hs.won_votes hx n hn
  · intro n s k ha
    obtain ⟨hled, hterm, hk⟩ := hs.acked_bound ha
    refine ⟨hle.led hled, hterm, ?_⟩
    rwa [hold (hne_of_led hled)]
  · intro n s k i ha hi hbetween
    rw [hold (hne_of_led (hs.acked_bound ha).1)] at hbetween ⊢
    refine hs.log_keeps ha hi fun t' ht ht' hled => ?_
    have hcarry := hbetween t' ht ht' (hle.led hled)
    rwa [hold (hne_of_led hled)] at hcarry
  · intro n s k i T l ha hi hsT hl hbetween
    rw [hold (hne_of_led (hs.acked_bound ha).1)] at hbetween ⊢
    refine hs.vlog_keeps ha hi hsT hl fun t' ht ht' hled => ?_
    have hcarry := hbetween t' ht ht' (hle.led hled)
    rwa [hold (hne_of_led hled)] at hcarry

omit hs in
theorem le_extend (t : Nat) (e : E) : H.Le (H.extend t e) where
  won := id
  tlog := by
    intro s
    by_cases hst : s = t
    · subst hst
      simp [extend]
    · simp [extend, hst]
  vote := id
  acked := id

variable {i : Nat}

theorem Sound.carried_of_extend {s t' : Nat} (he : termOf e = t)
    (hst : s < t') (hc : (H.tlog s).take i <+: (H.extend t e).tlog t') :
    (H.tlog s).take i <+: H.tlog t' := by
  by_cases ht : t' = t
  · subst ht
    simp only [History.extend, update_self] at hc
    rcases prefix_concat_iff.mp hc with heq | hc
    · have hmem : e ∈ H.tlog s := by
        refine mem_of_mem_take (i := i) ?_
        rw [heq]
        simp
      have hle := hs.tlog_le hmem
      omega
    · exact hc
  · simpa [History.extend, ht] using hc

/-- An entry of a leader continues the history. -/
theorem Sound.extend (hled : H.Led t) (he : termOf e = t) :
    (H.extend t e).Sound termOf term log := by
  have hle : H.Le (H.extend t e) := le_extend t e
  have hnew : (H.extend t e).tlog t = H.tlog t ++ [e] := update_self ..
  refine
    { hs with
      tlog_led := ?_, tlog_matched := ?_, tlog_le := ?_
      log_matched := fun n => (hs.log_matched n).mono hle
      vlog_matched := fun hl => (hs.vlog_matched hl).mono hle, won_start := ?_
      acked_bound := ?_, log_keeps := ?_, vlog_keeps := ?_ }
  · intro s hs'
    have hst : s ≠ t := by
      rintro rfl
      exact hs' (hle.led hled)
    exact (update_of_ne hst ..).trans (hs.tlog_led hs')
  · subst he
    exact (forall_update_iff _ fun _ l => Matched termOf _ l).2
      ⟨((hs.tlog_matched _).mono hle).snoc (hle.led hled) (by rw [hnew]),
        fun s _ => (hs.tlog_matched s).mono hle⟩
  · refine fun {s x} => (forall_update_iff _ fun s l => ∀ x ∈ l, termOf x ≤ s).2
      ⟨fun x hx => ?_, fun _ _ _ => hs.tlog_le⟩ s x
    rcases mem_append.1 hx with hx | hx
    · exact hs.tlog_le hx
    · rw [mem_singleton.1 hx, he]
  · intro s el hel
    obtain ⟨hstart, hlt⟩ := hs.won_start hel
    exact ⟨hstart.trans (hle.tlog s), hlt⟩
  · intro n s k ha
    obtain ⟨hl, hterm, hk⟩ := hs.acked_bound ha
    exact ⟨hle.led hl, hterm, hk.trans (hle.tlog s).length_le⟩
  · intro n s k i ha hi hbetween
    rw [hle.take_tlog (hi.trans (hs.acked_bound ha).2.2)] at hbetween ⊢
    refine hs.log_keeps ha hi fun t' ht ht' hl => ?_
    exact hs.carried_of_extend he ht (hbetween t' ht ht' (hle.led hl))
  · intro n s k i T l ha hi hsT hl hbetween
    rw [hle.take_tlog (hi.trans (hs.acked_bound ha).2.2)] at hbetween ⊢
    refine hs.vlog_keeps ha hi hsT hl fun t' ht ht' hl => ?_
    exact hs.carried_of_extend he ht (hbetween t' ht ht' (hle.led hl))

variable {n : N}

theorem Sound.setLog [DecidableEq N] (hmatched : Matched termOf H l)
    (hlog_le : ∀ e ∈ l, termOf e ≤ term n)
    (hkeep : ∀ p, p <+: H.tlog (term n) → p <+: log n → p <+: l) (hled : H.Led (term n)) :
    H.Sound termOf term (update log n l) := by
  refine { hs with log_matched := ?_, log_le := ?_, log_keeps := ?_ }
  · exact (forall_update_iff _ fun _ l => Matched termOf H l).2
      ⟨hmatched, fun m _ => hs.log_matched m⟩
  · exact fun {m e} => (forall_update_iff _ fun m l => ∀ e ∈ l, termOf e ≤ term m).2
      ⟨hlog_le, fun _ _ _ => hs.log_le⟩ m e
  · intro m t k i ha hi hbetween
    by_cases hmn : m = n
    · subst hmn
      rw [update_self]
      refine hkeep _ ?_ (hs.log_keeps ha hi hbetween)
      rcases Nat.lt_or_ge t (term m) with hlt | hge
      · exact hbetween _ hlt le_rfl hled
      · rw [le_antisymm (hs.acked_bound ha).2.1 hge]
        exact take_prefix _ _
    · rw [update_of_ne hmn]
      exact hs.log_keeps ha hi hbetween

omit hs in
theorem le_acknowledge (n : N) (t k : Nat) : H.Le (H.acknowledge n t k) where
  won := id
  tlog := fun _ => prefix_rfl
  vote := id
  acked := .inr

variable {k : Nat}

theorem Sound.acknowledge (hled : H.Led (term n))
    (hk : k ≤ (H.tlog (term n)).length) (hlog : (H.tlog (term n)).take k <+: log n) :
    (H.acknowledge n (term n) k).Sound termOf term log := by
  refine { hs with acked_bound := ?_, log_keeps := ?_, vlog_keeps := ?_ }
  · rintro m t j (⟨rfl, rfl, rfl⟩ | ha)
    · exact ⟨hled, le_rfl, hk⟩
    · exact hs.acked_bound ha
  · rintro m t j i (⟨rfl, rfl, rfl⟩ | ha) hi hbetween
    · exact (take_prefix_take_left hi).trans hlog
    · exact hs.log_keeps ha hi hbetween
  · rintro m t j i T l (⟨rfl, rfl, rfl⟩ | ha) hi hlt hl hbetween
    · obtain ⟨c, hc⟩ := hs.vlog_vote hl
      have hle := hs.vote_le hc
      omega
    · exact hs.vlog_keeps ha hi hlt hl hbetween

/-! ### Leader completeness, one election at a time -/

variable {T : Nat}

/-- A candidate log that a voter found no worse than its own holds the prefix, when all leaders
between do. -/
theorem Sound.carried_of_upToDate {c : List E} (hpos : 0 < t)
    (hlast : lastTerm termOf ((H.tlog t).take i) = t) (hvoter : (H.tlog t).take i <+: l)
    (hl : Matched termOf H l) (hmatched : Matched termOf H c) (hterms : ∀ e ∈ c, termOf e < T)
    (hup : UpToDate termOf c l)
    (hbetween : ∀ t', t < t' → t' < T → H.Led t' → (H.tlog t).take i <+: H.tlog t') :
    (H.tlog t).take i <+: c := by
  -- the voter's log ends in a term of at least `t`, and so does the candidate's
  have htl : t ≤ lastTerm termOf l := by
    rcases eq_nil_or_lastTerm termOf ((H.tlog t).take i) with hnil | ⟨p, e, hpe, he⟩
    · rw [hnil] at hlast
      simp only [lastTerm, getLast?_nil, Option.elim_none] at hlast
      omega
    · have hmem : e ∈ l := hvoter.subset (by rw [hpe]; simp)
      have hle := hs.tlog_le (hl.prefix_tlog.subset hmem)
      omega
  have htc : t ≤ lastTerm termOf c := by
    rcases hup with h | ⟨h, -⟩ <;> omega
  rcases eq_nil_or_lastTerm termOf c with rfl | ⟨p, x, rfl, hx⟩
  · simp only [lastTerm, getLast?_nil, Option.elim_none] at htc
    omega
  · rw [hx] at htc
    obtain ⟨hledx, hpre⟩ := hmatched p x prefix_rfl
    have hxT : termOf x < T := hterms x (by simp)
    rcases Nat.lt_or_ge t (termOf x) with hgt | hge
    · -- the candidate's last leader already holds the prefix
      have hcarry := hbetween (termOf x) hgt hxT hledx
      rcases prefix_or_prefix_of_prefix hcarry hpre with hdone | hback
      · exact hdone
      · have hmem : x ∈ H.tlog t := mem_of_mem_take (hback.subset (by simp))
        have hle := hs.tlog_le hmem
        omega
    · -- both logs end in term `t` and the candidate's is the longer one
      have hxt : termOf x = t := by omega
      have hlen : l.length ≤ (p ++ [x]).length := by
        rcases hup with h | ⟨-, h⟩
        · omega
        · exact h
      rw [hxt] at hpre
      refine prefix_of_prefix_length_le (List.take_prefix _ _) hpre ?_
      exact hvoter.length_le.trans hlen

/-- **A prefix acknowledged in term `t` reaches the candidate of a later term `T`**, when the voter
found the candidate's log no worse and all leaders between hold the prefix. -/
theorem Sound.carried_of_meet {c : List E} (hack : H.acked n t k)
    (hi : i ≤ k) (hlast : lastTerm termOf ((H.tlog t).take i) = t) (hlt : t < T)
    (hvlog : H.vlog n T = some l) (hmatched : Matched termOf H c) (hterms : ∀ e ∈ c, termOf e < T)
    (hup : UpToDate termOf c l)
    (hbetween : ∀ t', t < t' → t' < T ∨ t' = T ∧ H.late n T → H.Led t' →
      (H.tlog t).take i <+: H.tlog t') :
    (H.tlog t).take i <+: c := by
  have hpos : 0 < t := hs.led_pos (hs.acked_bound hack).1
  have hvoter : (H.tlog t).take i <+: l := hs.vlog_keeps hack hi hlt hvlog hbetween
  apply hs.carried_of_upToDate hpos hlast hvoter (hs.vlog_matched hvlog) hmatched hterms hup
  intro t' ht ht' hled
  exact hbetween t' ht (.inl ht') hled

end

end History

end Sound

end BicDb.Foundation
