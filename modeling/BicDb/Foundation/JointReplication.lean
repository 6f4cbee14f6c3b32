import BicDb.Foundation.JointQuorum

/-!
# Replicas under joint quorums

The abstract protocol: replicas with a whole log, settled up to `commit`, raise terms, stand, vote,
win, write, follow, acknowledge and commit. Each event keeps `Consistent`. An implementation is
verified by giving the events each of its calls consists of.
-/

namespace BicDb.Foundation

open Function List History

universe u v

/-- The role of a replica in its term. -/
inductive Role where
  | follower
  | candidate
  | leader
  deriving DecidableEq

/-- Term, vote, role, whole log, and how far it is settled. -/
structure Replica (N : Type u) (E : Type v) where
  term : Nat
  voted : Option N
  role : Role
  log : List E
  commit : Nat

section Invariant

variable {N : Type u} {E : Type v} [DecidableEq N] (R : Rules N E)

/-- What holds of the replica `n`. -/
structure Replica.Ok (H : History N E) (n : N) (r : Replica N E) : Prop where
  voted : H.vote n r.term = r.voted
  candidate : r.role = .candidate → r.voted = some n ∧ 0 < r.term ∧ ∀ e ∈ r.log, R.termOf e < r.term
  standing : r.role = .leader → r.voted = some n
  elected : r.role = .leader → ∃ el, H.won r.term = some el ∧ el.leader = n
  leads : r.role = .leader → r.log = H.tlog r.term
  commit_le : r.commit ≤ r.log.length
  settled : R.Settled H (r.log.take r.commit)
  single : R.changeCount (r.log.drop r.commit) ≤ 1

/-- The replicas `a` are explained by the history `H`. -/
structure Consistent (H : History N E) (a : N → Replica N E) : Prop where
  sound : H.Sound R.termOf (fun n => (a n).term) (fun n => (a n).log)
  wellFormed : ∀ t, R.WellFormed (H.tlog t)
  elections : R.Elections H
  node : ∀ n, (a n).Ok R H n
  retired : ∀ {t el}, H.won t = some el →
    t ≤ (a el.leader).term ∧ ((a el.leader).term = t → (a el.leader).role ≠ .candidate)
  voteTerm : ∀ {n t k}, H.vote n t = some k → t ≤ (a k).term
  ballots : ∀ {n t k l}, H.vote n t = some k → H.vlog n t = some l →
    (a k).role = .candidate → (a k).term = t → UpToDate R.termOf (a k).log l

/-- Terms only grow, and a candidate of a term stays the one it was. -/
structure Evolves (a a' : N → Replica N E) : Prop where
  term : ∀ k, (a k).term ≤ (a' k).term
  candidate : ∀ k, (a' k).role = .candidate → (a' k).term = (a k).term →
    (a k).role = .candidate ∧ (a' k).log = (a k).log

variable {R} {H H' : History N E} {a a' a'' : N → Replica N E} {n : N} {r : Replica N E}

omit [DecidableEq N] in
theorem Evolves.refl (a : N → Replica N E) : Evolves a a :=
  ⟨fun _ => le_rfl, fun _ hc _ => ⟨hc, rfl⟩⟩

omit [DecidableEq N] in
theorem Evolves.trans (h : Evolves a a') (h' : Evolves a' a'') : Evolves a a'' := by
  refine ⟨fun k => (h.term k).trans (h'.term k), fun k hc ht => ?_⟩
  have hle := h.term k
  have hle' := h'.term k
  obtain ⟨hc', hlog'⟩ := h'.candidate k hc (by omega)
  obtain ⟨hc'', hlog''⟩ := h.candidate k hc' (by omega)
  exact ⟨hc'', hlog'.trans hlog''⟩

theorem evolves_update (hterm : (a n).term ≤ r.term)
    (hcand : r.role = .candidate → r.term = (a n).term →
      (a n).role = .candidate ∧ r.log = (a n).log) :
    Evolves a (update a n r) where
  term := (forall_update_iff a fun k r => (a k).term ≤ r.term).2 ⟨hterm, fun _ _ => le_rfl⟩
  candidate := (forall_update_iff a fun k r => r.role = .candidate → r.term = (a k).term →
    (a k).role = .candidate ∧ r.log = (a k).log).2 ⟨hcand, fun _ _ hc _ => ⟨hc, rfl⟩⟩

theorem term_update (a : N → Replica N E) (n : N) (r : Replica N E) :
    (fun m => (update a n r m).term) = update (fun m => (a m).term) n r.term :=
  comp_update Replica.term a n r

theorem log_update (a : N → Replica N E) (n : N) (r : Replica N E) :
    (fun m => (update a n r m).log) = update (fun m => (a m).log) n r.log :=
  comp_update Replica.log a n r

theorem Replica.Ok.frame (hle : H.Le H') (h : r.Ok R H n)
    (hvote : H'.vote n r.term = H.vote n r.term)
    (htlog : r.role = .leader → H'.tlog r.term = H.tlog r.term) : r.Ok R H' n where
  voted := hvote.trans h.voted
  candidate := h.candidate
  standing := h.standing
  elected := by
    intro hrole
    obtain ⟨el, hwon, hel⟩ := h.elected hrole
    exact ⟨el, hle.won hwon, hel⟩
  leads := fun hrole => (h.leads hrole).trans (htlog hrole).symm
  commit_le := h.commit_le
  settled := h.settled.mono hle
  single := h.single

variable {T : Nat}

theorem Consistent.vote_none (h : Consistent R H a) (hT : (a n).term < T) :
    H.vote n T = none := by
  cases hv : H.vote n T with
  | none => rfl
  | some k =>
    have hle := h.sound.vote_le hv
    omega

section Evolves

variable (h : Consistent R H a) (hev : Evolves a a')

include h hev

theorem Consistent.retired_evolves {t : Nat} {el : Election N E} (hel : H.won t = some el) :
    t ≤ (a' el.leader).term ∧ ((a' el.leader).term = t → (a' el.leader).role ≠ .candidate) := by
  obtain ⟨hreached, hrole⟩ := h.retired hel
  refine ⟨hreached.trans (hev.term _), fun ht hc => ?_⟩
  have hle := hev.term el.leader
  exact hrole (by omega) (hev.candidate _ hc (by omega)).1

theorem Consistent.ballots_evolves {m k : N} {t : Nat} {l : List E} (hv : H.vote m t = some k)
    (hl : H.vlog m t = some l) (hc : (a' k).role = .candidate) (ht : (a' k).term = t) :
    UpToDate R.termOf (a' k).log l := by
  have hreached := h.voteTerm hv
  have hle := hev.term k
  obtain ⟨hc', hlog⟩ := hev.candidate k hc (by omega)
  rw [hlog]
  exact h.ballots hv hl hc' (by omega)

end Evolves

theorem Consistent.quiet (h : Consistent R H a) (hle : H.Le H') (hwon : H'.won = H.won)
    (hvote : H'.vote = H.vote) (hvlog : H'.vlog = H.vlog)
    (hsound : H'.Sound R.termOf (fun m => (update a n r m).term) (fun m => (update a n r m).log))
    (hwf : ∀ t, R.WellFormed (H'.tlog t)) (hnode : r.Ok R H' n)
    (hother : ∀ m, m ≠ n → (a m).role = .leader → H'.tlog (a m).term = H.tlog (a m).term)
    (hev : Evolves a (update a n r)) : Consistent R H' (update a n r) where
  sound := hsound
  wellFormed := hwf
  elections := by
    intro t el hel
    rw [hwon] at hel
    obtain ⟨b, hcontest⟩ := h.elections hel
    exact ⟨b, hcontest.mono hle fun hl => by rw [hvlog]; exact hl⟩
  node := (forall_update_iff a fun m r => r.Ok R H' m).2
    ⟨hnode, fun m hm => (h.node m).frame hle (by rw [hvote]) (hother m hm)⟩
  retired := by
    rw [hwon]
    exact h.retired_evolves hev
  voteTerm := by
    rw [hvote]
    exact fun hv => (h.voteTerm hv).trans (hev.term _)
  ballots := by
    rw [hvote, hvlog]
    exact h.ballots_evolves hev

/-! ## Terms and votes -/

/-- A replica follows the leader or candidate of a term. -/
def Replica.adopt (r : Replica N E) (T : Nat) : Replica N E :=
  { r with term := T, voted := if r.term < T then none else r.voted, role := .follower }

theorem Consistent.sound_raise (h : Consistent R H a) (hterm : (a n).term ≤ r.term)
    (hlog : r.log = (a n).log) :
    H.Sound R.termOf (fun m => (update a n r m).term) (fun m => (update a n r m).log) := by
  rw [log_update, hlog, update_eq_self_iff.mpr rfl]
  apply h.sound.raiseTerm
  exact (forall_update_iff a fun m r => (a m).term ≤ r.term).2 ⟨hterm, fun _ _ => le_rfl⟩

theorem evolves_adopt (hT : (a n).term ≤ T) : Evolves a (update a n ((a n).adopt T)) :=
  evolves_update hT nofun

theorem Consistent.adopt (h : Consistent R H a) (hT : (a n).term ≤ T) :
    Consistent R H (update a n ((a n).adopt T)) := by
  have hnode := h.node n
  refine h.quiet (.refl H) rfl rfl rfl (h.sound_raise hT rfl) h.wellFormed ?_
    (fun _ _ _ => rfl) (evolves_adopt hT)
  refine { hnode with voted := ?_, candidate := ?_, standing := ?_, elected := ?_, leads := ?_ }
  · show H.vote n T = if (a n).term < T then none else (a n).voted
    split
    · next hlt => exact h.vote_none hlt
    next hnot =>
      have heq : T = (a n).term := by omega
      rw [heq]
      exact hnode.voted
  all_goals exact nofun

/-- Replica `n`, as `r`, votes for `k`; a candidate's term is new to it. -/
theorem Consistent.castVote (h : Consistent R H a) {k : N} (hterm : (a n).term ≤ r.term)
    (hnone : H.vote n r.term = none) (hlog : r.log = (a n).log)
    (hnode : r.Ok R (H.castVote n r.term k r.log) n)
    (hev : Evolves a (update a n r)) (hk : r.term ≤ (update a n r k).term)
    (hup : (update a n r k).role = .candidate → (update a n r k).term = r.term →
      UpToDate R.termOf (update a n r k).log r.log) :
    Consistent R (H.castVote n r.term k r.log) (update a n r) := by
  have hle : H.Le (H.castVote n r.term k r.log) := le_castVote hnone
  have hvlog : ∀ {m t l}, H.vlog m t = some l →
      (H.castVote n r.term k r.log).vlog m t = some l := by
    intro m t l hl
    rcases H.castVote_cases n r.term k r.log m t with ⟨⟨rfl, rfl⟩, -⟩ | ⟨-, heq⟩
    · obtain ⟨c, hc⟩ := h.sound.vlog_vote hl
      cases hnone.symm.trans hc
    · exact heq.trans hl
  have hraise := h.sound_raise hterm hlog
  have hvoted := hraise.castVote (n := n) k
  rw [update_self] at hvoted
  refine
    { sound := hvoted hnone, wellFormed := h.wellFormed, elections := ?_, node := ?_
      retired := ?_, voteTerm := ?_, ballots := ?_ }
  · intro t el hel
    obtain ⟨b, hcontest⟩ := h.elections hel
    exact ⟨b, hcontest.mono hle hvlog⟩
  · refine (forall_update_iff a fun m r' => r'.Ok R (H.castVote n r.term k r.log) m).2
      ⟨hnode, fun m hm => ?_⟩
    exact (h.node m).frame hle (by simp [History.castVote, hm]) fun _ => rfl
  · exact h.retired_evolves hev
  · intro m t j hv
    rcases H.castVote_cases n r.term k r.log m t with ⟨⟨rfl, rfl⟩, heq, -⟩ | ⟨heq, -⟩
    · cases heq.symm.trans hv
      exact hk
    · exact (h.voteTerm (heq.symm.trans hv)).trans (hev.term j)
  · intro m t j l hv hl hc ht
    rcases H.castVote_cases n r.term k r.log m t with ⟨⟨rfl, rfl⟩, heq, heql⟩ | ⟨heq, heql⟩
    · cases heq.symm.trans hv
      cases heql.symm.trans hl
      exact hup hc ht
    · exact h.ballots_evolves hev (heq.symm.trans hv) (heql.symm.trans hl) hc ht

/-- A replica stands for election in a new term. -/
def Replica.stand (r : Replica N E) (n : N) : Replica N E :=
  { r with term := r.term + 1, voted := some n, role := .candidate }

theorem evolves_stand : Evolves a (update a n ((a n).stand n)) :=
  evolves_update (Nat.le_succ _) fun _ ht => absurd ht (Nat.succ_ne_self _)

theorem Consistent.stand (h : Consistent R H a) :
    Consistent R (H.castVote n ((a n).term + 1) n (a n).log) (update a n ((a n).stand n)) := by
  have hnode := h.node n
  have hnone : H.vote n ((a n).term + 1) = none := h.vote_none (Nat.lt_succ_self _)
  have hle := le_castVote (c := n) (l := (a n).log) hnone
  refine h.castVote (r := (a n).stand n) (Nat.le_succ _) hnone rfl ?_ evolves_stand ?_ ?_
  · exact
      { voted := castVote_vote_self _ _ _ _
        candidate := fun _ => ⟨rfl, Nat.succ_pos _, fun e he =>
          Nat.lt_succ_of_le (h.sound.log_le he)⟩
        standing := nofun
        elected := nofun
        leads := nofun
        commit_le := hnode.commit_le
        settled := hnode.settled.mono hle
        single := hnode.single }
  · simp
  · intro _ _
    rw [update_self]
    exact .inr ⟨rfl, le_rfl⟩

theorem Consistent.not_leader (h : Consistent R H a) (hfree : (a n).voted = none) :
    (a n).role ≠ .leader := by
  intro hl
  cases hfree.symm.trans ((h.node n).standing hl)

/-- A replica that has not voted in its term votes for `k`. -/
def Replica.vote (r : Replica N E) (k : N) : Replica N E := { r with voted := some k }

theorem evolves_vote (k : N) : Evolves a (update a n ((a n).vote k)) :=
  evolves_update le_rfl fun hc _ => ⟨hc, rfl⟩

/-- A vote keeps the replicas consistent. -/
theorem Consistent.vote (h : Consistent R H a) {k : N} (hfree : (a n).voted = none)
    (hk : (a n).term ≤ (a k).term)
    (hup : (a k).role = .candidate → (a k).term = (a n).term →
      UpToDate R.termOf (a k).log (a n).log) :
    Consistent R (H.castVote n (a n).term k (a n).log) (update a n ((a n).vote k)) := by
  have hnode := h.node n
  have hnone : H.vote n (a n).term = none := hnode.voted.trans hfree
  have hle := le_castVote (c := k) (l := (a n).log) hnone
  have hnc : (a n).role ≠ .candidate := by
    intro hc
    cases hfree.symm.trans (hnode.candidate hc).1
  have hnl : (a n).role ≠ .leader := h.not_leader hfree
  -- the update changes neither the terms, the roles nor the logs
  have hsame : ∀ m, (update a n ((a n).vote k) m).term = (a m).term ∧
      (update a n ((a n).vote k) m).role = (a m).role ∧
      (update a n ((a n).vote k) m).log = (a m).log :=
    (forall_update_iff a fun m r => r.term = (a m).term ∧ r.role = (a m).role ∧
      r.log = (a m).log).2 ⟨⟨rfl, rfl, rfl⟩, fun _ _ => ⟨rfl, rfl, rfl⟩⟩
  refine h.castVote (r := (a n).vote k) le_rfl hnone rfl ?_ (evolves_vote k) ?_ ?_
  · exact
      { voted := castVote_vote_self _ _ _ _
        candidate := fun hc => absurd hc hnc
        standing := fun hl => absurd hl hnl
        elected := hnode.elected
        leads := hnode.leads
        commit_le := hnode.commit_le
        settled := hnode.settled.mono hle
        single := hnode.single }
  · rwa [(hsame k).1]
  · intro hc ht
    rw [(hsame k).2.1] at hc
    rw [(hsame k).1] at ht
    rw [(hsame k).2.2]
    exact hup hc ht

/-! ## Winning and writing -/

variable {Q : Finset N}

/-- A candidate becomes the leader of its term. -/
def Replica.lead (r : Replica N E) : Replica N E := { r with role := .leader }

theorem evolves_lead : Evolves a (update a n (a n).lead) :=
  evolves_update le_rfl nofun

section Winning

variable (h : Consistent R H a) (hrole : (a n).role = .candidate)
    (hvotes : ∀ v ∈ Q, H.vote v (a n).term = some n)
    (hquorum : HasQuorum Q (R.votersAt ((a n).log.take (a n).commit)))

include h hrole hvotes hquorum

theorem Consistent.contest : R.Contest H (a n).term (a n).log (a n).commit Q := by
  have hnode := h.node n
  obtain ⟨-, hpos, hterms⟩ := hnode.candidate hrole
  refine
    { pos := hpos, matched := h.sound.log_matched n, terms := hterms, le := hnode.commit_le
      settled := hnode.settled, single := hnode.single, quorum := hquorum, votes := ?_ }
  intro v hv
  obtain ⟨l, hl⟩ := h.sound.vlog_of_vote (hvotes v hv)
  exact ⟨l, hl, h.ballots (hvotes v hv) hl hrole rfl⟩

/-- **A candidate with a quorum is the first to win its term.** -/
theorem Consistent.not_led : ¬ H.Led (a n).term := by
  rintro ⟨el, hwon⟩
  obtain ⟨b, htheirs⟩ := h.elections hwon
  obtain ⟨v, hv, hv'⟩ := (h.contest hrole hvotes hquorum).common_voter h.sound h.wellFormed
    h.elections htheirs
  -- the common voter has one vote, so the earlier winner is `n` itself, no longer a candidate
  have hsame := (h.sound.won_votes hwon v hv').1
  rw [hvotes v hv, Option.some.injEq] at hsame
  obtain ⟨-, hret⟩ := h.retired hwon
  rw [← hsame] at hret
  exact hret rfl hrole

/-- A win keeps the replicas consistent. -/
theorem Consistent.lead :
    Consistent R (H.elect (a n).term ⟨n, (a n).log, Q⟩) (update a n (a n).lead) := by
  have hnode := h.node n
  obtain ⟨-, hpos, hterms⟩ := hnode.candidate hrole
  have hnl := h.not_led hrole hvotes hquorum
  have hcontest := h.contest hrole hvotes hquorum
  let el : Election N E := ⟨n, (a n).log, Q⟩
  have hle : H.Le (H.elect (a n).term el) := le_elect h.sound hnl
  have hsound : (H.elect (a n).term el).Sound R.termOf (fun m => (a m).term)
      (fun m => (a m).log) := by
    apply h.sound.elect hnl hpos (h.sound.log_matched n) hterms
    intro v hv
    exact ⟨hvotes v hv, fun l hl => h.ballots (hvotes v hv) hl hrole rfl⟩
  have hev : Evolves a (update a n (a n).lead) := evolves_lead
  refine
    { sound := ?_, wellFormed := ?_, elections := ?_, node := ?_, retired := ?_, voteTerm := ?_
      ballots := ?_ }
  · rw [term_update, log_update]
    simp only [Replica.lead, update_eq_self]
    exact hsound
  · exact (forall_update_iff H.tlog fun _ l => R.WellFormed l).2
      ⟨Rules.wellFormed_of_matched h.wellFormed (h.sound.log_matched n), fun t _ => h.wellFormed t⟩
  · intro t x hx
    rcases elect_won hx with ⟨rfl, rfl⟩ | ⟨-, hx⟩
    · exact ⟨_, hcontest.mono hle id⟩
    · obtain ⟨b, hb⟩ := h.elections hx
      exact ⟨b, hb.mono hle id⟩
  · refine (forall_update_iff a fun m r => r.Ok R (H.elect (a n).term el) m).2 ⟨?_, ?_⟩
    · exact
        { voted := hnode.voted
          candidate := nofun
          standing := fun _ => (hnode.candidate hrole).1
          elected := fun _ => ⟨el, update_self .., rfl⟩
          leads := fun _ => (update_self (a n).term (a n).log H.tlog).symm
          commit_le := hnode.commit_le
          settled := hnode.settled.mono hle
          single := hnode.single }
    · intro m _
      refine (h.node m).frame hle rfl fun hm => update_of_ne (fun ht => hnl ?_) ..
      obtain ⟨x, hx, -⟩ := (h.node m).elected hm
      rw [ht] at hx
      exact ⟨x, hx⟩
  · intro t x hx
    rcases elect_won hx with ⟨rfl, rfl⟩ | ⟨-, hx⟩
    · rw [update_self]
      exact ⟨le_rfl, nofun⟩
    · exact h.retired_evolves hev hx
  · exact fun hv => (h.voteTerm hv).trans (hev.term _)
  · exact h.ballots_evolves hev

end Winning

/-- A leader writes the entry `e`. -/
def Replica.write (r : Replica N E) (e : E) : Replica N E := { r with log := r.log ++ [e] }

theorem evolves_write (hrole : (a n).role = .leader) (e : E) :
    Evolves a (update a n ((a n).write e)) :=
  evolves_update le_rfl fun hc _ => nomatch hrole.symm.trans hc

/-- An entry of the leader keeps the replicas consistent. -/
theorem Consistent.write (h : Consistent R H a) (hrole : (a n).role = .leader) {e : E}
    (hterm : R.termOf e = (a n).term) (hwf : R.WellFormed ((a n).log ++ [e]))
    (hsingle : R.changeCount (((a n).log ++ [e]).drop (a n).commit) ≤ 1) :
    Consistent R (H.extend (a n).term e) (update a n ((a n).write e)) := by
  have hnode := h.node n
  obtain ⟨el, hwon, hel⟩ := hnode.elected hrole
  have hleads := hnode.leads hrole
  have hle := le_extend (H := H) (a n).term e
  have hnew : (H.extend (a n).term e).tlog (a n).term = (a n).log ++ [e] := by
    simp [History.extend, hleads]
  have hsound := h.sound.extend ⟨el, hwon⟩ hterm
  refine h.quiet hle rfl rfl rfl ?_ ?_ ?_ ?_ (evolves_write hrole e)
  · rw [term_update, log_update]
    simp only [Replica.write, update_eq_self]
    refine hsound.setLog ?_ ?_ (fun p _ hp => hp.trans (prefix_append _ _)) ⟨el, hwon⟩
    · rw [← hnew]
      exact hsound.tlog_matched _
    · rw [← hnew]
      exact fun x hx => hsound.tlog_le hx
  · rw [hleads] at hwf
    exact (forall_update_iff H.tlog fun _ l => R.WellFormed l).2 ⟨hwf, fun t _ => h.wellFormed t⟩
  · refine
      { voted := hnode.voted
        candidate := fun hc => by cases hrole.symm.trans hc
        standing := hnode.standing
        elected := fun _ => ⟨el, hwon, hel⟩
        leads := fun _ => hnew.symm
        commit_le := ?_, settled := ?_, single := hsingle }
    · show (a n).commit ≤ ((a n).log ++ [e]).length
      rw [length_append]
      exact hnode.commit_le.trans (Nat.le_add_right _ _)
    · show R.Settled _ (((a n).log ++ [e]).take (a n).commit)
      rw [take_append_of_le_length hnode.commit_le]
      exact hnode.settled.mono hle
  · intro m hmn hm
    refine update_of_ne (fun ht => hmn ?_) ..
    -- a term has one leader
    obtain ⟨el', hwon', rfl⟩ := (h.node m).elected hm
    rw [ht, hwon] at hwon'
    cases hwon'
    exact hel

/-! ## Following, acknowledging and committing -/

theorem Consistent.settled_le (h : Consistent R H a) {p : List E} (hp : R.Settled H p)
    (hled : H.Led T) (hle : lastTerm R.termOf p ≤ T) : p <+: H.tlog T := by
  obtain ⟨el, hwon⟩ := hled
  rcases Nat.lt_or_eq_of_le hle with hlt | heq
  · exact Rules.settled_carried h.sound h.wellFormed h.elections hwon hp hlt
  cases hp with
  | nil => exact nil_prefix
  | chosen hch _ =>
    rw [hch.last] at heq
    subst heq
    exact take_prefix _ _

/-- A follower takes over a log and a settled length. -/
def Replica.follow (r : Replica N E) (log : List E) (commit : Nat) : Replica N E :=
  { r with log := log, commit := commit }

theorem evolves_follow (hrole : (a n).role = .follower) (log : List E) (commit : Nat) :
    Evolves a (update a n ((a n).follow log commit)) :=
  evolves_update le_rfl fun hc _ => nomatch hrole.symm.trans hc

theorem Consistent.follow (h : Consistent R H a) (hled : H.Led (a n).term)
    (hrole : (a n).role = .follower) (new : List E) (commit : Nat)
    (hmatched : Matched R.termOf H new) (hterms : ∀ e ∈ new, R.termOf e ≤ (a n).term)
    (hkeeps : ∀ q, q <+: H.tlog (a n).term → q <+: (a n).log → q <+: new)
    (hcommit : commit ≤ new.length) (hsettled : R.Settled H (new.take commit))
    (hsingle : R.changeCount (new.drop commit) ≤ 1) :
    Consistent R H (update a n ((a n).follow new commit)) := by
  have hnode := h.node n
  refine h.quiet (.refl H) rfl rfl rfl ?_ h.wellFormed ?_ (fun _ _ _ => rfl)
    (evolves_follow hrole new commit)
  · rw [term_update, log_update]
    simp only [Replica.follow, update_eq_self]
    exact h.sound.setLog hmatched hterms hkeeps hled
  · exact
      { voted := hnode.voted
        candidate := fun hc => nomatch hrole.symm.trans hc
        standing := fun hc => nomatch hrole.symm.trans hc
        elected := fun hc => nomatch hrole.symm.trans hc
        leads := fun hc => nomatch hrole.symm.trans hc
        commit_le := hcommit
        settled := hsettled
        single := hsingle }

theorem Consistent.acknowledge (h : Consistent R H a) {k : Nat} (hled : H.Led (a n).term)
    (hk : k ≤ (H.tlog (a n).term).length) (hlog : (H.tlog (a n).term).take k <+: (a n).log) :
    Consistent R (H.acknowledge n (a n).term k) a := by
  have hle := le_acknowledge (H := H) n (a n).term k
  have hself : update a n (a n) = a := update_eq_self n a
  have hquiet := h.quiet (n := n) (r := a n) hle rfl rfl rfl
  rw [hself] at hquiet
  exact hquiet (h.sound.acknowledge hled hk hlog) h.wellFormed
    ((h.node n).frame hle rfl fun _ => rfl) (fun _ _ _ => rfl) (.refl a)

/-- A leader moves its settled length. -/
def Replica.commitTo (r : Replica N E) (commit : Nat) : Replica N E := { r with commit := commit }

theorem evolves_commitTo (commit : Nat) : Evolves a (update a n ((a n).commitTo commit)) :=
  evolves_update le_rfl fun hc _ => ⟨hc, rfl⟩

/-- A leader commits an entry of its term that both quorums have acknowledged. -/
theorem Consistent.commitTo (h : Consistent R H a) (hrole : (a n).role = .leader) {i : Nat}
    (hlt : (a n).commit < i) (hi : i ≤ (a n).log.length)
    (hlast : lastTerm R.termOf ((a n).log.take i) = (a n).term) {A : Finset N}
    (hack : ∀ v ∈ A, ∃ k, i ≤ k ∧ H.acked v (a n).term k)
    (hold : R.Accepts A (R.votersAt ((a n).log.take (a n).commit)))
    (hnew : R.Accepts A (R.votersAt ((a n).log.take i))) :
    Consistent R H (update a n ((a n).commitTo i)) := by
  have hnode := h.node n
  obtain ⟨el, hwon, -⟩ := hnode.elected hrole
  have hleads := hnode.leads hrole
  have hsingle : R.changeCount (((a n).log.take i).drop (a n).commit) ≤ 1 :=
    (Rules.changeCount_mono ((take_sublist _ _).drop _)).trans hnode.single
  have hchosen : R.Chosen H (a n).term i (a n).commit := by
    rw [hleads] at hlast hi hsingle hold hnew
    exact ⟨⟨el, hwon⟩, hi, hlt, hlast, hsingle, A, hack, hold, hnew⟩
  have hsettled : R.Settled H ((a n).log.take i) := by
    have hprev := hnode.settled
    rw [hleads] at hprev ⊢
    exact .chosen hchosen hprev
  refine h.quiet (.refl H) rfl rfl rfl ?_ h.wellFormed ?_ (fun _ _ _ => rfl) (evolves_commitTo i)
  · rw [term_update, log_update]
    simp only [Replica.commitTo, update_eq_self]
    exact h.sound
  · exact
      { hnode with
        commit_le := hi
        settled := hsettled
        single := (Rules.changeCount_mono (drop_sublist_drop_left _ hlt.le)).trans hnode.single }

end Invariant

end BicDb.Foundation
