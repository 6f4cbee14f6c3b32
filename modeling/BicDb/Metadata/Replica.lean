import BicDb.Foundation.JointReplication
import BicDb.Metadata.Cluster

/-!
# The abstraction behind a metadata store

A store keeps its log only from the commit index on; in the abstract it is a replica with the whole
log. `stateOf` is the source's state that a replica stands for: the base is the last entry cut off.
-/

namespace BicDb.Metadata

open BicDb.Foundation List

variable {ι ρ δ : Type*}

/-! ## Topologies and activations along a log -/

variable (boot : ClusterTopology ι ρ)

/-- The topology after a log. -/
def topologyAt (l : List (MetadataLogEntry ι ρ)) : ClusterTopology ι ρ :=
  (l.getLast?).elim boot (·.topology)

/-- The activation after one more entry. -/
def nextActivation (known : Option (MetadataRestoreActivation ι)) (e : MetadataLogEntry ι ρ) :
    Option (MetadataRestoreActivation ι) :=
  match e.restoreActivation with
  | some activation => some activation
  | none => known

/-- The activation after a log. -/
def lastActivation (l : List (MetadataLogEntry ι ρ)) : Option (MetadataRestoreActivation ι) :=
  l.foldl nextActivation none

/-- Only barriers keep the voters for certain. -/
def metadataRules : Rules ι (MetadataLogEntry ι ρ) where
  termOf := (·.term)
  changes := fun e => !e.leadershipBarrier
  votersAt := fun l => topologyVoters (topologyAt boot l)

@[simp] theorem topologyAt_concat (l : List (MetadataLogEntry ι ρ)) (e : MetadataLogEntry ι ρ) :
    topologyAt boot (l ++ [e]) = e.topology := by
  simp [topologyAt]

@[simp] theorem lastActivation_concat (l : List (MetadataLogEntry ι ρ)) (e : MetadataLogEntry ι ρ) :
    lastActivation (l ++ [e]) = nextActivation (lastActivation l) e := by
  simp [lastActivation]

theorem lastActivation_append {l m : List (MetadataLogEntry ι ρ)}
    (hm : ∀ e ∈ m, e.restoreActivation = none) : lastActivation (l ++ m) = lastActivation l := by
  induction m using reverseRecOn with
  | nil => rw [append_nil]
  | append_singleton m e ih =>
    rw [← append_assoc, lastActivation_concat, nextActivation, hm e (by simp)]
    exact ih fun x hx => hm x (mem_append_left _ hx)

/-- What the steps of a run take care of: activations, and topologies frozen behind them. -/
structure Care where
  carry : Prop
  frozen : Prop

section LogOk

variable [DecidableEq ι] {P : Platform ι ρ δ} (B : Bootstrap P) (M : Care)

/-- The entry may follow the log `p`. -/
structure EntryOk (p : List (MetadataLogEntry ι ρ)) (e : MetadataLogEntry ι ρ) : Prop where
  index : e.index = p.length + 1
  shape : validateLogEntryShape P e B.clusterId = .ok ()
  keeps : e.leadershipBarrier = true ∨ e.restoreActivation ≠ none →
    e.topology = topologyAt B.topology p
  advances : e.leadershipBarrier = false → e.restoreActivation = none →
    (topologyAt B.topology p).generation < e.topology.generation ∧
      Overlap (topologyVoters (topologyAt B.topology p)) (topologyVoters e.topology)
  later : M.carry → ∀ known ∈ lastActivation p, ∀ activation ∈ e.restoreActivation,
    known.activatedAtMs < activation.activatedAtMs
  frozen : M.carry → M.frozen → lastActivation p ≠ none → e.topology = topologyAt B.topology p

/-- Every entry may follow those before it. -/
def LogOk (l : List (MetadataLogEntry ι ρ)) : Prop :=
  ∀ p e, p ++ [e] <+: l → EntryOk B M p e

variable {B M}

variable {l : List (MetadataLogEntry ι ρ)}

theorem LogOk.anti {m : List (MetadataLogEntry ι ρ)} (h : LogOk B M m) (hp : l <+: m) :
    LogOk B M l :=
  fun p e hpe => h p e (hpe.trans hp)

theorem logOk_nil : LogOk B M [] := by
  intro p e hpe
  have hlen := hpe.length_le
  simp at hlen

variable (h : LogOk B M l)

include h

theorem LogOk.concat {e : MetadataLogEntry ι ρ} (he : EntryOk B M l e) :
    LogOk B M (l ++ [e]) := by
  intro p x hp
  rcases prefix_concat_iff.mp hp with heq | hp
  · obtain ⟨rfl, ⟨⟩⟩ := append_inj' heq rfl
    exact he
  · exact h p x hp

theorem LogOk.indexed : IndexedFrom (·.index) 0 l := by
  induction l using reverseRecOn with
  | nil => trivial
  | append_singleton l e ih =>
    rw [indexedFrom_append, indexedFrom_singleton]
    refine ⟨ih (h.anti (prefix_append _ _)), ?_⟩
    have hidx := (h l e prefix_rfl).index
    omega

theorem LogOk.shape {e : MetadataLogEntry ι ρ} (he : e ∈ l) :
    validateLogEntryShape P e B.clusterId = .ok () := by
  obtain ⟨s, t, rfl⟩ := append_of_mem he
  refine (h s e ?_).shape
  rw [show s ++ e :: t = (s ++ [e]) ++ t by simp]
  exact prefix_append _ _

theorem LogOk.wellFormed :
    (metadataRules B.topology).WellFormed l := by
  intro p e hpe
  have hok := h p e hpe
  have hsame : e.leadershipBarrier = true ∨ e.restoreActivation ≠ none →
      (metadataRules B.topology).votersAt (p ++ [e]) = (metadataRules B.topology).votersAt p := by
    intro hkeep
    show topologyVoters (topologyAt B.topology (p ++ [e])) = _
    rw [topologyAt_concat, hok.keeps hkeep]
    rfl
  refine ⟨fun hb => hsame (.inl (by simpa [metadataRules] using hb)), ?_⟩
  by_cases hkeep : e.leadershipBarrier = true ∨ e.restoreActivation ≠ none
  · rw [hsame hkeep]
    exact Rules.meet_self _ _
  · rw [not_or, Bool.not_eq_true, not_not] at hkeep
    obtain ⟨-, hover⟩ := hok.advances hkeep.1 hkeep.2
    have hmeet := hover.quorumsMeet (ClusterTopology.metadataVoters_nodup _)
      (ClusterTopology.metadataVoters_nodup _)
    show QuorumsMeet _ (topologyVoters (topologyAt B.topology (p ++ [e])))
    rwa [topologyAt_concat]

end LogOk

/-! ## The state a replica stands for -/

/-- Roles as the protocol library has them. -/
def roleOf : Role → MetadataConsensusRole
  | .follower => .follower
  | .candidate => .candidate
  | .leader => .leader

@[simp] theorem roleOf_eq_leader {r : Role} : roleOf r = .leader ↔ r = .leader := by
  cases r <;> simp [roleOf]

@[simp] theorem roleOf_eq_candidate {r : Role} : roleOf r = .candidate ↔ r = .candidate := by
  cases r <;> simp [roleOf]

/-- The state that stands for a replica. -/
def stateOf {P : Platform ι ρ δ} (B : Bootstrap P) (n : ι)
    (r : Replica ι (MetadataLogEntry ι ρ)) (leaderId : Option ι)
    (activation : Option (MetadataRestoreActivation ι)) : MetadataConsensusState ι ρ where
  formatVersion := clusterMetadataConsensusFormatVersion
  clusterId := B.clusterId
  nodeId := n
  currentTerm := r.term
  votedFor := r.voted
  role := roleOf r.role
  leaderId := leaderId
  baseIndex := r.commit
  baseTerm := lastTerm (·.term) (r.log.take r.commit)
  commitIndex := r.commit
  committedTopology := topologyAt B.topology (r.log.take r.commit)
  log := r.log.drop r.commit
  committedRestoreActivation := activation

variable {P : Platform ι ρ δ} {B : Bootstrap P} {n : ι} {r : Replica ι (MetadataLogEntry ι ρ)}
  {l : Option ι} {act : Option (MetadataRestoreActivation ι)}

theorem getLast?_drop_elim {α : Type*} (f : MetadataLogEntry ι ρ → α) (d : α) :
    ((r.log.drop r.commit).getLast?).elim (((r.log.take r.commit).getLast?).elim d f) f =
      (r.log.getLast?).elim d f := by
  rcases Nat.lt_or_ge r.commit r.log.length with hlt | hge
  · have hsome : (r.log.drop r.commit).getLast? = r.log.getLast? := by
      rw [getLast?_drop, if_neg (by omega)]
    rw [hsome]
    rcases eq_nil_or_concat' r.log with hnil | ⟨p, e, hpe⟩
    · rw [hnil] at hlt
      simp at hlt
    · rw [hpe, getLast?_concat]
      rfl
  · rw [drop_eq_nil_of_le hge, take_of_length_le hge]
    rfl

theorem lastLogIndex_stateOf (hidx : IndexedFrom (·.index) 0 r.log)
    (hc : r.commit ≤ r.log.length) : (stateOf B n r l act).lastLogIndex = r.log.length := by
  have hlast := (hidx.drop (Nat.zero_add r.commit)).last
  rwa [length_drop, Nat.add_sub_cancel' hc] at hlast

theorem lastLogTerm_stateOf : (stateOf B n r l act).lastLogTerm = lastTerm (·.term) r.log :=
  getLast?_drop_elim _ _

theorem termAt_stateOf (hidx : IndexedFrom (·.index) 0 r.log) (hc : r.commit ≤ r.log.length)
    {i t : Nat} : (stateOf B n r l act).termAt i = some t ↔
      r.commit ≤ i ∧ i ≤ r.log.length ∧ t = lastTerm (·.term) (r.log.take i) := by
  have hdrop := hidx.drop (Nat.zero_add r.commit)
  show (if i = r.commit then some (lastTerm (·.term) (r.log.take r.commit)) else
    ((r.log.drop r.commit).find? (fun e => e.index == i)).map (·.term)) = some t ↔ _
  rcases Nat.lt_trichotomy i r.commit with hlt | rfl | hgt
  · rw [if_neg (by omega), hdrop.find_le (by omega)]
    simp
    omega
  · rw [if_pos rfl, Option.some.injEq]
    constructor
    · omega
    · omega
  · obtain ⟨k, rfl⟩ : ∃ k, i = r.commit + k + 1 := ⟨i - r.commit - 1, by omega⟩
    rw [if_neg (by omega), hdrop.find_succ k, getElem?_drop]
    constructor
    · intro ht
      obtain ⟨e, he, rfl⟩ := Option.map_eq_some_iff.mp ht
      have hlen := (List.getElem?_eq_some_iff.mp he).1
      exact ⟨by omega, by omega, (lastTerm_take_succ he).symm⟩
    · rintro ⟨-, hlen, rfl⟩
      have hget : r.log[r.commit + k]? = some (r.log[r.commit + k]) :=
        getElem?_eq_getElem (by omega)
      rw [lastTerm_take_succ hget, hget]
      rfl

theorem stepDown_stateOf {T : Nat} (hT : r.term ≤ T) (l' : Option ι) :
    (stateOf B n r l act).stepDown T l' = stateOf B n (r.adopt T) l' act := by
  have hterm : (stateOf B n r l act).currentTerm = r.term := rfl
  unfold MetadataConsensusState.stepDown
  rcases Nat.lt_or_eq_of_le hT with hlt | rfl
  · rw [hterm, if_pos hlt]
    simp [stateOf, Replica.adopt, hlt, roleOf]
  · rw [hterm, if_neg (lt_irrefl _)]
    simp [stateOf, Replica.adopt, roleOf]

theorem adopt_adopt {T T' : Nat} (hT : r.term ≤ T) (hT' : T ≤ T') :
    (r.adopt T).adopt T' = r.adopt T' := by
  unfold Replica.adopt
  dsimp only
  split_ifs <;> first | rfl | omega

end BicDb.Metadata
