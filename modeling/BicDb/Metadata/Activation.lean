import BicDb.Metadata.Safety

/-!
# Committed restore activations

An activation one node has committed is reported by every node that has committed as far, or a later
one in its place. Commits go straight to the newest entry of the leader's term and keep that entry's
activation only.

## What this module delivers

* `committedActivation_kept`: it holds where no commit passes over an activation.
* `skippedActivation_is_lost`: one that does.
-/

namespace BicDb.Metadata

open BicDb.Foundation MetadataCluster List

variable {ι ρ δ : Type*}

theorem lastActivation_of_mem {b : Nat} {l : List (MetadataLogEntry ι ρ)}
    (hidx : IndexedFrom (·.index) b l) {e : MetadataLogEntry ι ρ} (he : e ∈ l)
    (hact : e.restoreActivation ≠ none) :
    ∃ e' ∈ l, e.index ≤ e'.index ∧ e'.restoreActivation ≠ none ∧
      lastActivation l = e'.restoreActivation := by
  induction l using reverseRecOn with
  | nil => cases he
  | append_singleton l x ih =>
    rw [indexedFrom_append, indexedFrom_singleton] at hidx
    rw [lastActivation_concat, nextActivation]
    cases hx : x.restoreActivation with
    | some =>
      refine ⟨x, mem_append_right l (mem_singleton.mpr rfl), ?_, by simp [hx], hx.symm⟩
      rcases mem_append.mp he with he | he
      · obtain ⟨k, hk, rfl⟩ := mem_iff_getElem.mp he
        have hget := hidx.1.get (getElem?_eq_getElem hk)
        omega
      · rw [mem_singleton.mp he]
    | none =>
      rcases mem_append.mp he with he | he
      · obtain ⟨e', he', hle, hsome, hlast⟩ := ih hidx.1 he
        exact ⟨e', mem_append_left _ he', hle, hsome, hlast⟩
      · rw [mem_singleton.mp he] at hact
        exact absurd hx hact

variable [DecidableEq ι] [DecidableEq ρ] {P : Platform ι ρ δ} {B : Bootstrap P} {M : Care}
  {H : History ι (MetadataLogEntry ι ρ)} {a : ι → Replica ι (MetadataLogEntry ι ρ)}
  {c : MetadataCluster ι ρ δ}

/-- The conditions on a step for activations. -/
def ActivationSafe (c : MetadataCluster ι ρ δ) (act : Action ι ρ) : Prop :=
  ElectionSafe c act ∧ CarriesActivations c act

instance (c : MetadataCluster ι ρ δ) (act : Action ι ρ) : Decidable (ActivationSafe c act) :=
  inferInstanceAs (Decidable (_ ∧ _))

def carryCare : Care := ⟨True, False⟩

omit [DecidableEq ρ] in
theorem ActivationSafe.safeStep {act : Action ι ρ} (h : ActivationSafe c act) :
    SafeStep carryCare c act :=
  ⟨h.1.1, h.1.2.1, h.1.2.2, fun _ => h.2, fun _ hf => hf.elim⟩

omit [DecidableEq ρ] in
theorem Inv.mem_of_committed (h : Inv B M c H a) {m n : ι} {e : MetadataLogEntry ι ρ}
    (he : e ∈ (c.node m).store.committed) (hle : e.index ≤ (c.state n).commitIndex) :
    e ∈ (a n).log.take (a n).commit := by
  obtain ⟨L, hL, hm, hn⟩ := h.common_log m n
  have heL : e ∈ L := hm.subset ((h.node m).committed.2.2.1 e he)
  have hcommit : e.index ≤ ((a n).log.take (a n).commit).length := by
    have hidx : (c.state n).commitIndex = (a n).commit := (h.node n).committed.1
    have hlen := (h.protocol.node n).commit_le
    rw [length_take]
    omega
  obtain ⟨k, hk, rfl⟩ := mem_iff_getElem.mp heL
  have hget := hL.indexed.get (getElem?_eq_getElem hk)
  obtain ⟨r, hr⟩ := hn
  rw [mem_iff_getElem]
  refine ⟨k, by omega, ?_⟩
  simp only [← hr]
  rw [getElem_append_left]

/-- **Committed activations are kept**: nodes that have committed as far report it or a later one.
-/
theorem committedActivation_kept (B : Bootstrap P)
    (h : Reach (clusterStep P B) ActivationSafe (MetadataCluster.init P B) c) (m n : ι)
    (e : MetadataLogEntry ι ρ) (X : MetadataRestoreActivation ι)
    (he : e ∈ (c.node m).store.committed) (hX : e.restoreActivation = some X)
    (hle : e.index ≤ (c.state n).commitIndex) :
    ∃ Y, (c.state n).committedRestoreActivation = some Y ∧
      (Y = X ∨ ∃ k, ∃ e' ∈ (c.node k).store.committed,
        e.index < e'.index ∧ e'.restoreActivation = some Y) := by
  obtain ⟨H, a, hinv⟩ := inv_of_reach (h.mono fun _ _ hok => hok.safeStep)
  have hmem := hinv.mem_of_committed he hle
  have hidx := ((hinv.logOk n).anti (List.take_prefix (a n).commit _)).indexed
  obtain ⟨e', he', hlater, hsome, hlast⟩ := lastActivation_of_mem hidx hmem (by simp [hX])
  have hreport : (c.state n).committedRestoreActivation = e'.restoreActivation :=
    ((hinv.node n).committed.2.1 trivial).trans hlast
  obtain ⟨Y, hY⟩ := Option.ne_none_iff_exists'.mp hsome
  refine ⟨Y, hreport.trans hY, ?_⟩
  rcases hlater.eq_or_lt with heq | hlt
  · rw [hidx.eq_of_index hmem he' heq, hY] at hX
    exact .inl (Option.some.inj hX)
  · obtain ⟨k, hk⟩ := hinv.recorded n e' he'
    exact .inr ⟨k, e', hk, hlt, hY⟩

def plainActivation (activatedAtMs : Nat) : MetadataRestoreActivation Nat where
  formatVersion := 1
  activationId := 1
  clusterId := 0
  certificateId := 1
  certificateChecksumSha256 := List.replicate 64 'a'
  admissionId := 1
  admissionChecksumSha256 := List.replicate 64 'a'
  planId := 1
  topologyGeneration := 1
  topologySha256 := List.replicate 64 'a'
  acknowledgedNodes := 1
  nodeAckSetSha256 := List.replicate 64 'a'
  activatedAtMs := activatedAtMs

/-- Node `1` commits a barrier and an activation with node `2`; node `3` gets a snapshot. -/
def activationRun : List (Action Nat Unit) :=
  [.startElection 1, .handleVoteRequest 2 0, .becomeLeader 1 [1, 2], .appendRequestFrom 1 1 10,
    .handleAppendRequest 2 0, .recordAppendResponse 1 2 0,
    .proposeRestoreActivation 1 (plainActivation 1), .appendRequestFrom 1 2 10,
    .handleAppendRequest 2 1, .recordAppendResponse 1 2 1, .appendRequestFrom 1 1 10,
    .handleAppendRequest 3 2]

/-- The third node reports it from a snapshot. -/
theorem committedActivation_kept_activationRun :
    ∃ c, Reach (clusterStep plainPlatform threeVoterBootstrap)
        ActivationSafe (MetadataCluster.init plainPlatform threeVoterBootstrap) c ∧
      ∃ e ∈ (c.node 1).store.committed, e.restoreActivation = some (plainActivation 1) ∧
        ∃ Y, (c.state 3).committedRestoreActivation = some Y ∧
          (Y = plainActivation 1 ∨ ∃ k, ∃ e' ∈ (c.node k).store.committed,
            e.index < e'.index ∧ e'.restoreActivation = some Y) :=
  exists_reach_imp (fun c => ∃ e ∈ (c.node 1).store.committed,
      e.restoreActivation = some (plainActivation 1) ∧ e.index ≤ (c.state 3).commitIndex)
    activationRun (by decide +kernel) fun hreach ⟨e, he, hact, hle⟩ =>
      ⟨e, he, hact, committedActivation_kept threeVoterBootstrap hreach 1 3 e _ he hact hle⟩

/-- Node `1` commits an activation with node `2`, which then leads term `2` and commits its barrier
over it. -/
def skippedActivationRun : List (Action Nat Unit) :=
  [.startElection 1, .handleVoteRequest 2 0, .becomeLeader 1 [1, 2],
    .proposeRestoreActivation 1 (plainActivation 1), .appendRequestFrom 1 1 10,
    .handleAppendRequest 2 0, .recordAppendResponse 1 2 0, .startElection 2,
    .handleVoteRequest 3 1, .becomeLeader 2 [2, 3], .appendRequestFrom 2 1 10,
    .handleAppendRequest 3 1, .recordAppendResponse 2 3 1]

/-- A commit that skips an activation loses it. -/
theorem skippedActivation_is_lost :
    ∃ c, Reach (clusterStep plainPlatform threeVoterBootstrap)
        (fun c act => CommitSafe c act ∧ ElectionSafe c act)
        (MetadataCluster.init plainPlatform threeVoterBootstrap) c ∧
      ∃ e ∈ (c.node 1).store.committed, e.restoreActivation = some (plainActivation 1) ∧
        e.index ≤ (c.state 2).commitIndex ∧ (c.state 2).committedRestoreActivation = none :=
  exists_reach skippedActivationRun (by decide +kernel)

end BicDb.Metadata
