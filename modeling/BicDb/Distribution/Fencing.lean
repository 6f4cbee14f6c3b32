import BicDb.Distribution.SafeRelocations

/-!
# What the operations do to the owner of a token

`Advances topology topology'`: seen from any token, the epoch of its owner never falls, and rises
whenever its interval, replicas or leader change; new ranges and replicas have ids not given out
before.
-/

namespace BicDb.Distribution

open BicDb.Foundation List Edit OrderedMap

/-! ## Owners -/

variable {range : RangeDescriptor}

theorem containsToken_iff {token : Nat} :
    range.containsToken token = true ↔
      Covers RangeDescriptor.startToken RangeDescriptor.endToken range token := by
  unfold RangeDescriptor.containsToken Covers
  cases range.endToken with
  | none => simp
  | some stop => simp

section Owners

variable {topology : ClusterTopology} {range' : RangeDescriptor} {token : Nat}

variable (h : MapOk topology.ranges)

include h

theorem MapOk.owner_unique (hr : range ∈ topology.ranges.values)
    (hr' : range' ∈ topology.ranges.values) (howns : range.containsToken token = true)
    (howns' : range'.containsToken token = true) : range = range' :=
  h.tiled.covers_unique hr hr' (containsToken_iff.1 howns) (containsToken_iff.1 howns')

theorem MapOk.exists_owner (token : Nat) :
    ∃ range ∈ topology.ranges.values, range.containsToken token = true := by
  obtain ⟨range, hr, hcovers⟩ := h.tiled.exists_covers (Nat.zero_le token)
  exact ⟨range, hr, containsToken_iff.2 hcovers⟩

theorem rangeForToken_eq_ok :
    topology.rangeForToken token = .ok range ↔
      range ∈ topology.ranges.values ∧ range.containsToken token = true := by
  obtain ⟨owner, howner, howns⟩ := h.exists_owner token
  obtain ⟨start, hentry⟩ := mem_values_iff.1 howner
  obtain ⟨before, after, heq⟩ := append_of_mem hentry
  obtain ⟨hle, hlt⟩ := containsToken_iff.1 howns
  have hkey : start = owner.startToken := h.keys _ hentry
  -- what follows the owner starts after the token
  have hafter : (after.filter fun entry => decide (entry.1 ≤ token)) = [] := by
    refine filter_eq_nil_iff.2 fun entry hmem hstart => ?_
    have htiled := h.tiled
    rw [values, heq, map_append, map_cons] at htiled
    obtain ⟨stop, hstop, hnext⟩ := htiled.le_lo_of_mem (mem_map_of_mem hmem)
    have hentryKey := h.keys entry (heq ▸ mem_append_right _ (mem_cons_of_mem _ hmem))
    have hbefore := hlt stop hstop
    have hstart := of_decide_eq_true hstart
    omega
  have hlast : (topology.ranges.entries.filter fun entry => decide (entry.1 ≤ token)).getLast? =
      some (start, owner) := by
    rw [heq, filter_append, filter_cons_of_pos (by simpa [hkey] using hle), hafter]
    simp
  have hfound : topology.rangeForToken token = .ok owner := by
    simp only [ClusterTopology.rangeForToken, hlast, howns, if_true]
  rw [hfound]
  constructor
  · intro hsame
    cases hsame
    exact ⟨howner, howns⟩
  · rintro ⟨hr, hrange⟩
    rw [h.owner_unique howner hr howns hrange]

end Owners

/-! ## Fencing -/

/-- What an epoch stands for: interval, replicas and leader. -/
def RangeDescriptor.configuration (range : RangeDescriptor) :
    Nat × Option Nat × List (ClusterNodeId × RangeReplicaRole) × ClusterNodeId :=
  (range.startToken, range.endToken, range.layout, range.leader)

/-- The epoch does not fall, and rises with the configuration. -/
structure Fenced (range range' : RangeDescriptor) : Prop where
  monotone : range.epoch ≤ range'.epoch
  strict : range'.configuration ≠ range.configuration → range.epoch < range'.epoch

theorem Fenced.refl (range : RangeDescriptor) : Fenced range range :=
  ⟨le_refl _, fun h => absurd rfl h⟩

theorem Fenced.trans {range' range'' : RangeDescriptor} (h : Fenced range range')
    (h' : Fenced range' range'') : Fenced range range'' := by
  refine ⟨h.monotone.trans h'.monotone, fun hne => ?_⟩
  by_cases hsame : range'.configuration = range.configuration
  · exact h.monotone.trans_lt (h'.strict fun heq => hne (heq.trans hsame))
  · exact (h.strict hsame).trans_le h'.monotone

theorem Fenced.of_lt {range' : RangeDescriptor} (h : range.epoch < range'.epoch) :
    Fenced range range' :=
  ⟨h.le, fun _ => h⟩

/-- The range comes from one before it, or is new. -/
def Continues (topology : ClusterTopology) (range' : RangeDescriptor) : Prop :=
  (∃ range ∈ topology.ranges.values, range.id = range'.id ∧
    range.startToken = range'.startToken) ∨ topology.nextRangeId ≤ range'.id

/-- The replica was there, or has a new id. -/
def Stays (topology : ClusterTopology) (rangeId : RangeId) (replica' : RangeReplica) : Prop :=
  (∃ range ∈ topology.ranges.values, range.id = rangeId ∧
    ∃ replica ∈ range.replicas, replica.id = replica'.id ∧ replica.nodeId = replica'.nodeId) ∨
    topology.nextReplicaId ≤ replica'.id

/-- Ids and epochs only grow. -/
structure Advances (topology topology' : ClusterTopology) : Prop where
  nextRangeId : topology.nextRangeId ≤ topology'.nextRangeId
  nextReplicaId : topology.nextReplicaId ≤ topology'.nextReplicaId
  ranges : ∀ range' ∈ topology'.ranges.values, Continues topology range'
  replicas : ∀ range' ∈ topology'.ranges.values, ∀ replica' ∈ range'.replicas,
    Stays topology range'.id replica'
  fenced : ∀ token, ∀ range ∈ topology.ranges.values, ∀ range' ∈ topology'.ranges.values,
    range.containsToken token = true → range'.containsToken token = true → Fenced range range'

variable {topology : ClusterTopology}

theorem continues_self (hr : range ∈ topology.ranges.values) : Continues topology range :=
  .inl ⟨range, hr, rfl, rfl⟩

theorem stays_self {replica : RangeReplica} (hr : range ∈ topology.ranges.values)
    (hreplica : replica ∈ range.replicas) :
    Stays topology range.id replica :=
  .inl ⟨range, hr, rfl, replica, hreplica, rfl, rfl⟩

section Advances

variable {topology' topology'' : ClusterTopology}

section Edits

variable (h : MapOk topology.ranges) (hrange : topology.nextRangeId ≤ topology'.nextRangeId)
  (hreplica : topology.nextReplicaId ≤ topology'.nextReplicaId)

include h hrange hreplica

theorem Advances.of_ranges (hranges : topology'.ranges = topology.ranges) :
    Advances topology topology' := by
  refine ⟨hrange, hreplica, ?_, ?_, ?_⟩
  · rw [hranges]
    exact fun range' hr => continues_self hr
  · rw [hranges]
    exact fun range' hr replica' hreplica => stays_self hr hreplica
  · rw [hranges]
    intro token range hr range' hr' howns howns'
    rw [h.owner_unique hr hr' howns howns']
    exact .refl range'

theorem Advances.of_exchange {old new : List (Nat × RangeDescriptor)}
    (hex : Exchange topology.ranges topology'.ranges old new)
    (hcontinues : ∀ entry ∈ new, Continues topology entry.2)
    (hstays : ∀ entry ∈ new, ∀ replica ∈ entry.2.replicas, Stays topology entry.2.id replica)
    (hfenced : ∀ entry ∈ old, ∀ entry' ∈ new, Fenced entry.2 entry'.2) :
    Advances topology topology' := by
  refine ⟨hrange, hreplica, ?_, ?_, ?_⟩
  · intro range' hr'
    rcases (hex.mem_iff h).1 hr' with hnew | ⟨hmem, -⟩
    · obtain ⟨entry, hentry, rfl⟩ := mem_map.1 hnew
      exact hcontinues entry hentry
    · exact continues_self hmem
  · intro range' hr' replica' hreplica'
    rcases (hex.mem_iff h).1 hr' with hnew | ⟨hmem, -⟩
    · obtain ⟨entry, hentry, rfl⟩ := mem_map.1 hnew
      exact hstays entry hentry replica' hreplica'
    · exact stays_self hmem hreplica'
  · -- a range on both sides owns the token on both; otherwise the one is old and the other new
    intro token range hr range' hr' howns howns'
    rcases (hex.mem_iff h).1 hr' with hnew | ⟨hmem, -⟩
    · by_cases hold : range.id ∈ old.map (·.2.id)
      · obtain ⟨entry', hentry', rfl⟩ := mem_map.1 hnew
        obtain ⟨entry, hentry, hid⟩ := mem_map.1 hold
        have hmem := mem_values_iff.2 ⟨entry.1, hex.mem_of_mem_old hentry⟩
        rw [← inj_on_of_nodup_map h.rangeIds hmem hr hid]
        exact hfenced entry hentry entry' hentry'
      · have hkept := (hex.mem_iff h).2 (.inr ⟨hr, hold⟩)
        rw [(hex.mapOk h).owner_unique hkept hr' howns howns']
        exact .refl range'
    · rw [h.owner_unique hr hmem howns howns']
      exact .refl range'

theorem Advances.of_modified {range : RangeDescriptor} {f : RangeDescriptor → RangeDescriptor}
    (hr : range ∈ topology.ranges.values)
    (hranges : topology'.ranges = modified topology.ranges range f)
    (hplace : SamePlace range (f range))
    (hstays : ∀ replica ∈ (f range).replicas, Stays topology range.id replica)
    (hfenced : Fenced range (f range)) : Advances topology topology' := by
  obtain ⟨key, hex⟩ := exchange_modified h hr hplace
  refine .of_exchange h hrange hreplica (hranges ▸ hex) ?_ ?_ ?_
  · simpa using .inl ⟨range, hr, hplace.id.symm, hplace.start.symm⟩
  · simpa [hplace.id] using hstays
  · simpa using hfenced

theorem Advances.of_merge {left right : Nat × RangeDescriptor} {merged : RangeDescriptor}
    (hleft : left ∈ topology.ranges.entries) (hright : right ∈ topology.ranges.entries)
    (hlt : left.1 < right.1) (hmeet : left.2.endToken = some right.2.startToken)
    (hranges : topology'.ranges = (topology.ranges.insert left.1 merged).erase right.1)
    (hid : merged.id = left.2.id) (hstart : merged.startToken = left.2.startToken)
    (hstop : merged.endToken = right.2.endToken) (hreplicas : merged.replicas = left.2.replicas)
    (hepoch : merged.epoch = max left.2.epoch right.2.epoch + 1) : Advances topology topology' := by
  have hr := mem_values_iff.2 ⟨left.1, hleft⟩
  refine .of_exchange h hrange hreplica
    (hranges ▸ exchange_merge h hleft hright hlt hmeet hid hstart hstop) ?_ ?_ ?_
  · simp only [forall_mem_singleton]
    exact .inl ⟨left.2, hr, hid.symm, hstart.symm⟩
  · simp only [forall_mem_singleton, hreplicas, hid]
    exact fun replica hreplica => stays_self hr hreplica
  · simp only [forall_mem_cons, not_mem_nil, false_implies, implies_true, and_true]
    exact ⟨.of_lt (by rw [hepoch]; omega), .of_lt (by rw [hepoch]; omega)⟩

end Edits

theorem Advances.refl (h : MapOk topology.ranges) : Advances topology topology :=
  .of_ranges h (le_refl _) (le_refl _) rfl

theorem Advances.trans (h : Advances topology topology') (h' : Advances topology' topology'')
    (hmap : MapOk topology'.ranges) : Advances topology topology'' := by
  refine ⟨h.nextRangeId.trans h'.nextRangeId, h.nextReplicaId.trans h'.nextReplicaId, ?_, ?_, ?_⟩
  · intro range'' hr''
    rcases h'.ranges range'' hr'' with ⟨range', hr', hid, hstart⟩ | hnew
    · rcases h.ranges range' hr' with ⟨range, hr, hid', hstart'⟩ | hnew
      · exact .inl ⟨range, hr, hid'.trans hid, hstart'.trans hstart⟩
      · exact .inr (hnew.trans_eq hid)
    · exact .inr (h.nextRangeId.trans hnew)
  · intro range'' hr'' replica'' hreplica''
    rcases h'.replicas range'' hr'' replica'' hreplica'' with
      ⟨range', hr', hid, replica', hreplica', hsame, hnode⟩ | hnew
    · rcases h.replicas range' hr' replica' hreplica' with
        ⟨range, hr, hid', replica, hreplica, hsame', hnode'⟩ | hnew
      · exact .inl ⟨range, hr, hid'.trans hid, replica, hreplica, hsame'.trans hsame,
          hnode'.trans hnode⟩
      · exact .inr (hnew.trans_eq hsame)
    · exact .inr (h.nextReplicaId.trans hnew)
  · -- the token has an owner in between
    intro token range hr range'' hr'' howns howns''
    obtain ⟨range', hr', howns'⟩ := hmap.exists_owner token
    exact (h.fenced token range hr range' hr' howns howns').trans
      (h'.fenced token range' hr' range'' hr'' howns' howns'')

end Advances

/-! ## The operations -/

/-- What the edit commits has advanced. -/
def Edit.Advancing {α : Type} (topology : ClusterTopology) (edit : Edit α) : Prop :=
  edit.All (fun _ => True) (Advances topology)

variable {α : Type}

theorem Edit.Advancing.checked {β : Type} {check : Except BicDbError β} {rest : β → Edit α}
    (h : ∀ value, check = .ok value → (rest value).Advancing topology) :
    (Edit.checked topology check rest).Advancing topology :=
  all_checked trivial h

section Ranges

variable {rangeId : RangeId} {actor : ClusterNodeId} {nowMs : Nat}

theorem splitRange_advancing {splitToken : Nat} (h : TopologyOk topology) :
    (splitRange topology rangeId splitToken actor nowMs).Advancing topology := by
  refine .checked fun _ _ => .checked fun _ _ => .checked fun entry hentry =>
    .checked fun _ hinside => ?_
  obtain ⟨start, original⟩ := entry
  rw [require_eq_ok] at hinside
  obtain ⟨hmem, -⟩ := rangeEntry_eq_ok hentry
  have hr : original ∈ topology.ranges.values := mem_values_iff.2 ⟨start, hmem⟩
  split
  · trivial
  rename_i nextRangeId hnext
  obtain ⟨-, rfl⟩ := checkedSucc_eq_some.1 hnext
  split
  · trivial
  rename_i epoch hepoch
  obtain ⟨-, rfl⟩ := checkedSucc_eq_some.1 hepoch
  split
  · trivial
  rename_i copies last hcopies
  obtain ⟨rfl, hids, -⟩ := copyReplicas_eq hcopies
  refine .of_exchange h.ranges.toMapOk (Nat.le_succ _) (Nat.le_add_right _ _)
    (exchange_split h.ranges.toMapOk hmem hinside.1 hinside.2
      fun range hrange => (h.rangeIds range hrange).ne) ?_ ?_ ?_
  · simp only [forall_mem_cons]
    exact ⟨.inl ⟨original, hr, rfl, rfl⟩, .inr (le_refl _), nofun⟩
  · simp only [forall_mem_cons]
    refine ⟨fun replica hreplica => .inl ⟨original, hr, rfl, replica, hreplica, rfl, rfl⟩,
      fun replica hreplica => .inr ?_, nofun⟩
    -- the copies are numbered from the next id on
    have hid : replica.id ∈ copies.map (·.id) := mem_map_of_mem hreplica
    rw [hids, mem_range'_1] at hid
    exact hid.1
  · simp only [forall_mem_cons]
    exact ⟨⟨.of_lt (Nat.lt_succ_self _), .of_lt (Nat.lt_succ_self _), nofun⟩, nofun⟩

variable (h : TopologyOk topology)

include h

theorem mergeRanges_advancing {firstId secondId : RangeId} :
    (mergeRanges topology firstId secondId actor nowMs).Advancing topology := by
  refine .checked fun _ _ => .checked fun _ hne => .checked fun _ _ => .checked fun _ _ =>
    .checked fun first hfirst => .checked fun second hsecond => .checked fun _ hmeet =>
    .checked fun _ _ => ?_
  rw [require_eq_ok] at hmeet hne
  obtain ⟨hfirstMem, rfl⟩ := rangeEntry_eq_ok hfirst
  obtain ⟨hsecondMem, rfl⟩ := rangeEntry_eq_ok hsecond
  have hmap := h.ranges.toMapOk
  split
  · trivial
  rename_i epoch hepoch
  obtain ⟨-, rfl⟩ := checkedSucc_eq_some.1 hepoch
  by_cases hlt : first.1 < second.1
  · simp only [if_pos hlt] at hmeet ⊢
    exact .of_merge hmap (le_refl _)
      (le_refl _) hfirstMem hsecondMem hlt hmeet rfl rfl rfl rfl rfl rfl
  · simp only [if_neg hlt] at hmeet ⊢
    have hlt' : second.1 < first.1 := by
      refine lt_of_le_of_ne (not_lt.1 hlt) fun heq => hne ?_
      rw [inj_on_of_nodup_map topology.ranges.keys_nodup hsecondMem hfirstMem heq]
    exact .of_merge hmap (le_refl _)
      (le_refl _) hsecondMem hfirstMem hlt' hmeet rfl rfl rfl rfl rfl rfl

theorem setRangePlacement_advancing {placement : PlacementPolicy} :
    (setRangePlacement topology rangeId placement actor nowMs).Advancing topology := by
  refine .checked fun _ _ => .checked fun _ _ => .checked fun _ _ => .checked fun range hrange => ?_
  obtain ⟨hr, rfl⟩ := (knownRange_eq_ok h.ranges.toMapOk).1 hrange
  split_ifs
  · trivial
  split
  · trivial
  rename_i epoch hepoch
  obtain ⟨-, rfl⟩ := checkedSucc_eq_some.1 hepoch
  exact .of_modified h.ranges.toMapOk (le_refl _) (le_refl _) hr rfl ⟨rfl, rfl, rfl⟩
    (fun replica hreplica => stays_self hr hreplica) (.of_lt (Nat.lt_succ_self _))

theorem updateRangeLoad_advancing {bytes qps : Nat} :
    (updateRangeLoad topology rangeId bytes qps actor nowMs).Advancing topology := by
  refine .checked fun _ _ => .checked fun range hrange => ?_
  obtain ⟨hr, rfl⟩ := (knownRange_eq_ok h.ranges.toMapOk).1 hrange
  split_ifs
  · trivial
  · exact .of_modified h.ranges.toMapOk (le_refl _) (le_refl _) hr rfl ⟨rfl, rfl, rfl⟩
      (fun replica hreplica => stays_self hr hreplica) ⟨le_refl _, fun hne => absurd rfl hne⟩

theorem promoteRelocation_advancing {relocationId : RelocationId} :
    (promoteRelocation topology relocationId actor nowMs).Advancing topology := by
  refine .checked fun _ _ => .checked fun relocation _ => .checked fun range hcheck => ?_
  obtain ⟨-, hr, hid, -⟩ := checkPromotion_eq_ok h.ranges.toMapOk hcheck
  split
  · trivial
  rename_i epoch hepoch
  obtain ⟨-, rfl⟩ := checkedSucc_eq_some.1 hepoch
  rw [← hid]
  refine .of_modified h.ranges.toMapOk (le_refl _) (le_refl _) hr rfl ⟨rfl, rfl, rfl⟩
    (fun replica hreplica => ?_) (.of_lt (Nat.lt_succ_self _))
  obtain ⟨old, hold, hsame, hnode⟩ := mem_promoteReplica hreplica
  exact .inl ⟨range, hr, rfl, old, hold, hsame, hnode⟩

theorem finishRelocationCleanup_advancing {relocationId : RelocationId} :
    (finishRelocationCleanup topology relocationId actor nowMs).Advancing topology := by
  refine .checked fun _ _ => .checked fun relocation _ => .checked fun range hcheck => ?_
  obtain ⟨-, -, hr, hid, -⟩ := checkCleanup_eq_ok h.ranges.toMapOk hcheck
  split
  · trivial
  rename_i epoch hepoch
  obtain ⟨-, rfl⟩ := checkedSucc_eq_some.1 hepoch
  rw [← hid]
  exact .of_modified h.ranges.toMapOk (le_refl _) (le_refl _) hr rfl ⟨rfl, rfl, rfl⟩
    (fun replica hreplica => stays_self hr (mem_of_mem_filter hreplica))
    (.of_lt (Nat.lt_succ_self _))

end Ranges

/-! ## Plans -/

variable {topology' : ClusterTopology} {planId : String} {nowMs : Nat}

theorem applyTransfers_advances {immediate : List RangeId} {transfers : List PlannedLeaderTransfer}
    (happly : applyTransfers immediate transfers topology = (true, topology'))
    (h : MapOk topology.ranges) :
    Advances topology topology' ∧ MapOk topology'.ranges := by
  induction transfers generalizing topology with
  | nil =>
    cases happly
    exact ⟨.refl h, h⟩
  | cons transfer rest ih =>
    unfold applyTransfers at happly
    split_ifs at happly
    · split at happly
      · exact ih happly h
      · rename_i range hfind
        obtain ⟨hr, hid⟩ := (rangeById_eq_some h).1 hfind
        split at happly
        · cases happly
        rename_i epoch hepoch
        obtain ⟨-, rfl⟩ := checkedSucc_eq_some.1 hepoch
        rw [← hid] at happly
        have hplace : SamePlace range (handOver transfer (range.epoch + 1) range) :=
          ⟨rfl, rfl, rfl⟩
        have hmap := h.modify hr hplace
        obtain ⟨hrest, hmap'⟩ := ih happly hmap
        refine ⟨Advances.trans ?_ hrest hmap, hmap'⟩
        exact .of_modified h (le_refl _) (le_refl _) hr rfl hplace
          (fun replica hreplica => stays_self hr hreplica) (.of_lt (Nat.lt_succ_self _))
    · exact ih happly h

/-- Starting the moves of a plan advances the topology. -/
theorem applyMoves_advances {moves : List PlannedReplicaMove} {ids : List RelocationId}
    (happly : applyMoves planId nowMs moves topology = (.ok ids, topology'))
    (h : MapOk topology.ranges) :
    Advances topology topology' ∧ MapOk topology'.ranges := by
  induction moves generalizing topology ids with
  | nil =>
    cases happly
    exact ⟨.refl h, h⟩
  | cons movement rest ih =>
    unfold applyMoves at happly
    split at happly
    · cases happly
    rename_i nextReplicaId hnext
    obtain ⟨-, rfl⟩ := checkedSucc_eq_some.1 hnext
    split at happly
    · cases happly
    split at happly
    · obtain ⟨hrest, hmap'⟩ := ih happly h
      refine ⟨Advances.trans ?_ hrest h, hmap'⟩
      exact .of_ranges h (le_refl _) (Nat.le_succ _) rfl
    rename_i range hfind
    obtain ⟨hr, hid⟩ := (rangeById_eq_some h).1 hfind
    split at happly
    · cases happly
    rename_i epoch hepoch
    obtain ⟨-, rfl⟩ := checkedSucc_eq_some.1 hepoch
    split at happly
    · cases happly
    rename_i ids' topology₁ hrest
    cases happly
    have hranges := @ranges_allocateLearner topology range planId (range.epoch + 1) nowMs movement
      hid
    have hplace : SamePlace range (withLearner topology.nextReplicaId movement.target
        (range.epoch + 1) range) := ⟨rfl, rfl, rfl⟩
    have hmap : MapOk (topology.allocateLearner planId nowMs movement
        (range.epoch + 1)).ranges := hranges ▸ h.modify hr hplace
    obtain ⟨hrest, hmap'⟩ := ih hrest hmap
    refine ⟨Advances.trans ?_ hrest hmap, hmap'⟩
    refine .of_modified h (le_refl _) (Nat.le_succ _) hr hranges hplace
      (fun replica hreplica => ?_) (.of_lt (Nat.lt_succ_self _))
    rcases mem_append.1 hreplica with hold | hlearner
    · exact stays_self hr hold
    · rw [mem_singleton.1 hlearner]
      exact .inr (le_refl _)

theorem applyRebalancePlan_advancing {limits : LivenessLimits} {plan : RebalancePlan}
    {actor : ClusterNodeId} (h : TopologyOk topology) :
    (applyRebalancePlan topology limits plan actor nowMs).Advancing topology := by
  refine .checked fun _ _ => ?_
  split_ifs
  · trivial
  refine .checked fun _ _ => .checked fun _ _ => .checked fun _ _ => .checked fun immediate _ => ?_
  unfold applyChecked
  split
  · trivial
  split
  · trivial
  rename_i htransfers
  split
  · trivial
  rename_i happly
  obtain ⟨hfirst, hmap⟩ := applyTransfers_advances htransfers h.ranges.toMapOk
  obtain ⟨hsecond, hmap'⟩ := applyMoves_advances happly hmap
  have hevicted : Advances topology _ := { hfirst with }
  exact (hevicted.trans hsecond hmap).trans (.of_ranges hmap' (le_refl _) (le_refl _) rfl) hmap'

/-! ## Every operation -/

/-- The edit leaves the ranges alone. -/
def Edit.KeepsRanges {α : Type} (topology : ClusterTopology) (edit : Edit α) : Prop :=
  edit.All (fun _ => True) fun topology' => topology'.ranges = topology.ranges ∧
    topology'.nextRangeId = topology.nextRangeId ∧
    topology'.nextReplicaId = topology.nextReplicaId

theorem Edit.KeepsRanges.advancing {edit : Edit α} (hedit : edit.KeepsRanges topology)
    (h : TopologyOk topology) : edit.Advancing topology := by
  cases edit with
  | refuse => trivial
  | answer value => trivial
  | commit =>
    obtain ⟨hranges, hrange, hreplica⟩ := hedit
    exact .of_ranges h.ranges.toMapOk hrange.ge hreplica.ge hranges

theorem editOf_advancing {config : DistributionConfig} {call : Call} (h : TopologyOk topology) :
    (editOf config topology call).Advancing topology := by
  cases call with
  | splitRange => exact all_map (splitRange_advancing h)
  | mergeRanges => exact all_map (mergeRanges_advancing h)
  | setRangePlacement => exact all_map (setRangePlacement_advancing h)
  | updateRangeLoad => exact all_map (updateRangeLoad_advancing h)
  | applyRebalancePlan => exact all_map (applyRebalancePlan_advancing h)
  | promoteRelocation => exact all_map (promoteRelocation_advancing h)
  | finishRelocationCleanup => exact all_map (finishRelocationCleanup_advancing h)
  | _ =>
    -- the others set a node or a relocation
    refine Edit.KeepsRanges.advancing (all_map ?_) h
    repeat' first
      | refine all_checked trivial fun _ _ => ?_
      | split
      | exact ⟨rfl, rfl, rfl⟩
      | trivial

end BicDb.Distribution
