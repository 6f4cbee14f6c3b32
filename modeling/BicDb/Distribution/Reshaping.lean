import BicDb.Distribution.Edits

/-!
# Splitting, merging and moving ranges

The edits that make or remove a range or a replica keep a valid topology valid, and the loops that
apply a plan succeed on what their checks let through.
-/

namespace BicDb.Distribution

open BicDb.Foundation OrderedMap ClusterTopology List RangeDescriptor

/-! ## Layouts -/

theorem hasVoter_iff {range : RangeDescriptor} {nodeId : ClusterNodeId} :
    range.hasVoter nodeId = true ↔ (nodeId, RangeReplicaRole.voter) ∈ range.layout := by
  simp [hasVoter, layout, and_comm]

theorem hasReplica_iff {range : RangeDescriptor} {nodeId : ClusterNodeId} :
    range.hasReplica nodeId = true ↔ nodeId ∈ range.replicas.map (·.nodeId) := by
  simp [hasReplica]

theorem RangeOk.of_layout {nodes : Nodes} {range range' : RangeDescriptor} (h : RangeOk nodes range)
    (hlayout : range'.layout = range.layout) (hleader : range'.leader = range.leader)
    (hplacement : range'.placement = range.placement) (hid : range'.id ≠ 0)
    (hepoch : range'.epoch ≠ 0) (hinterval : ∀ stop ∈ range'.endToken, range'.startToken < stop)
    (hids : (range'.replicas.map (·.id)).Nodup) : RangeOk nodes range' := by
  have hnodes : range'.replicas.map (·.nodeId) = range.replicas.map (·.nodeId) := by
    simpa [layout, Function.comp_def] using congrArg (map Prod.fst) hlayout
  refine ⟨hid, hepoch, hinterval, hplacement ▸ h.placement, fun hnil => ?_, ?_, hids,
    hnodes ▸ h.replicaNodes, ?_⟩
  · rw [hnil, map_nil, eq_comm, map_eq_nil_iff] at hnodes
    exact h.replicas_ne hnodes
  · intro replica hreplica
    have hmem : replica.nodeId ∈ range.replicas.map (·.nodeId) :=
      hnodes ▸ mem_map_of_mem hreplica
    obtain ⟨old, hold, heq⟩ := mem_map.1 hmem
    exact heq ▸ h.hosts old hold
  · rw [hasVoter_iff, hlayout, hleader, ← hasVoter_iff]
    exact h.leader

/-! ## Splitting -/

theorem copyReplicas_eq {next last : Nat} {replicas copies : List RangeReplica}
    (h : copyReplicas next replicas = (some copies, last)) :
    last = next + replicas.length ∧ copies.map (·.id) = List.range' next replicas.length ∧
      copies.map (fun replica => (replica.nodeId, replica.role)) =
        replicas.map fun replica => (replica.nodeId, replica.role) := by
  induction replicas generalizing next copies with
  | nil =>
    cases h
    exact ⟨rfl, rfl, rfl⟩
  | cons replica rest ih =>
    unfold copyReplicas at h
    split at h
    · cases h
    rename_i next' hnext
    obtain ⟨-, rfl⟩ := checkedSucc_eq_some.1 hnext
    split at h
    · cases h
    rename_i copies' last' hrest
    cases h
    obtain ⟨hlast, hids, hlayout⟩ := ih hrest
    refine ⟨by rw [hlast, length_cons]; omega, ?_, ?_⟩
    · rw [map_cons, hids, length_cons, range'_succ]
    · rw [map_cons, hlayout, map_cons]

section Split

variable {topology : ClusterTopology} {start splitToken epoch last newId : Nat}
  {original : RangeDescriptor} {copies : List RangeReplica}

theorem exchange_split {ranges : Ranges} (h : MapOk ranges)
    (hentry : (start, original) ∈ ranges.entries)
    (hafter : original.startToken < splitToken)
    (hbefore : ∀ stop ∈ original.endToken, splitToken < stop)
    (hfresh : ∀ range ∈ ranges.values, range.id ≠ newId) :
    Exchange ranges
      ((ranges.insert start (splitLeft original splitToken epoch)).insert splitToken
        (splitRight original newId splitToken epoch copies))
      [(start, original)]
      [(start, splitLeft original splitToken epoch),
        (splitToken, splitRight original newId splitToken epoch copies)] := by
  obtain ⟨before, after, heq⟩ := append_of_mem hentry
  have hkey : start = original.startToken := h.keys _ hentry
  refine ⟨⟨before, after, heq, ?_⟩, cons_ne_nil _ _, ?_, ?_, ?_, ?_⟩
  · obtain ⟨hpre, -⟩ := lt_of_entries_eq heq
    have hleft : (ranges.insert start (splitLeft original splitToken epoch)).entries =
        (before ++ [(start, splitLeft original splitToken epoch)]) ++ after := by
      rw [OrderedMap.entries_insert_of_mem heq, append_assoc, singleton_append]
    rw [entries_insert_between hleft, append_assoc]
    · rfl
    · exact forall_mem_append.2 ⟨fun entry hmem => (hpre entry hmem).trans (hkey ▸ hafter),
        forall_mem_singleton.2 (hkey ▸ hafter)⟩
    · -- what follows the range starts at its end or later
      intro entry hmem
      have htiled := h.tiled
      rw [values, heq, map_append, map_cons] at htiled
      obtain ⟨stop, hstop, hle⟩ := htiled.le_lo_of_mem (mem_map_of_mem hmem)
      have hstart := h.keys entry (heq ▸ mem_append_right _ (mem_cons_of_mem _ hmem))
      exact (hbefore stop hstop).trans_le (hle.trans_eq hstart.symm)
  · simpa [splitLeft, splitRight] using hkey
  · intro start' rest htiled
    exact @Tiles.split _ _ _ _ _ _ _ _ _ [] _ _ htiled hafter hbefore rfl rfl rfl rfl
  · have hne := hfresh original (mem_values_iff.2 ⟨start, hentry⟩)
    simpa [splitLeft, splitRight] using hne
  · simpa [splitLeft, splitRight] using .inr hfresh

/-- The topology that a split commits. -/
def ClusterTopology.afterSplit (topology : ClusterTopology) (start splitToken epoch last : Nat)
    (original : RangeDescriptor) (copies : List RangeReplica) : ClusterTopology :=
  { topology with
    nextRangeId := topology.nextRangeId + 1
    nextReplicaId := last
    ranges := (topology.ranges.insert start (splitLeft original splitToken epoch)).insert splitToken
      (splitRight original topology.nextRangeId splitToken epoch copies) }

/-- A split keeps the topology valid. -/
theorem TopologyOk.split (h : TopologyOk topology)
    (hentry : (start, original) ∈ topology.ranges.entries)
    (hidle : Idle topology.relocations original.id) (hafter : original.startToken < splitToken)
    (hbefore : ∀ stop ∈ original.endToken, splitToken < stop) (hepoch : epoch ≠ 0)
    (hcopies : copyReplicas topology.nextReplicaId original.replicas = (some copies, last)) :
    TopologyOk (topology.afterSplit start splitToken epoch last original copies) := by
  have hmap := h.ranges.toMapOk
  have hmem : original ∈ topology.ranges.values := mem_values_iff.2 ⟨start, hentry⟩
  have horiginal := h.ranges.each original hmem
  have hex := @exchange_split _ _ epoch _ _ copies _ hmap hentry hafter hbefore
    fun range hrange => (h.rangeIds range hrange).ne
  obtain ⟨rfl, hcopyIds, hlayout⟩ := copyReplicas_eq hcopies
  -- the ids of the copies come after all that have been given out
  have hcopy : ∀ id ∈ copies.map (·.id), topology.nextReplicaId ≤ id ∧
      id < topology.nextReplicaId + original.replicas.length := by
    intro id hid
    rwa [hcopyIds, mem_range'_1] at hid
  have hcopyNodup : (copies.map (·.id)).Nodup := hcopyIds ▸ nodup_range'
  have hleft : RangeOk topology.nodes (splitLeft original splitToken epoch) :=
    horiginal.of_layout rfl rfl rfl horiginal.id_ne hepoch (by simpa [splitLeft] using hafter)
      horiginal.replicaIds
  have hright : RangeOk topology.nodes
      (splitRight original topology.nextRangeId splitToken epoch copies) :=
    horiginal.of_layout hlayout rfl rfl h.nextRangeId hepoch hbefore hcopyNodup
  have hnewIds : replicaIdsOf [splitLeft original splitToken epoch,
      splitRight original topology.nextRangeId splitToken epoch copies] =
      original.replicas.map (·.id) ++ copies.map (·.id) := by
    simp [replicaIdsOf, splitLeft, splitRight]
  refine h.exchange hex ?_ ?_ ?_ (Nat.le_succ _) (Nat.le_add_right _ _) h.nextRelocationId
    h.relocationIds h.relocationBound { h.relocations with each := fun entry hentry' => ?_ }
  · have hlt := h.rangeIds original hmem
    exact forall_mem_cons.2 ⟨⟨hleft, hlt.trans (Nat.lt_succ_self _)⟩,
      forall_mem_singleton.2 ⟨hright, Nat.lt_succ_self _⟩⟩
  · rw [map_cons, map_cons, map_nil, hnewIds, nodup_append']
    refine ⟨horiginal.replicaIds, hcopyNodup, fun id hid hid' => ?_⟩
    exact absurd (h.replicaIds id (mem_flatMap.2 ⟨original, hmem, hid⟩))
      (not_lt.2 (hcopy id hid').1)
  · intro id hid
    rw [map_cons, map_cons, map_nil, hnewIds, mem_append] at hid
    refine hid.imp (fun hid => ?_) (hcopy id)
    simpa [replicaIdsOf] using hid
  · refine hex.relocationOk hmap (h.relocations.each entry hentry') fun hphase => ?_
    simpa using fun heq => hphase (hidle entry hentry' heq)

end Split

/-! ## Merging -/

section Merge

variable {topology : ClusterTopology} {ranges : Ranges} {left right : Nat × RangeDescriptor}
  {merged : RangeDescriptor}

theorem exchange_merge (h : MapOk ranges) (hleft : left ∈ ranges.entries)
    (hright : right ∈ ranges.entries) (hlt : left.1 < right.1)
    (hmeet : left.2.endToken = some right.2.startToken) (hid : merged.id = left.2.id)
    (hstart : merged.startToken = left.2.startToken) (hstop : merged.endToken = right.2.endToken) :
    Exchange ranges ((ranges.insert left.1 merged).erase right.1) [left, right]
      [(left.1, merged)] := by
  -- two ranges that meet stand next to each other in the map
  obtain ⟨before, after, heq⟩ :
      ∃ before after, ranges.entries = before ++ left :: right :: after := by
    obtain ⟨before, after, heq⟩ := append_of_mem hleft
    have hafter : right ∈ after := by
      rw [heq, mem_append, mem_cons] at hright
      rcases hright with hmem | rfl | hmem
      · exact absurd ((lt_of_entries_eq heq).1 right hmem) (not_lt.2 hlt.le)
      · exact absurd hlt (lt_irrefl _)
      · exact hmem
    cases after with
    | nil => cases hafter
    | cons next after =>
      have htiled := h.tiled
      rw [values, heq, map_append, map_cons, map_cons] at htiled
      have hnext : next ∈ ranges.entries := by simp [heq]
      have hstart := htiled.lo_next
      rw [hmeet, Option.some.injEq] at hstart
      have hkey := (h.keys next hnext).trans (hstart.symm.trans (h.keys right hright).symm)
      exact ⟨before, after, inj_on_of_nodup_map ranges.keys_nodup hnext hright hkey ▸ heq⟩
  have hinsert := @OrderedMap.entries_insert_of_mem _ _ _ _ _ _ _ _ merged heq
  have herase : ((ranges.insert left.1 merged).erase right.1).entries =
      (before ++ [(left.1, merged)]) ++ after := by
    refine entries_erase_of_mem (v := right.2) ?_
    rw [hinsert, append_assoc, singleton_append]
  refine ⟨⟨before, after, by rw [heq]; rfl, by rw [herase, append_assoc]⟩,
    cons_ne_nil _ _, ?_, ?_, nodup_singleton _, ?_⟩
  · simpa using (h.keys left hleft).trans hstart.symm
  · intro start rest htiled
    exact @Tiles.join _ _ _ _ _ _ _ _ _ [] _ htiled hstart hstop
  · simp [hid]

/-- A merge keeps the topology valid. -/
theorem TopologyOk.merge (h : TopologyOk topology) (hleft : left ∈ topology.ranges.entries)
    (hright : right ∈ topology.ranges.entries) (hlt : left.1 < right.1)
    (hmeet : left.2.endToken = some right.2.startToken) (hid : merged.id = left.2.id)
    (hstart : merged.startToken = left.2.startToken) (hstop : merged.endToken = right.2.endToken)
    (hreplicas : merged.replicas = left.2.replicas) (hleader : merged.leader = left.2.leader)
    (hplacement : merged.placement = left.2.placement) (hepoch : merged.epoch ≠ 0)
    (hidle : Idle topology.relocations left.2.id) (hidle' : Idle topology.relocations right.2.id) :
    TopologyOk { topology with
      ranges := (topology.ranges.insert left.1 merged).erase right.1 } := by
  have hmap := h.ranges.toMapOk
  have hex := exchange_merge hmap hleft hright hlt hmeet hid hstart hstop
  have hleftMem := mem_values_iff.2 ⟨left.1, hleft⟩
  have hleftOk := h.ranges.each left.2 hleftMem
  have hrightOk := h.ranges.each right.2 (mem_values_iff.2 ⟨right.1, hright⟩)
  have hinterval : ∀ stop ∈ merged.endToken, merged.startToken < stop := by
    intro stop hmem
    rw [hstop] at hmem
    rw [hstart]
    exact (hleftOk.interval _ hmeet).trans (hrightOk.interval stop hmem)
  have hids : merged.replicas.map (·.id) = left.2.replicas.map (·.id) := by rw [hreplicas]
  have hmerged : RangeOk topology.nodes merged :=
    hleftOk.of_layout (by rw [layout, hreplicas]; rfl) hleader hplacement
      (hid ▸ hleftOk.id_ne) hepoch hinterval (hids ▸ hleftOk.replicaIds)
  refine h.exchange hex (forall_mem_singleton.2 ⟨hmerged, hid ▸ h.rangeIds left.2 hleftMem⟩)
    (by simpa [replicaIdsOf] using hmerged.replicaIds) (fun id hmem => .inl ?_)
      (le_refl _) (le_refl _)
    h.nextRelocationId h.relocationIds h.relocationBound { h.relocations with each := ?_ }
  · simp only [replicaIdsOf, map_cons, map_nil, flatMap_cons, flatMap_nil, append_nil] at hmem ⊢
    exact mem_append_left _ (hids ▸ hmem)
  · intro entry hentry
    refine hex.relocationOk hmap (h.relocations.each entry hentry) fun hphase hmem => ?_
    simp only [map_cons, map_nil, mem_cons, not_mem_nil, or_false] at hmem
    rcases hmem with heq | heq
    · exact hphase (hidle entry hentry heq)
    · exact hphase (hidle' entry hentry heq)

end Merge

/-! ## Dropping completed relocations -/

/-- The same relocations but for completed ones. -/
def SameInProgress (relocations relocations' : Relocations) : Prop :=
  ∀ entry : RelocationId × RangeRelocation, entry.2.phase ≠ .completed →
    (entry ∈ relocations'.entries ↔ entry ∈ relocations.entries)

theorem SameInProgress.idle {relocations relocations' : Relocations}
    (h : SameInProgress relocations relocations') {rangeId : RangeId}
    (hidle : Idle relocations rangeId) : Idle relocations' rangeId := by
  intro entry hentry hrange
  by_contra hphase
  exact hphase (hidle entry ((h entry hphase).1 hentry) hrange)

theorem RelocationsOk.erase {ranges : Ranges} {relocations : Relocations}
    (h : RelocationsOk ranges relocations) (id : RelocationId) :
    RelocationsOk ranges (relocations.erase id) :=
  ⟨fun entry hentry => h.keys entry (mem_erase_iff.1 hentry).1,
    fun entry hentry => h.each entry (mem_erase_iff.1 hentry).1,
    h.apart.sublist filter_sublist⟩

/-- Eviction drops completed relocations only, and enough of them where it can. -/
theorem evictCompleted_spec {ranges : Ranges} {incoming : Nat}
    {entries : List (RelocationId × RangeRelocation)} {relocations relocations' : Relocations}
    {enough : Bool} (h : evictCompleted incoming entries relocations = (enough, relocations'))
    (hentries : entries.Sublist relocations.entries) :
    (∀ entry ∈ relocations'.entries, entry ∈ relocations.entries) ∧
      SameInProgress relocations relocations' ∧
      (RelocationsOk ranges relocations → RelocationsOk ranges relocations') ∧
      relocations'.size ≤ relocations.size ∧
      (enough = true → relocations'.size + incoming ≤ defaultRelocationHistoryLimit) ∧
      (enough = false → ∀ entry ∈ entries, entry.2.phase = .completed →
        entry ∉ relocations'.entries) := by
  induction entries generalizing relocations with
  | nil =>
    cases h
    exact ⟨fun _ h => h, fun _ _ => Iff.rfl, id, le_refl _, of_decide_eq_true, fun _ _ => nofun⟩
  | cons entry rest ih =>
    have hmem : entry ∈ relocations.entries := hentries.subset mem_cons_self
    unfold evictCompleted at h
    split_ifs at h with hroom hcompleted
    · cases h
      exact ⟨fun _ h => h, fun _ _ => Iff.rfl, id, le_refl _, fun _ => hroom, nofun⟩
    · -- the entry is dropped: what is left to look at is in what is left
      have hsize := size_erase_of_get? (get?_eq_some_iff.2 hmem)
      have hrest : rest.Sublist (relocations.erase entry.1).entries := by
        have hkeys := (hentries.map Prod.fst).nodup relocations.keys_nodup
        have hothers : ∀ other ∈ rest, decide (other.1 ≠ entry.1) = true := by
          intro other hother
          refine decide_eq_true fun heq => (nodup_cons.1 hkeys).1 ?_
          exact heq ▸ mem_map_of_mem hother
        rw [← filter_eq_self.2 hothers]
        exact ((sublist_cons_self entry rest).trans hentries).filter _
      obtain ⟨hsub, hsame, hok, hle, hfits, hgone⟩ := ih h hrest
      refine ⟨fun other hother => (mem_erase_iff.1 (hsub other hother)).1, ?_,
        fun h => hok (h.erase entry.1), by omega, hfits, fun hfailed =>
          forall_mem_cons.2 ⟨fun _ hin => (mem_erase_iff.1 (hsub entry hin)).2 rfl, hgone hfailed⟩⟩
      intro other hphase
      rw [hsame other hphase, mem_erase_iff]
      refine ⟨And.left, fun hother => ⟨hother, fun hkey => hphase ?_⟩⟩
      rwa [inj_on_of_nodup_map relocations.keys_nodup hother hmem hkey]
    · obtain ⟨hsub, hsame, hok, hle, hfits, hgone⟩ :=
        ih h ((sublist_cons_self entry rest).trans hentries)
      exact ⟨hsub, hsame, hok, hle, hfits, fun hfailed =>
        forall_mem_cons.2 ⟨fun hphase => absurd hphase hcompleted, hgone hfailed⟩⟩

theorem evictCompleted_of_room {incoming : Nat} {entries : List (RelocationId × RangeRelocation)}
    {relocations : Relocations}
    (h : relocations.size + incoming ≤ defaultRelocationHistoryLimit) :
    evictCompleted incoming entries relocations = (true, relocations) := by
  cases entries with
  | nil => rw [evictCompleted, decide_eq_true h]
  | cons => rw [evictCompleted, if_pos h]

/-- Only completed relocations are dropped. -/
theorem evictCompleted_of_active {incoming : Nat} {entries : List (RelocationId × RangeRelocation)}
    {relocations : Relocations} (h : ∀ entry ∈ entries, entry.2.phase ≠ .completed) :
    (evictCompleted incoming entries relocations).2 = relocations := by
  induction entries with
  | nil => rfl
  | cons entry rest ih =>
    rw [forall_mem_cons] at h
    unfold evictCompleted
    split_ifs with hroom hcompleted
    · rfl
    · exact absurd hcompleted h.1
    · exact ih h.2

/-! ## Handing over leadership -/

/-- Every range is still there, at its epoch or a later one. -/
def EpochsGrow (ranges ranges' : Ranges) : Prop :=
  ∀ range ∈ ranges.values, ∃ range' ∈ ranges'.values,
    range'.id = range.id ∧ range.epoch ≤ range'.epoch

/-- The range with its new leader. -/
def handOver (transfer : PlannedLeaderTransfer) (epoch : Nat) (range : RangeDescriptor) :
    RangeDescriptor :=
  { range with leader := transfer.target, epoch := epoch }

/-- The transfers that a plan makes at once. -/
def madeAtOnce (immediate : List RangeId) (transfers : List PlannedLeaderTransfer) :
    List PlannedLeaderTransfer :=
  transfers.filter fun transfer => transfer.rangeId ∈ immediate

/-- A range after the transfers made of it: the last one names the leader, each raises the epoch. -/
def handedOver (made : List PlannedLeaderTransfer) (range : RangeDescriptor) : RangeDescriptor :=
  let own := made.filter fun transfer => transfer.rangeId = range.id
  { range with
    leader := (own.getLast?.map (·.target)).getD range.leader
    epoch := range.epoch + own.length }

variable {topology topology' : ClusterTopology} {range : RangeDescriptor} {rangeId : RangeId}
  {f : RangeDescriptor → RangeDescriptor} {immediate : List RangeId}
  {transfers : List PlannedLeaderTransfer}

theorem handedOver_cons (transfer : PlannedLeaderTransfer) (rest : List PlannedLeaderTransfer) :
    handedOver (transfer :: rest) range = handedOver rest (if range.id = transfer.rangeId then
      handOver transfer (range.epoch + 1) range else range) := by
  by_cases hid : range.id = transfer.rangeId
  · simp only [handedOver, handOver, filter_cons, hid, decide_true, if_true, getLast?_cons,
      length_cons, Option.map_some, Option.getD_some]
    congr 1
    · omega
    · cases (rest.filter fun other => decide (other.rangeId = transfer.rangeId)).getLast? <;> rfl
  · simp only [handedOver, filter_cons, Ne.symm hid, decide_false, Bool.false_eq_true,
      if_false, hid]

theorem EpochsGrow.trans {ranges ranges' ranges'' : Ranges} (h : EpochsGrow ranges ranges')
    (h' : EpochsGrow ranges' ranges'') : EpochsGrow ranges ranges'' := by
  intro range hr
  obtain ⟨range', hr', hid, hle⟩ := h range hr
  obtain ⟨range'', hr'', hid', hle'⟩ := h' range' hr'
  exact ⟨range'', hr'', hid'.trans hid, hle.trans hle'⟩

section Ids

variable (hids : (topology.ranges.values.map (·.id)).Nodup)

include hids

theorem ranges_modifyRange : (topology.modifyRange rangeId f).ranges =
    topology.ranges.mapValues fun _ range => if range.id = rangeId then f range else range :=
  OrderedMap.modifyWhere_eq_mapValues hids rangeId f

theorem mem_modifyRange (hr : range ∈ topology.ranges.values) :
    (if range.id = rangeId then f range else range) ∈
      (topology.modifyRange rangeId f).ranges.values := by
  rw [ranges_modifyRange hids, values_mapValues]
  exact mem_map_of_mem hr

theorem ids_modifyRange (hf : ∀ range, (f range).id = range.id) :
    ((topology.modifyRange rangeId f).ranges.values.map (·.id)) =
      topology.ranges.values.map (·.id) := by
  rw [ranges_modifyRange hids, values_mapValues, map_map]
  refine map_congr_left fun range _ => ?_
  simp only [Function.comp_apply]
  split_ifs
  · exact hf range
  · rfl

theorem ne_of_epoch_lt (hr : range ∈ topology.ranges.values) {range' : RangeDescriptor}
    (hr' : range' ∈ topology'.ranges.values) (hid : range'.id = range.id)
    (hlt : range.epoch < range'.epoch) : topology' ≠ topology := by
  rintro rfl
  have hsame := inj_on_of_nodup_map hids hr' hr hid
  subst hsame
  exact lt_irrefl _ hlt

/-- An edit of a range that leaves the range as it is leaves the topology as it is. -/
theorem modifyRange_eq_iff (hr : range ∈ topology.ranges.values)
    (hf : (f range).id = range.id) : topology.modifyRange range.id f = topology ↔
      f range = range := by
  constructor
  · intro h
    have hmem := @mem_modifyRange _ _ range.id f hids hr
    rw [if_pos rfl, h] at hmem
    exact inj_on_of_nodup_map hids hmem hr hf
  · intro h
    have hranges : (topology.modifyRange range.id f).ranges = topology.ranges := by
      rw [ranges_modifyRange hids]
      apply OrderedMap.ext
      refine (map_congr_left fun entry hentry => ?_).trans (map_id _)
      dsimp only
      split_ifs with hid
      · have hsame := inj_on_of_nodup_map hids (mem_values_iff.2 ⟨entry.1, hentry⟩) hr hid
        rw [hsame, h, ← hsame]
        rfl
      · rfl
    exact congrArg (fun ranges => { topology with ranges := ranges }) hranges

theorem nodup_handOver {transfer : PlannedLeaderTransfer} {epoch : Nat} :
    ((topology.modifyRange rangeId (handOver transfer epoch)).ranges.values.map (·.id)).Nodup := by
  have hsame := @ids_modifyRange _ rangeId (handOver transfer epoch) hids fun _ => rfl
  rwa [hsame]

theorem epochsGrow_modifyRange (hf : ∀ range ∈ topology.ranges.values, range.id = rangeId →
      (f range).id = range.id ∧ range.epoch ≤ (f range).epoch) :
    EpochsGrow topology.ranges (topology.modifyRange rangeId f).ranges := by
  intro range hr
  refine ⟨_, mem_modifyRange hids hr, ?_⟩
  split_ifs with hid
  · exact hf range hr hid
  · exact ⟨rfl, le_refl _⟩

end Ids

/-- Transfers change ranges only, whether they all fit or not. -/
theorem applyTransfers_frame {made : Bool}
    (h : applyTransfers immediate transfers topology = (made, topology')) :
    topology' = { topology with ranges := topology'.ranges } := by
  induction transfers generalizing topology with
  | nil =>
    cases h
    rfl
  | cons transfer rest ih =>
    unfold applyTransfers at h
    split_ifs at h
    · split at h
      · exact ih h
      · split at h
        · cases h
          rfl
        · have hrest := ih h
          exact hrest
    · exact ih h

theorem epochsGrow_applyTransfers {made : Bool}
    (hids : (topology.ranges.values.map (·.id)).Nodup)
    (h : applyTransfers immediate transfers topology = (made, topology')) :
    EpochsGrow topology.ranges topology'.ranges := by
  induction transfers generalizing topology with
  | nil =>
    cases h
    exact fun range hr => ⟨range, hr, rfl, le_refl _⟩
  | cons transfer rest ih =>
    unfold applyTransfers at h
    split_ifs at h
    · split at h
      · exact ih hids h
      · rename_i found hfind
        obtain ⟨hr, hid⟩ := (find?_eq_some_iff_of_nodup hids).1 hfind
        split at h
        · cases h
          exact epochsGrow_modifyRange hids fun _ _ _ => ⟨rfl, le_refl _⟩
        · rename_i epoch hepoch
          have hstep : EpochsGrow topology.ranges
              (topology.modifyRange transfer.rangeId (handOver transfer epoch)).ranges := by
            refine epochsGrow_modifyRange hids fun range hrange heq => ⟨rfl, ?_⟩
            rw [inj_on_of_nodup_map hids hrange hr (heq.trans hid.symm)]
            exact (Nat.le_succ _).trans_eq (checkedSucc_eq_some.1 hepoch).2.symm
          exact hstep.trans (ih (nodup_handOver hids) h)
    · exact ih hids h

/-- What the transfers have made of the ranges when all of them fit. -/
theorem applyTransfers_eq (hids : (topology.ranges.values.map (·.id)).Nodup)
    (h : applyTransfers immediate transfers topology = (true, topology')) :
    topology'.ranges = topology.ranges.mapValues fun _ =>
      handedOver (madeAtOnce immediate transfers) := by
  unfold madeAtOnce
  induction transfers generalizing topology with
  | nil =>
    cases h
    exact (OrderedMap.ext (map_id _)).symm
  | cons transfer rest ih =>
    unfold applyTransfers at h
    split_ifs at h with hnow
    · rw [filter_cons_of_pos (by simpa using hnow)]
      split at h
      · rename_i hfind
        rw [ih hids h]
        apply OrderedMap.ext
        refine map_congr_left fun entry hentry => ?_
        have hother := find?_eq_none.1 hfind entry.2 (mem_values_iff.2 ⟨entry.1, hentry⟩)
        simp only [handedOver_cons]
        rw [if_neg (by simpa using hother)]
      · rename_i found hfind
        obtain ⟨hr, hid⟩ := (find?_eq_some_iff_of_nodup hids).1 hfind
        split at h
        · cases h
        · rename_i epoch hepoch
          have hrest := @ih (topology.modifyRange transfer.rangeId (handOver transfer epoch))
            (nodup_handOver hids) h
          rw [hrest, ranges_modifyRange hids]
          apply OrderedMap.ext
          simp only [OrderedMap.mapValues, map_map]
          refine map_congr_left fun entry hentry => ?_
          simp only [Function.comp_apply, handedOver_cons]
          split_ifs with heq
          · -- the range found is this one
            rw [inj_on_of_nodup_map hids (mem_values_iff.2 ⟨entry.1, hentry⟩) hr
              (heq.trans hid.symm), (checkedSucc_eq_some.1 hepoch).2]
          · rfl
    · rw [filter_cons_of_neg (by simpa using hnow)]
      exact ih hids h

theorem applyTransfers_of_none
    (h : (transfers.find? fun transfer => transfer.rangeId ∈ immediate) = none) :
    applyTransfers immediate transfers topology = (true, topology) := by
  induction transfers with
  | nil => rfl
  | cons transfer rest ih =>
    have hnow :
        transfer.rangeId ∉ immediate := by simpa using find?_eq_none.1 h transfer mem_cons_self
    rw [find?_cons_of_neg (by simpa using hnow)] at h
    rw [applyTransfers, if_neg hnow, ih h]

/-- The first transfer finds its range, at an epoch that can be raised or not. -/
theorem applyTransfers_of_some {transfer : PlannedLeaderTransfer} {made : Bool}
    (hids : (topology.ranges.values.map (·.id)).Nodup)
    (hfirst : (transfers.find? fun transfer => transfer.rangeId ∈ immediate) = some transfer)
    (hrange : topology.rangeById transfer.rangeId = some range)
    (h : applyTransfers immediate transfers topology = (made, topology')) :
    if range.epoch < u64Max then topology' ≠ topology
    else made = false ∧ (topology' = topology ↔ range.leader = transfer.target) := by
  induction transfers with
  | nil => cases hfirst
  | cons first rest ih =>
    by_cases hnow : first.rangeId ∈ immediate
    · rw [find?_cons_of_pos (by simpa using hnow)] at hfirst
      cases hfirst
      obtain ⟨hr, hid⟩ := (find?_eq_some_iff_of_nodup hids).1 hrange
      rw [applyTransfers, if_pos hnow, hrange] at h
      simp only at h
      split_ifs with hlt
      · rw [checkedSucc_of_lt hlt] at h
        simp only at h
        obtain ⟨range', hr', hid', hle⟩ := @epochsGrow_applyTransfers
          (topology.modifyRange transfer.rangeId (handOver transfer (range.epoch + 1))) _ _ _ _
          (nodup_handOver hids) h _ (mem_modifyRange hids hr)
        rw [if_pos hid] at hid' hle
        exact ne_of_epoch_lt hids hr hr' hid' hle
      · rw [checkedSucc_eq_none.2 (not_lt.1 hlt)] at h
        simp only [Prod.mk.injEq] at h
        obtain ⟨rfl, rfl⟩ := h
        refine ⟨rfl, ?_⟩
        rw [← hid, modifyRange_eq_iff hids hr rfl]
        constructor
        · intro h
          exact (congrArg RangeDescriptor.leader h).symm
        · rintro h
          rw [← h]
    · rw [find?_cons_of_neg (by simpa using hnow)] at hfirst
      rw [applyTransfers, if_neg hnow] at h
      exact ih hfirst h

/-- No relocation of the range is on its way: a failed one does not hold its epoch. -/
def Settled (relocations : Relocations) (rangeId : RangeId) : Prop :=
  ∀ entry ∈ relocations.entries, entry.2.rangeId = rangeId →
    entry.2.phase = .completed ∨ entry.2.phase = .failed

/-- The ranges get other leaders and epochs. -/
theorem TopologyOk.handedOver {made : List PlannedLeaderTransfer} (h : TopologyOk topology)
    (hsettled : ∀ transfer ∈ made, Settled topology.relocations transfer.rangeId)
    (hvoter : ∀ range ∈ topology.ranges.values,
      range.hasVoter (handedOver made range).leader = true) :
    TopologyOk { topology with
      ranges := topology.ranges.mapValues fun _ => Distribution.handedOver made } := by
  have hmap := h.ranges.toMapOk
  have hvalues := values_mapValues (Distribution.handedOver made) topology.ranges
  have hfind : ∀ rangeId, ((topology.ranges.mapValues fun _ =>
      Distribution.handedOver made).values.find? fun range => range.id = rangeId) =
        (topology.ranges.values.find? fun range => range.id = rangeId).map
          (Distribution.handedOver made) := by
    intro rangeId
    rw [hvalues, find?_map]
    rfl
  have hids : replicaIdsOf (topology.ranges.mapValues fun _ =>
      Distribution.handedOver made).values = replicaIdsOf topology.ranges.values := by
    rw [hvalues, replicaIdsOf, flatMap_map]
    rfl
  refine { h with
    ranges := ⟨⟨?_, ?_, ?_⟩, by rw [hids]; exact h.ranges.replicaIds, ?_⟩
    rangeIds := ?_
    replicaIds := by rw [hids]; exact h.replicaIds
    relocations := { h.relocations with each := fun entry hentry => ?_ } }
  · exact forall_mem_map.2 hmap.keys
  · rw [hvalues]
    exact hmap.tiled.map (fun _ => rfl) fun _ => rfl
  · rw [hvalues, map_map]
    exact hmap.rangeIds
  · rw [hvalues, forall_mem_map]
    intro range hr
    have hok := h.ranges.each range hr
    have hepoch := hok.epoch_ne
    exact { hok with
      epoch_ne := by simp only [Distribution.handedOver]; omega
      leader := hvoter range hr }
  · rw [hvalues, forall_mem_map]
    exact h.rangeIds
  · have hold := h.relocations.each entry hentry
    refine { hold with active := fun hphase => ?_ }
    obtain ⟨range, target, hrange, htarget, hagainst⟩ := hold.active hphase
    refine ⟨Distribution.handedOver made range, target, by rw [hfind, hrange]; rfl, htarget,
      { hagainst with epoch := ?_ }⟩
    obtain ⟨hr, hid⟩ := (find?_eq_some_iff_of_nodup hmap.rangeIds).1 hrange
    -- a range that is handed over has no relocation on its way, so none that holds its epoch
    rcases hown : made.filter fun transfer => transfer.rangeId = range.id with _ | ⟨transfer, _⟩
    · have hepoch := hagainst.epoch
      unfold EpochOk at hepoch ⊢
      simpa [Distribution.handedOver, hown] using hepoch
    · obtain ⟨hmem, heq⟩ := mem_filter.1 (hown ▸ mem_cons_self (a := transfer))
      rcases hsettled transfer hmem entry hentry
        (hid.symm.trans (of_decide_eq_true heq).symm) with hdone | hfailed
      · exact absurd hdone hphase
      · simp [EpochOk, hfailed]

/-! ## Allocating learners -/

/-- What the checks of a plan give for a move. -/
structure MoveFits (topology : ClusterTopology) (movement : PlannedReplicaMove) : Prop where
  expectedEpoch : movement.expectedEpoch ≠ 0
  idle : Idle topology.relocations movement.rangeId
  hosts : Hosts topology.nodes movement.target
  range : ∃ range ∈ topology.ranges.values, range.id = movement.rangeId ∧
    range.hasReplica movement.target = false

/-- The range with a learner. -/
def withLearner (replicaId : ReplicaId) (target : ClusterNodeId) (epoch : Nat)
    (range : RangeDescriptor) : RangeDescriptor :=
  { range with epoch := epoch, replicas := range.replicas ++ [⟨replicaId, target, .learner⟩] }

theorem RangeOk.withLearner {nodes : Nodes} {replicaId : ReplicaId} {target : ClusterNodeId}
    {epoch : Nat} (h : RangeOk nodes range) (hepoch : epoch ≠ 0)
    (hhosts : Hosts nodes target) (hnew : range.hasReplica target = false)
    (hid : replicaId ∉ range.replicas.map (·.id)) :
    RangeOk nodes (withLearner replicaId target epoch range) := by
  have hnode : target ∉ range.replicas.map (·.nodeId) := by
    rw [← hasReplica_iff, hnew]
    exact Bool.false_ne_true
  refine ⟨h.id_ne, hepoch, h.interval, h.placement, by simp [Distribution.withLearner], ?_, ?_, ?_,
    ?_⟩
  · exact forall_mem_append.2 ⟨h.hosts, forall_mem_singleton.2 hhosts⟩
  · simp only [Distribution.withLearner, map_append, map_cons, map_nil]
    exact nodup_append'.2 ⟨h.replicaIds, nodup_singleton _, by simpa using hid⟩
  · simp only [Distribution.withLearner, map_append, map_cons, map_nil]
    exact nodup_append'.2 ⟨h.replicaNodes, nodup_singleton _, by simpa using hnode⟩
  · rw [hasVoter_iff]
    simp only [Distribution.withLearner, layout, map_append]
    exact mem_append_left _ (hasVoter_iff.1 h.leader)

variable {planId : String} {epoch nowMs : Nat} {movement : PlannedReplicaMove}

theorem RelocationsOk.start {ranges ranges' : Ranges} {relocations : Relocations}
    {new : RangeRelocation} (h : RelocationsOk ranges relocations)
    (hlast : ∀ entry ∈ relocations.entries, entry.1 < new.id) (hidle : Idle relocations new.rangeId)
    (hnew : RelocationOk ranges' new)
    (hothers : ∀ entry ∈ relocations.entries, RelocationOk ranges' entry.2) :
    RelocationsOk ranges' (relocations.insert new.id new) := by
  refine ⟨forall_mem_insert rfl h.keys, forall_mem_insert hnew hothers, ?_⟩
  have hnil : relocations.entries = relocations.entries ++ [] := (append_nil _).symm
  rw [entries_insert_between hnil hlast fun _ hentry => absurd hentry not_mem_nil]
  refine pairwise_append.2 ⟨h.apart, pairwise_singleton _ _, ?_⟩
  intro before hbefore after hafter hactive _ hrange
  rw [mem_singleton.1 hafter] at hrange
  exact isActive_iff.1 hactive (hidle before hbefore hrange)

theorem ranges_allocateLearner (hid : range.id = movement.rangeId) :
    (topology.allocateLearner planId nowMs movement epoch).ranges =
      modified topology.ranges range
        (withLearner topology.nextReplicaId movement.target epoch) := by
  simp only [allocateLearner, setRelocation, modifyRange, modified, hid]
  rfl

/-- A new learner keeps the topology valid. -/
theorem TopologyOk.allocateLearner (h : TopologyOk topology) (hplan : planId ≠ "")
    (hepoch : epoch ≠ 0) (hfits : MoveFits topology movement)
    (hbound : topology.relocations.size < defaultRelocationHistoryLimit) :
    TopologyOk (topology.allocateLearner planId nowMs movement epoch) := by
  obtain ⟨hexpected, hidle, hhosts, range, hr, hid, hnew⟩ := hfits
  have hmap := h.ranges.toMapOk
  have hok := (h.ranges.each range hr).withLearner hepoch hhosts hnew fun hmem =>
    absurd (h.replicaIds _ (mem_flatMap.2 ⟨range, hr, hmem⟩)) (lt_irrefl _)
  have hplace : SamePlace range (withLearner topology.nextReplicaId movement.target epoch range) :=
    ⟨rfl, rfl, rfl⟩
  have hids : ∀ replica ∈ (withLearner topology.nextReplicaId movement.target epoch range).replicas,
      replica.id ∈ range.replicas.map (·.id) ∨ topology.nextReplicaId ≤ replica.id ∧
        replica.id < topology.nextReplicaId + 1 := forall_mem_append.2
    ⟨fun replica hmem => .inl (mem_map_of_mem hmem),
      forall_mem_singleton.2 (.inr ⟨le_refl _, Nat.lt_succ_self _⟩)⟩
  have hstart := @RelocationsOk.start _
    (modified topology.ranges range (withLearner topology.nextReplicaId movement.target epoch)) _
    (newRelocation planId nowMs movement topology.nextRelocationId topology.nextReplicaId epoch)
    h.relocations h.relocationIds hidle ?_ fun entry hentry => ?_
  · have hall := h.exchangeOne hr hplace hok hids (Nat.le_succ _) (Nat.succ_ne_zero _)
      (forall_mem_insert (Nat.lt_succ_self _) fun entry hmem =>
        (h.relocationIds entry hmem).trans (Nat.lt_succ_self _))
      ((size_insert_le _ _ _).trans (Nat.succ_le_of_lt hbound)) hstart
    rwa [modified, hid] at hall
  · -- the new relocation is valid for the range that has its learner
    refine ⟨h.nextRelocationId, hexpected, hepoch, hplan, nofun, fun _ =>
      ⟨_, ⟨topology.nextReplicaId, movement.target, .learner⟩,
        (find?_eq_some_iff_of_nodup (hmap.modify hr hplace).rangeIds).2
          ⟨(mem_modified hmap hr).2 (.inl rfl), hid⟩,
        (find?_eq_some_iff_of_nodup hok.replicaIds).2
          ⟨mem_append_right _ (mem_singleton_self _), rfl⟩, ?_⟩⟩
    exact ⟨rfl, by simp [newRelocation, RangeRelocation.expectedRole],
      by simp [EpochOk, newRelocation, withLearner], nofun, fun _ => rfl, by simp [newRelocation],
      nofun⟩
  · refine (h.relocations.each entry hentry).modify hmap hr hplace fun heq hphase => ?_
    exact absurd (hidle entry hentry (heq.trans hid)) hphase

/-- What allocating learners leaves: numbers only grow, relocations and leaders stay, and the new
replicas do not vote. -/
structure Learns (topology topology' : ClusterTopology) : Prop where
  frame : topology' = { topology with
    nextReplicaId := topology'.nextReplicaId, nextRelocationId := topology'.nextRelocationId
    ranges := topology'.ranges, relocations := topology'.relocations }
  replicaIds : topology.nextReplicaId ≤ topology'.nextReplicaId
  relocationIds : topology.nextRelocationId ≤ topology'.nextRelocationId
  relocations : ∀ entry ∈ topology.relocations.entries, entry.1 < topology.nextRelocationId →
    entry ∈ topology'.relocations.entries
  rangeIds : topology'.ranges.values.map (·.id) = topology.ranges.values.map (·.id)
  ranges : ∀ range ∈ topology.ranges.values, ∃ range' ∈ topology'.ranges.values,
    range'.id = range.id ∧ range'.leader = range.leader ∧ range.epoch ≤ range'.epoch ∧
      ∀ nodeId, range'.hasVoter nodeId = true → range.hasVoter nodeId = true

theorem Learns.trans {topology'' : ClusterTopology} (h : Learns topology topology')
    (h' : Learns topology' topology'') : Learns topology topology'' := by
  refine ⟨?_, h.replicaIds.trans h'.replicaIds, h.relocationIds.trans h'.relocationIds,
    fun entry hentry hlt => h'.relocations entry (h.relocations entry hentry hlt)
      (hlt.trans_le h.relocationIds), h'.rangeIds.trans h.rangeIds, fun range hr => ?_⟩
  · have hframe := h'.frame
    rw [h.frame] at hframe
    exact hframe
  · obtain ⟨range', hr', hid, hleader, hepoch, hvoter⟩ := h.ranges range hr
    obtain ⟨range'', hr'', hid', hleader', hepoch', hvoter'⟩ := h'.ranges range' hr'
    exact ⟨range'', hr'', hid'.trans hid, hleader'.trans hleader, hepoch.trans hepoch',
      fun nodeId hvotes => hvoter nodeId (hvoter' nodeId hvotes)⟩

/-- Ids are taken and nothing else is done. -/
theorem learns_of_ids {replicaId relocationId : Nat} (hreplica : topology.nextReplicaId ≤ replicaId)
    (hrelocation : topology.nextRelocationId ≤ relocationId) :
    Learns topology { topology with
      nextReplicaId := replicaId, nextRelocationId := relocationId } :=
  ⟨rfl, hreplica, hrelocation, fun _ hentry _ => hentry, rfl,
    fun range hr => ⟨range, hr, rfl, rfl, le_refl _, fun _ => id⟩⟩

theorem learns_allocateLearner (hids : (topology.ranges.values.map (·.id)).Nodup)
    (hrange : topology.rangeById movement.rangeId = some range) :
    Learns topology (topology.allocateLearner planId nowMs movement (range.epoch + 1)) := by
  obtain ⟨hr, hid⟩ := (find?_eq_some_iff_of_nodup hids).1 hrange
  refine ⟨rfl, Nat.le_succ _, Nat.le_succ _, fun entry hentry hlt => ?_, ?_, fun other hother => ?_⟩
  · exact mem_insert_iff.2 (.inr ⟨hentry, hlt.ne⟩)
  · exact @ids_modifyRange topology movement.rangeId
      (withLearner topology.nextReplicaId movement.target (range.epoch + 1)) hids fun _ => rfl
  · refine ⟨_, @mem_modifyRange topology _ movement.rangeId
      (withLearner topology.nextReplicaId movement.target (range.epoch + 1)) hids hother, ?_⟩
    split_ifs with heq
    · rw [inj_on_of_nodup_map hids hother hr (heq.trans hid.symm)]
      refine ⟨rfl, rfl, Nat.le_succ _, fun nodeId hvotes => ?_⟩
      simpa [hasVoter, withLearner] using hvotes
    · exact ⟨rfl, rfl, le_refl _, fun _ => id⟩

/-- The loop over the moves learns, and takes a replica id where there is one to take. -/
theorem applyMoves_learns {moves : List PlannedReplicaMove}
    {result : Except BicDbError (List RelocationId)}
    (hids : (topology.ranges.values.map (·.id)).Nodup)
    (h : applyMoves planId nowMs moves topology = (result, topology')) :
    Learns topology topology' ∧ (u64Max ≤ topology.nextReplicaId → topology' = topology) ∧
      (moves ≠ [] → topology.nextReplicaId < u64Max →
        topology.nextReplicaId < topology'.nextReplicaId) := by
  induction moves generalizing topology result with
  | nil =>
    cases h
    exact ⟨learns_of_ids (le_refl _) (le_refl _), fun _ => rfl, fun hne => absurd rfl hne⟩
  | cons movement rest ih =>
    unfold applyMoves at h
    split at h
    · rename_i hfull
      cases h
      have hmax := checkedSucc_eq_none.1 hfull
      exact ⟨learns_of_ids (le_refl _) (le_refl _), fun _ => rfl,
        fun _ hlt => absurd hlt (not_lt.2 hmax)⟩
    rename_i nextReplicaId hreplica
    obtain ⟨hlt, rfl⟩ := checkedSucc_eq_some.1 hreplica
    -- from here on a replica id has been taken
    suffices hlearns : Learns topology topology' ∧
        topology.nextReplicaId + 1 ≤ topology'.nextReplicaId from
      ⟨hlearns.1, fun hmax => absurd hlt (not_lt.2 hmax), fun _ _ => hlearns.2⟩
    split at h
    · cases h
      exact ⟨learns_of_ids (Nat.le_succ _) (le_refl _), le_refl _⟩
    rename_i nextRelocationId hrelocation
    obtain ⟨-, rfl⟩ := checkedSucc_eq_some.1 hrelocation
    have htaken := @learns_of_ids topology _ _ (Nat.le_succ _) (Nat.le_succ _)
    split at h
    · obtain ⟨hlearns, -, -⟩ := ih (htaken.rangeIds.symm ▸ hids) h
      exact ⟨htaken.trans hlearns, hlearns.replicaIds⟩
    rename_i range hrange
    split at h
    · cases h
      exact ⟨htaken, le_refl _⟩
    rename_i epoch hepoch
    obtain ⟨-, rfl⟩ := checkedSucc_eq_some.1 hepoch
    have hallocated := @learns_allocateLearner _ _ planId nowMs _ hids hrange
    split at h <;>
    · rename_i hrest
      cases h
      obtain ⟨hlearns, -, -⟩ := ih (hallocated.rangeIds.symm ▸ hids) hrest
      exact ⟨hallocated.trans hlearns, hlearns.replicaIds⟩

/-- The moves of a plan keep the topology valid. -/
theorem applyMoves_valid {moves : List PlannedReplicaMove} {ids : List RelocationId}
    (h : TopologyOk topology) (hplan : planId ≠ "")
    (hfits : ∀ movement ∈ moves, MoveFits topology movement)
    (hdistinct : (moves.map (·.rangeId)).Nodup)
    (hbound : topology.relocations.size + moves.length ≤ defaultRelocationHistoryLimit)
    (happly : applyMoves planId nowMs moves topology = (.ok ids, topology')) :
    TopologyOk topology' := by
  induction moves generalizing topology ids with
  | nil =>
    cases happly
    exact h
  | cons movement rest ih =>
    rw [length_cons] at hbound
    have hmap := h.ranges.toMapOk
    have hthis := hfits movement mem_cons_self
    obtain ⟨hnotin, hrestDistinct⟩ := nodup_cons.1 hdistinct
    obtain ⟨range, hr, hid, hnew⟩ := hthis.range
    unfold applyMoves at happly
    split at happly
    · cases happly
    split at happly
    · cases happly
    rw [(rangeById_eq_some hmap).2 ⟨hr, hid⟩] at happly
    simp only at happly
    split at happly
    · cases happly
    rename_i epoch hepoch
    obtain ⟨-, rfl⟩ := checkedSucc_eq_some.1 hepoch
    have hok := @TopologyOk.allocateLearner _ _ (range.epoch + 1) nowMs _ h hplan
      (Nat.succ_ne_zero _) hthis (by omega)
    have hrestFits : ∀ other ∈ rest, MoveFits
        (topology.allocateLearner planId nowMs movement (range.epoch + 1)) other := by
      -- it is a move of another range
      intro other hother
      have hne : other.rangeId ≠ movement.rangeId :=
        fun heq => hnotin (mem_map.2 ⟨other, hother, heq⟩)
      obtain ⟨hexpected, hidle, hhosts, found, hfound, hfoundId, hnew⟩ :=
        hfits other (mem_cons_of_mem _ hother)
      refine ⟨hexpected, forall_mem_insert (fun heq => absurd heq.symm hne) hidle,
        hhosts, found, ?_, hfoundId, hnew⟩
      rw [ranges_allocateLearner hid]
      exact (mem_modified hmap hr).2
        (.inr ⟨hfound, fun heq => hne (hfoundId.symm.trans (heq.trans hid))⟩)
    have hsize : (topology.allocateLearner planId nowMs movement
        (range.epoch + 1)).relocations.size ≤ topology.relocations.size + 1 :=
      size_insert_le _ _ _
    split at happly
    · cases happly
    · rename_i hrest
      cases happly
      exact ih hok hrestFits hrestDistinct (by omega) hrest

end BicDb.Distribution
