import BicDb.Distribution.Store
import BicDb.Distribution.Validity

/-!
# Edits that keep a topology valid

Setting a node or a relocation, changing, splitting or merging ranges, starting a relocation: when
each keeps a valid topology valid.
-/

namespace BicDb.Distribution

open BicDb.Foundation OrderedMap List ClusterTopology RangeRelocation

/-! ## What holds of every way out of an operation -/

variable {topology : ClusterTopology} {rangeId : RangeId} {range : RangeDescriptor}

namespace Edit

variable {α β : Type} {onRefuse onCommit : ClusterTopology → Prop}

/-- What an edit may leave on refusal and on commit. -/
def All (onRefuse onCommit : ClusterTopology → Prop) : Edit α → Prop
  | .refuse _ topology => onRefuse topology
  | .answer _ => True
  | .commit topology _ _ _ _ => onCommit topology

theorem all_checked {check : Except BicDbError β} {rest : β → Edit α} (h : onRefuse topology)
    (hrest : ∀ value, check = .ok value → (rest value).All onRefuse onCommit) :
    (checked topology check rest).All onRefuse onCommit := by
  cases check with
  | error _ => exact h
  | ok value => exact hrest value rfl

theorem all_map {edit : Edit α} {f : α → β} (h : edit.All onRefuse onCommit) :
    (edit.map f).All onRefuse onCommit := by
  cases edit <;> exact h

end Edit

/-! ## Lookups -/

theorem rangeById_eq_some (h : MapOk topology.ranges) :
    topology.rangeById rangeId = some range ↔ range ∈ topology.ranges.values ∧ range.id = rangeId :=
  find?_eq_some_iff_of_nodup h.rangeIds

theorem knownRange_eq_ok (h : MapOk topology.ranges) :
    topology.knownRange rangeId = .ok range ↔
      range ∈ topology.ranges.values ∧ range.id = rangeId := by
  rw [← rangeById_eq_some h, knownRange]
  cases topology.rangeById rangeId <;> simp

theorem knownNode_eq_ok {nodeId : ClusterNodeId} {node : ClusterNode} :
    topology.knownNode nodeId = .ok node ↔ topology.nodes.get? nodeId = some node := by
  rw [knownNode]
  cases topology.nodes.get? nodeId <;> simp

theorem knownRelocation_eq_ok {relocationId : RelocationId} {relocation : RangeRelocation} :
    topology.knownRelocation relocationId = .ok relocation ↔
      topology.relocations.get? relocationId = some relocation := by
  rw [knownRelocation]
  cases topology.relocations.get? relocationId <;> simp

theorem rangeEntry_eq_ok {entry : Nat × RangeDescriptor}
    (h : topology.rangeEntry rangeId = .ok entry) :
    entry ∈ topology.ranges.entries ∧ entry.2.id = rangeId := by
  unfold rangeEntry at h
  split at h
  · cases h
  · rename_i found hfind
    cases h
    exact ⟨mem_of_find?_eq_some hfind, by simpa using find?_some hfind⟩

/-- No relocation of the range is on its way. -/
def Idle (relocations : Relocations) (rangeId : RangeId) : Prop :=
  ∀ entry ∈ relocations.entries, entry.2.rangeId = rangeId → entry.2.phase = .completed

theorem isActive_iff {relocation : RangeRelocation} :
    relocation.isActive = true ↔ relocation.phase ≠ .completed := by
  simp [isActive]

theorem isRelocating_eq_false :
    topology.isRelocating rangeId = false ↔ Idle topology.relocations rangeId := by
  unfold isRelocating Idle
  rw [any_eq_false]
  constructor
  · intro h entry hentry hrange
    have := h entry.2 (mem_values_iff.2 ⟨entry.1, hentry⟩)
    simpa [hrange, isActive] using this
  · intro h relocation hmem
    obtain ⟨id, hentry⟩ := mem_values_iff.1 hmem
    have := h (id, relocation) hentry
    simpa [isActive] using this

theorem ensureNoRelocation_eq_ok {action : String} :
    topology.ensureNoRelocation action rangeId = .ok () ↔ Idle topology.relocations rangeId := by
  rw [← isRelocating_eq_false, isRelocating, ensureNoRelocation,
    activeRelocationForRange, any_eq_false]
  cases hfind : topology.relocations.values.find? fun relocation =>
      decide (relocation.rangeId = rangeId) && relocation.isActive with
  | none => simpa using hfind
  | some relocation =>
    have hfound := find?_some hfind
    simp only [reduceCtorEq, false_iff]
    intro h
    exact h relocation (mem_of_find?_eq_some hfind) hfound

/-! ## Recording a change -/

theorem HistoryOk.drop {generation : Nat} {history : List TopologyChange}
    (h : HistoryOk generation history) (n : Nat) : HistoryOk generation (history.drop n) :=
  ⟨fun change hmem => h.bounds change (mem_of_mem_drop hmem),
    h.ordered.sublist (drop_sublist n history)⟩

theorem TopologyOk.recordChange (h : TopologyOk topology) (actor : ClusterNodeId) (nowMs : Nat)
    (summary : String) (limit : Nat) :
    TopologyOk (topology.recordChange actor nowMs summary limit) := by
  have hsucc := le_checkedSucc_getD topology.generation
  have hne : (checkedSucc topology.generation).getD topology.generation ≠ 0 := by
    have := h.generation
    omega
  refine { h with generation := hne, history := HistoryOk.drop ⟨?_, ?_⟩ _ }
  · refine forall_mem_append.2 ⟨fun change hmem => ?_, forall_mem_singleton.2 ⟨hne, le_refl _⟩⟩
    exact (h.history.bounds change hmem).imp_right hsucc.trans'
  · refine pairwise_append.2 ⟨h.history.ordered, pairwise_singleton _ _, ?_⟩
    intro before hbefore after hafter
    rw [mem_singleton.1 hafter]
    exact (h.history.bounds before hbefore).2.trans hsucc

/-! ## Setting a node -/

variable {nodes : Nodes} {id : ClusterNodeId} {node : ClusterNode}

theorem Hosts.insert {nodeId : ClusterNodeId} (h : Hosts nodes nodeId)
    (hrole : nodeId = id → node.metadataRole = .voter) :
    Hosts (nodes.insert id node) nodeId := by
  obtain ⟨host, hget, hvoter⟩ := h
  by_cases hid : nodeId = id
  · exact ⟨node, by rw [get?_insert, if_pos hid], hrole hid⟩
  · exact ⟨host, by rw [get?_insert, if_neg hid, hget], hvoter⟩

theorem any_voter_insert (h : nodes.values.any ClusterNode.isMetadataVoter = true)
    (hvoter : ∀ old, nodes.get? id = some old → old.isMetadataVoter = true →
      node.isMetadataVoter = true) :
    (nodes.insert id node).values.any ClusterNode.isMetadataVoter = true := by
  obtain ⟨voter, hmem, hvotes⟩ := any_eq_true.1 h
  obtain ⟨key, hentry⟩ := mem_values_iff.1 hmem
  rw [any_eq_true]
  by_cases hkey : key = id
  · subst hkey
    refine ⟨node, mem_values_iff.2 ⟨key, mem_insert_iff.2 (.inl rfl)⟩, ?_⟩
    exact hvoter voter (get?_eq_some_iff.2 hentry) hvotes
  · exact ⟨voter, mem_values_iff.2 ⟨key, mem_insert_iff.2 (.inr ⟨hentry, hkey⟩)⟩, hvotes⟩

theorem TopologyOk.setNode (h : TopologyOk topology) (hnode : NodeOk id node)
    (hrole : ∀ range ∈ topology.ranges.values, range.hasReplica id = true →
      node.metadataRole = .voter)
    (hvoter : (topology.nodes.insert id node).values.any ClusterNode.isMetadataVoter = true) :
    TopologyOk (topology.setNode id node) := by
  have hnodes : NodesOk (topology.nodes.insert id node) := by
    refine ⟨ne_nil_of_mem (mem_insert_iff.2 (.inl rfl)), hvoter,
      forall_mem_insert hnode h.nodes.each⟩
  refine { h with
    nodes := hnodes
    ranges :=
      { h.ranges with each := fun range hr => { h.ranges.each range hr with hosts := ?_ } } }
  intro replica hreplica
  refine ((h.ranges.each range hr).hosts replica hreplica).insert fun heq => hrole range hr ?_
  exact any_eq_true.2 ⟨replica, hreplica, by simpa using heq⟩

/-! ## Exchanging a piece of the range map -/

theorem nodup_exchange {α : Type} {before old new after : List α}
    (h : (before ++ (old ++ after)).Nodup) (hnew : new.Nodup)
    (hids : ∀ a ∈ new, a ∈ old ∨ a ∉ before ++ (old ++ after)) :
    (before ++ (new ++ after)).Nodup := by
  simp only [nodup_append', disjoint_append_right, mem_append] at h hids ⊢
  obtain ⟨hbefore, ⟨-, hafter, holdAfter⟩, hbeforeOld, hbeforeAfter⟩ := h
  refine ⟨hbefore, ⟨hnew, hafter, fun a ha ha' => ?_⟩, fun a ha ha' => ?_, hbeforeAfter⟩
  · rcases hids a ha with hold | hfresh
    · exact holdAfter hold ha'
    · exact hfresh (.inr (.inr ha'))
  · rcases hids a ha' with hold | hfresh
    · exact hbeforeOld ha hold
    · exact hfresh (.inl ha)

/-- `ranges'` is `ranges` with `old` exchanged for `new`, over the same tokens and without an id of
another range. -/
structure Exchange (ranges ranges' : Ranges) (old new : List (Nat × RangeDescriptor)) : Prop where
  entries : ∃ before after, ranges.entries = before ++ (old ++ after) ∧
    ranges'.entries = before ++ (new ++ after)
  nonempty : old ≠ []
  keys : ∀ entry ∈ new, entry.1 = entry.2.startToken
  tiles : ∀ start rest, TokensTiled start (old.map Prod.snd ++ rest) →
    TokensTiled start (new.map Prod.snd ++ rest)
  rangeIds : (new.map (·.2.id)).Nodup
  newIds : ∀ entry ∈ new, entry.2.id ∈ old.map (·.2.id) ∨
    ∀ range ∈ ranges.values, range.id ≠ entry.2.id

namespace Exchange

variable {ranges ranges' : Ranges} {old new : List (Nat × RangeDescriptor)}

variable (h : Exchange ranges ranges' old new)

include h

theorem mapOk (hmap : MapOk ranges) : MapOk ranges' := by
  obtain ⟨before, after, heq, heq'⟩ := h.entries
  obtain ⟨hkeys, htiled, hids⟩ := hmap
  have hnew := h.newIds
  simp only [values] at htiled hids hnew
  rw [heq] at hkeys htiled hids hnew
  refine ⟨?_, ?_, ?_⟩
  · rw [heq']
    intro entry hentry
    simp only [mem_append] at hentry hkeys
    rcases hentry with hmem | hmem | hmem
    · exact hkeys entry (.inl hmem)
    · exact h.keys entry hmem
    · exact hkeys entry (.inr (.inr hmem))
  · rw [values, heq', map_append, map_append]
    rw [map_append, map_append] at htiled
    exact htiled.replace_tail (fun start => h.tiles start _) (by simp [h.nonempty])
  · rw [values, heq']
    simp only [map_append, map_map] at hids ⊢
    refine nodup_exchange hids h.rangeIds fun id hid => ?_
    obtain ⟨entry, hentry, rfl⟩ := mem_map.1 hid
    refine (hnew entry hentry).imp id fun hne hmem => ?_
    simp only [← map_append] at hmem
    obtain ⟨other, hother, heqId⟩ := mem_map.1 hmem
    exact hne other.2 (mem_map_of_mem hother) heqId

theorem mem_iff (hmap : MapOk ranges) {range : RangeDescriptor} :
    range ∈ ranges'.values ↔ range ∈ new.map Prod.snd ∨
      (range ∈ ranges.values ∧ range.id ∉ old.map (·.2.id)) := by
  obtain ⟨before, after, heq, heq'⟩ := h.entries
  have hids := hmap.rangeIds
  simp only [values, heq, heq', map_append, map_map, nodup_append', disjoint_append_right] at hids ⊢
  obtain ⟨-, ⟨-, -, holdAfter⟩, hbeforeOld, -⟩ := hids
  simp only [mem_append]
  constructor
  · rintro (hmem | hmem | hmem)
    · refine .inr ⟨.inl hmem, fun hold => hbeforeOld ?_ hold⟩
      obtain ⟨entry, hentry, rfl⟩ := mem_map.1 hmem
      exact mem_map.2 ⟨entry, hentry, rfl⟩
    · exact .inl hmem
    · refine .inr ⟨.inr (.inr hmem), fun hold => holdAfter hold ?_⟩
      obtain ⟨entry, hentry, rfl⟩ := mem_map.1 hmem
      exact mem_map.2 ⟨entry, hentry, rfl⟩
  · rintro (hmem | ⟨hmem | hmem | hmem, hnot⟩)
    · exact .inr (.inl hmem)
    · exact .inl hmem
    · obtain ⟨entry, hentry, rfl⟩ := mem_map.1 hmem
      exact absurd (mem_map.2 ⟨entry, hentry, rfl⟩) hnot
    · exact .inr (.inr hmem)

theorem mem_of_mem_old {entry : Nat × RangeDescriptor} (hentry : entry ∈ old) :
    entry ∈ ranges.entries := by
  obtain ⟨before, after, heq, -⟩ := h.entries
  rw [heq]
  exact mem_append_right _ (mem_append_left _ hentry)

theorem rangesOk (hok : RangesOk nodes ranges) (heach : ∀ entry ∈ new, RangeOk nodes entry.2)
    (hreplicas : (replicaIdsOf (new.map Prod.snd)).Nodup)
    (hids : ∀ id ∈ replicaIdsOf (new.map Prod.snd), id ∈ replicaIdsOf (old.map Prod.snd) ∨
      id ∉ replicaIdsOf ranges.values) : RangesOk nodes ranges' := by
  refine { h.mapOk hok.toMapOk with replicaIds := ?_, each := fun range hrange => ?_ }
  · obtain ⟨before, after, heq, heq'⟩ := h.entries
    have hnodup := hok.replicaIds
    simp only [values, heq, heq', map_append, replicaIdsOf_append] at hnodup hids ⊢
    exact nodup_exchange hnodup hreplicas hids
  · rcases (h.mem_iff hok.toMapOk).1 hrange with hnew | ⟨hmem, -⟩
    · obtain ⟨entry, hentry, rfl⟩ := mem_map.1 hnew
      exact heach entry hentry
    · exact hok.each range hmem

theorem relocationOk (hmap : MapOk ranges) {relocation : RangeRelocation}
    (hok : RelocationOk ranges relocation)
    (hother : relocation.phase ≠ .completed → relocation.rangeId ∉ old.map (·.2.id)) :
    RelocationOk ranges' relocation := by
  refine { hok with active := fun hphase => ?_ }
  obtain ⟨range, target, hfind, htarget, hagainst⟩ := hok.active hphase
  obtain ⟨hmem, hid⟩ := (find?_eq_some_iff_of_nodup hmap.rangeIds).1 hfind
  refine ⟨range, target, ?_, htarget, hagainst⟩
  refine (find?_eq_some_iff_of_nodup (h.mapOk hmap).rangeIds).2 ⟨?_, hid⟩
  exact (h.mem_iff hmap).2 (.inr ⟨hmem, hid ▸ hother hphase⟩)

end Exchange

/-- A piece of the range map is exchanged for valid ranges, with the relocations that go with it. -/
theorem TopologyOk.exchange {ranges' : Ranges} {old new : List (Nat × RangeDescriptor)}
    {relocations' : Relocations} {n r k : Nat} (h : TopologyOk topology)
    (hex : Exchange topology.ranges ranges' old new)
    (heach : ∀ entry ∈ new, RangeOk topology.nodes entry.2 ∧ entry.2.id < n)
    (hnodup : (replicaIdsOf (new.map Prod.snd)).Nodup)
    (hids : ∀ id ∈ replicaIdsOf (new.map Prod.snd), id ∈ replicaIdsOf (old.map Prod.snd) ∨
      topology.nextReplicaId ≤ id ∧ id < r)
    (hn : topology.nextRangeId ≤ n) (hr : topology.nextReplicaId ≤ r) (hk : k ≠ 0)
    (hlast : ∀ entry ∈ relocations'.entries, entry.1 < k)
    (hbound : relocations'.size ≤ defaultRelocationHistoryLimit)
    (hrelocations : RelocationsOk ranges' relocations') :
    TopologyOk { topology with
      nextRangeId := n, nextReplicaId := r, nextRelocationId := k, ranges := ranges'
      relocations := relocations' } := by
  have hmap := h.ranges.toMapOk
  refine { h with
    nextRangeId := ((Nat.pos_of_ne_zero h.nextRangeId).trans_le hn).ne'
    nextReplicaId := ((Nat.pos_of_ne_zero h.nextReplicaId).trans_le hr).ne'
    nextRelocationId := hk, rangeIds := fun range hrange => ?_, replicaIds := fun id hid => ?_
    ranges :=
      hex.rangesOk h.ranges (fun entry hentry => (heach entry hentry).1) hnodup fun id hid =>
      (hids id hid).imp_right fun hnew hold => absurd (h.replicaIds id hold) (not_lt.2 hnew.1)
    relocationIds := hlast, relocationBound := hbound, relocations := hrelocations }
  · rcases (hex.mem_iff hmap).1 hrange with hnew | ⟨hold, -⟩
    · obtain ⟨entry, hentry, rfl⟩ := mem_map.1 hnew
      exact (heach entry hentry).2
    · exact (h.rangeIds range hold).trans_le hn
  · have hthere : ∀ range ∈ topology.ranges.values, ∀ replica ∈ range.replicas, replica.id < r :=
      fun range hrange replica hreplica =>
        (h.replicaIds _ (mem_replicaIdsOf.2 ⟨range, hrange, replica, hreplica, rfl⟩)).trans_le hr
    obtain ⟨range, hrange, replica, hreplica, rfl⟩ := mem_replicaIdsOf.1 hid
    rcases (hex.mem_iff hmap).1 hrange with hnew | ⟨hold, -⟩
    · rcases hids _ (mem_replicaIdsOf.2 ⟨range, hnew, replica, hreplica, rfl⟩) with hold | hfresh
      · obtain ⟨range', hrange', replica', hreplica', heq⟩ := mem_replicaIdsOf.1 hold
        obtain ⟨entry, hentry, rfl⟩ := mem_map.1 hrange'
        exact heq ▸ hthere entry.2 (mem_values_iff.2 ⟨entry.1, hex.mem_of_mem_old hentry⟩) replica'
          hreplica'
      · exact hfresh.2
    · exact hthere range hold replica hreplica

/-! ## Changing a range in place -/

/-- The change keeps the id and the interval. -/
structure SamePlace (range range' : RangeDescriptor) : Prop where
  id : range'.id = range.id
  start : range'.startToken = range.startToken
  stop : range'.endToken = range.endToken

/-- The ranges with one changed. -/
abbrev modified (ranges : Ranges) (range : RangeDescriptor)
    (f : RangeDescriptor → RangeDescriptor) : Ranges :=
  ranges.modifyWhere (fun other => decide (other.id = range.id)) f

variable {ranges ranges' : Ranges} {f : RangeDescriptor → RangeDescriptor}

theorem exchange_modified (h : MapOk ranges) (hr : range ∈ ranges.values)
    (hplace : SamePlace range (f range)) :
    ∃ key, Exchange ranges (modified ranges range f) [(key, range)] [(key, f range)] := by
  obtain ⟨before, key, after, heq, heq'⟩ :=
    @OrderedMap.exists_split_of_key _ _ _ _ _ RangeDescriptor.id _ _ h.rangeIds hr f
  have hkey : key = range.startToken :=
    h.keys (key, range) (heq ▸ mem_append_right _ mem_cons_self)
  refine ⟨key, ⟨⟨before, after, heq, heq'⟩, cons_ne_nil _ _, ?_, ?_, ?_, ?_⟩⟩
  · simpa using hkey.trans hplace.start.symm
  · intro start rest htiled
    exact @Tiles.replace _ _ _ _ _ _ _ _ [] _ htiled hplace.start hplace.stop
  · exact nodup_singleton _
  · simp [hplace.id]

theorem MapOk.modify (h : MapOk ranges) (hr : range ∈ ranges.values)
    (hplace : SamePlace range (f range)) : MapOk (modified ranges range f) := by
  obtain ⟨key, hex⟩ := exchange_modified h hr hplace
  exact hex.mapOk h

theorem mem_modified (h : MapOk ranges) (hr : range ∈ ranges.values) {other : RangeDescriptor} :
    other ∈ (modified ranges range f).values ↔
      other = f range ∨ (other ∈ ranges.values ∧ other.id ≠ range.id) :=
  @OrderedMap.mem_values_modifyWhere _ _ _ _ _ RangeDescriptor.id _ _ h.rangeIds hr _ _

/-- A relocation of another range, or of one whose replicas and epoch stay. -/
theorem RelocationOk.modify {relocation : RangeRelocation} (h : RelocationOk ranges relocation)
    (hmap : MapOk ranges) (hr : range ∈ ranges.values) (hplace : SamePlace range (f range))
    (hsame : relocation.rangeId = range.id → relocation.phase ≠ .completed →
      (f range).epoch = range.epoch ∧ (f range).replicas = range.replicas) :
    RelocationOk (modified ranges range f) relocation := by
  by_cases hrange : relocation.rangeId = range.id
  · refine { h with active := fun hphase => ?_ }
    obtain ⟨found, target, hfind, htarget, hagainst⟩ := h.active hphase
    obtain ⟨hmem, hid⟩ := (find?_eq_some_iff_of_nodup hmap.rangeIds).1 hfind
    obtain ⟨hepoch, hreplicas⟩ := hsame hrange hphase
    have hfound : found = range :=
      inj_on_of_nodup_map hmap.rangeIds hmem hr (hid.trans hrange)
    subst hfound
    refine ⟨f found, target, ?_, by rw [hreplicas]; exact htarget, ?_⟩
    · exact (find?_eq_some_iff_of_nodup (hmap.modify hr hplace).rangeIds).2
        ⟨(mem_modified hmap hr).2 (.inl rfl), hplace.id.trans hid⟩
    · refine { hagainst with epoch := ?_ }
      have := hagainst.epoch
      unfold EpochOk at this ⊢
      rw [hepoch]
      exact this
  · obtain ⟨key, hex⟩ := exchange_modified hmap hr hplace
    exact hex.relocationOk hmap h fun _ => by simpa using hrange

theorem TopologyOk.exchangeOne {relocations' : Relocations} {r k : Nat} (h : TopologyOk topology)
    (hr : range ∈ topology.ranges.values) (hplace : SamePlace range (f range))
    (hok : RangeOk topology.nodes (f range))
    (hids : ∀ replica ∈ (f range).replicas, replica.id ∈ range.replicas.map (·.id) ∨
      topology.nextReplicaId ≤ replica.id ∧ replica.id < r)
    (hle : topology.nextReplicaId ≤ r) (hk : k ≠ 0)
    (hlast : ∀ entry ∈ relocations'.entries, entry.1 < k)
    (hbound : relocations'.size ≤ defaultRelocationHistoryLimit)
    (hrelocations : RelocationsOk (modified topology.ranges range f) relocations') :
    TopologyOk { topology with
      nextReplicaId := r, nextRelocationId := k, ranges := modified topology.ranges range f
      relocations := relocations' } := by
  obtain ⟨key, hex⟩ := exchange_modified h.ranges.toMapOk hr hplace
  refine h.exchange hex ?_ ?_ ?_ (le_refl _) hle hk hlast hbound hrelocations
  · simpa [hplace.id] using ⟨hok, h.rangeIds range hr⟩
  · simpa [replicaIdsOf] using hok.replicaIds
  · simpa [replicaIdsOf] using hids

/-- A range changes in place and keeps its replica ids and what its relocation needs. -/
theorem TopologyOk.modifyRange (h : TopologyOk topology) (hr : range ∈ topology.ranges.values)
    (hplace : SamePlace range (f range)) (hok : RangeOk topology.nodes (f range))
    (hids : ∀ replica ∈ (f range).replicas, replica.id ∈ range.replicas.map (·.id))
    (hsame : ¬ Idle topology.relocations range.id →
      (f range).epoch = range.epoch ∧ (f range).replicas = range.replicas) :
    TopologyOk (topology.modifyRange range.id f) := by
  refine h.exchangeOne hr hplace hok
    (fun replica hreplica => .inl (hids replica hreplica)) (le_refl _)
    h.nextRelocationId h.relocationIds h.relocationBound
    { h.relocations with each := fun entry hentry => ?_ }
  refine (h.relocations.each entry hentry).modify h.ranges.toMapOk hr hplace
    fun hrange hphase => hsame fun hidle => hphase (hidle entry hentry hrange)

/-! ## Setting a relocation -/

variable {relocations : Relocations} {id : RelocationId} {old new : RangeRelocation}

theorem RelocationsOk.set (h : RelocationsOk ranges relocations)
    (hget : relocations.get? id = some old) (hid : new.id = old.id)
    (hrange : new.rangeId = old.rangeId)
    (hactive : new.isActive = true → old.isActive = true) (hnew : RelocationOk ranges' new)
    (hothers : ∀ entry ∈ relocations.entries, entry.1 ≠ id → RelocationOk ranges' entry.2) :
    RelocationsOk ranges' (relocations.insert id new) := by
  have hmem := get?_eq_some_iff.1 hget
  refine ⟨forall_mem_insert ((h.keys (id, old) hmem).trans hid.symm) h.keys, ?_, ?_⟩
  · intro entry hentry
    rcases mem_insert_iff.1 hentry with rfl | ⟨hold, hne⟩
    · exact hnew
    · exact hothers entry hold hne
  · obtain ⟨pre, post, heq⟩ := exists_split_of_get? hget
    have hapart := h.apart
    rw [entries_insert_of_mem heq]
    rw [heq, pairwise_append, pairwise_cons] at hapart
    obtain ⟨hpre, ⟨hold, hpost⟩, hcross⟩ := hapart
    refine pairwise_append.2 ⟨hpre, pairwise_cons.2 ⟨fun entry hentry => ?_, hpost⟩, ?_⟩
    · exact fun ha hb => hrange ▸ hold entry hentry (hactive ha) hb
    · intro before hbefore entry hentry
      rcases mem_cons.1 hentry with rfl | hentry
      · exact fun ha hb => hrange ▸ hcross before hbefore (id, old) mem_cons_self ha (hactive hb)
      · exact hcross before hbefore entry (mem_cons_of_mem _ hentry)

theorem TopologyOk.setRelocation (h : TopologyOk topology)
    (hget : topology.relocations.get? id = some old) (hid : new.id = old.id)
    (hrange : new.rangeId = old.rangeId)
    (hactive : new.isActive = true → old.isActive = true)
    (hnew : RelocationOk topology.ranges new) : TopologyOk (topology.setRelocation id new) := by
  exact { h with
    relocationIds := forall_mem_insert (h.relocationIds (id, old) (get?_eq_some_iff.1 hget))
      h.relocationIds
    relocationBound := (size_insert_of_get? hget).trans_le h.relocationBound
    relocations := h.relocations.set hget hid hrange hactive hnew fun entry hentry _ =>
      h.relocations.each entry hentry }

theorem TopologyOk.advanceRelocation (h : TopologyOk topology)
    (hget : topology.relocations.get? id = some old) (hold : old.isActive = true)
    (hr : range ∈ topology.ranges.values)
    (hrange : old.rangeId = range.id) (hplace : SamePlace range (f range))
    (hok : RangeOk topology.nodes (f range))
    (hids : ∀ replica ∈ (f range).replicas, replica.id ∈ range.replicas.map (·.id))
    (hid : new.id = old.id) (hnewRange : new.rangeId = old.rangeId)
    (hnew : RelocationOk (modified topology.ranges range f) new) :
    TopologyOk ((topology.modifyRange range.id f).setRelocation id new) := by
  refine h.exchangeOne hr hplace hok
    (fun replica hreplica => .inl (hids replica hreplica)) (le_refl _)
    h.nextRelocationId (forall_mem_insert (h.relocationIds (id, old) (get?_eq_some_iff.1 hget))
      h.relocationIds) ((size_insert_of_get? hget).trans_le h.relocationBound)
    (h.relocations.set hget hid hnewRange (fun _ => hold) hnew ?_)
  intro entry hentry hne
  refine (h.relocations.each entry hentry).modify h.ranges.toMapOk hr hplace fun heq hphase => ?_
  -- two relocations of one range are not both in progress
  have hactive := isActive_iff.2 hphase
  have hsame := heq.trans hrange.symm
  obtain ⟨pre, post, hsplit⟩ := exists_split_of_get? hget
  have hapart := h.relocations.apart
  rw [hsplit, pairwise_append, pairwise_cons] at hapart
  obtain ⟨-, ⟨hpost, -⟩, hpre⟩ := hapart
  rw [hsplit] at hentry
  rcases mem_append.1 hentry with hmem | hmem
  · exact absurd hsame (hpre entry hmem (id, old) mem_cons_self hactive hold)
  · rcases mem_cons.1 hmem with rfl | hmem
    · exact absurd rfl hne
    · exact absurd hsame.symm (hpost entry hmem hold hactive)

end BicDb.Distribution
