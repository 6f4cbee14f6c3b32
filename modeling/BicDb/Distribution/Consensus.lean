import BicDb.Distribution.Validity
import BicDb.Metadata.Safety

/-!
# Topologies in the metadata log

The metadata log replicates the topologies of `distribution.rs`. Its consensus reads the cluster id,
the generation and the nodes' lifecycles and roles, and carries the rest, so the two models of
`ClusterTopology` meet here.

- `ClusterTopology.consensusView` is a topology as the consensus reads it; it has the same metadata
  voters (`metadataVoters_consensusView`).
- `validating` puts the validator of topologies in the place the consensus leaves open; its own
  `isValid` then accepts exactly the views of valid topologies (`isValid_iff`).
- `committed_topology_valid`: in every safe run each node has committed a valid topology.
-/

namespace BicDb.Distribution

open BicDb.Foundation
open BicDb.Metadata (Platform Bootstrap MetadataCluster CommitSafe clusterStep)

/-- A topology as the metadata consensus reads it; nodes go under the keys of their map. -/
def ClusterTopology.consensusView (topology : ClusterTopology) :
    Metadata.ClusterTopology Identifier ClusterTopology where
  clusterId := topology.clusterId
  generation := topology.generation
  nodes := ⟨topology.nodes.entries.map fun e => ⟨e.1, e.2.lifecycle, e.2.metadataRole⟩, by
    rw [List.map_map]
    exact topology.nodes.keys_nodup⟩
  rest := topology

variable {δ : Type*} {topology : ClusterTopology}

/-- A platform whose check of what the consensus only carries is the validator of topologies. -/
def validating (P : Platform Identifier ClusterTopology δ) :
    Platform Identifier ClusterTopology δ :=
  { P with
    restValid := fun t =>
      decide (t = t.rest.consensusView) && decide (t.rest.validate = .ok ()) }

theorem metadataVoters_consensusView (h : TopologyOk topology) :
    topology.consensusView.metadataVoters =
      (topology.nodes.values.filter ClusterNode.isMetadataVoter).map (·.id) := by
  have hid : ∀ e ∈ topology.nodes.entries, e.1 = e.2.id := fun e he => (h.nodes.each e he).id_eq
  simp only [Metadata.ClusterTopology.metadataVoters, ClusterTopology.consensusView,
    OrderedMap.values, List.filter_map, List.map_map]
  exact List.map_congr_left fun e he => hid e (List.mem_of_mem_filter he)

/-- The consensus accepts exactly the views of valid topologies. -/
theorem isValid_iff (P : Platform Identifier ClusterTopology δ)
    {t : Metadata.ClusterTopology Identifier ClusterTopology} :
    t.isValid (validating P) = true ↔
      ∃ topology : ClusterTopology, topology.validate = .ok () ∧ t = topology.consensusView := by
  simp only [Metadata.ClusterTopology.isValid, validating, Bool.and_eq_true, decide_eq_true_eq]
  constructor
  · rintro ⟨-, hview, hvalid⟩
    exact ⟨t.rest, hvalid, hview⟩
  · rintro ⟨topology, hvalid, rfl⟩
    have hok := validate_eq_ok.1 hvalid
    refine ⟨⟨⟨hok.generation, ?_⟩, ?_⟩, rfl, hvalid⟩
    · simpa [ClusterTopology.consensusView] using hok.nodes.nonempty
    · have hvoter := hok.nodes.voter
      rw [OrderedMap.values, List.any_map] at hvoter
      rw [ClusterTopology.consensusView, List.any_map]
      exact hvoter

/-- **Committed topologies are valid**: in every run that changes one voter at a time and meets no
stale suffix, started from a valid topology, the validator accepts what each node has committed. -/
theorem committed_topology_valid (P : Platform Identifier ClusterTopology δ)
    (B : Bootstrap (validating P)) {c : MetadataCluster Identifier ClusterTopology δ}
    (h : Reach (clusterStep (validating P) B) CommitSafe (MetadataCluster.init (validating P) B) c)
    (n : Identifier) :
    ∃ topology : ClusterTopology, topology.validate = .ok () ∧
      (c.state n).committedTopology = topology.consensusView := by
  obtain ⟨H, a, hinv⟩ := Metadata.inv_of_reach (h.mono fun _ _ hok => hok.safeStep)
  have hlog := (hinv.logOk n).anti (List.take_prefix (a n).commit (a n).log)
  obtain ⟨topology, hvalid, hview⟩ := (isValid_iff P).1 hlog.topology.1
  refine ⟨topology, hvalid, Eq.trans ?_ hview⟩
  rcases (hinv.node n).store with hstore | ⟨T, -, hstore⟩
  · exact hstore.fields.2.2.2.2.2.1
  · exact hstore.fields.2.2.2.2.2.1

end BicDb.Distribution
