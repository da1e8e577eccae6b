import AndInverter.Proofs.Graph.Consistency
import AndInverter.Proofs.Graph.Construction

namespace AndInverter.Graph

/-! Tidy graphs. A linked graph says nothing of what its inactive nodes list; in a tidy one
they, too, list only what reads them. Whatever is done to a graph keeps it tidy, also where
nodes are added on top of gates that have gone. -/

structure Tidy (graph : Graph) : Prop extends graph.Linked where
  listed : ∀ id node, graph.node? id = some node → ∀ fanout ∈ node.fanouts,
    graph.Reads fanout.node id

variable {graph after : Graph}

theorem Consistent.tidy (consistent : graph.Consistent) : graph.Tidy where
  toLinked := consistent.toLinked
  listed id node found fanout member := by
    cases active : node.active with
    | true => exact consistent.reads_of_mem_fanouts found active member
    | false =>
        rw [consistent.inactive_fanouts id node found active] at member
        cases member

namespace Tidy

variable (tidy : graph.Tidy)

include tidy

theorem of_sameWiring (same : graph.SameWiring after) : after.Tidy where
  toLinked := same.linked tidy.toLinked
  listed id node found fanout member := by
    rcases same.symm.node found with ⟨earlier, earlierFound, -, fanouts, -⟩
    rw [← fanouts] at member
    exact same.reads_iff.mpr (tidy.listed id earlier earlierFound fanout member)

theorem replace {replacement : Literal} {gate : Nat}
    (success : graph.replace replacement gate = .ok after)
    (unseen : ¬graph.Sees replacement.node gate) : after.Tidy where
  toLinked := tidy.linked_replace success unseen
  listed id changed later fanout member := by
    cases active : changed.active with
    | true => exact (tidy.linked_replace success unseen).reads_of_mem_fanouts later active member
    | false =>
        rcases replace_eq_ok_iff.mp success with ⟨old, replaceable, rfl⟩
        rw [node?_mapNodes] at later
        rcases Option.map_eq_some_iff.mp later with ⟨node, found, rfl⟩
        by_cases same : id = gate
        · simp [replaceInNode, same] at member
        · have wasInactive : node.active = false := by
            simpa [replaceInNode, same] using active
          rw [replaceable.fanouts_of_inactive found wasInactive same] at member
          have reads := tidy.listed id node found fanout (List.mem_of_mem_filter member)
          -- An active consumer may be rewired, but not here, since only edges to the gate are.
          by_cases consumerActive : graph.isActive fanout.node = true
          · exact (tidy.reads_replace_iff success consumerActive id).mpr (.inl ⟨reads, same⟩)
          · rwa [Reads, tidy.fanins_replace success, if_neg consumerActive]

theorem sweep : graph.sweep.Tidy where
  toLinked := tidy.toLinked.sweep
  listed id changed later fanout member := by
    rw [node?_sweep] at later
    rcases Option.map_eq_some_iff.mp later with ⟨node, found, equal⟩
    rw [reads_sweep_iff]
    split at equal
    · rw [← equal] at member
      cases member
    · rw [← equal] at member
      exact tidy.listed id node found fanout (List.mem_of_mem_filter member)

theorem grows {id : Nat} {kind : Kind} (grows : graph.Grows id kind after) : after.Tidy where
  toLinked := grows.linked tidy.toLinked
  listed other changed later fanout member := by
    rcases grows.source later with ⟨-, rfl⟩ | ⟨node, found, -, -, fanouts⟩
    · cases member
    · rw [fanouts, List.mem_append] at member
      rcases member with old | new
      · have reads := tidy.listed other node found fanout old
        have consumer : fanout.node ≠ id := by
          rintro same
          rcases reads with ⟨edge, inside, -⟩
          rcases node?_of_mem_fanins inside with ⟨reader, readerFound, -⟩
          exact grows.ne_of_found readerFound same
        rwa [Reads, grows.fanins_old consumer]
      · rcases List.mem_map.mp new with ⟨edge, inside, rfl⟩
        exact ⟨edge, List.mem_of_mem_filter inside, of_decide_eq_true (List.mem_filter.mp inside).2⟩

end Tidy

theorem invariant_tidy : Invariant Tidy where
  linked tidy := tidy.toLinked
  replace tidy success unseen _ := tidy.replace success unseen
  sweep tidy := tidy.sweep
  annotate tidy annotates := tidy.of_sameWiring annotates.toSameWiring

end AndInverter.Graph
