import AndInverter.Proofs.Graph.Invariants

namespace AndInverter.Graph

/-! Consistent graphs. Beyond the edges of its active nodes a consistent graph keeps
those of the others in order too: whatever a node reads is there, active or not, and an
inactive node lists no consumers. -/

structure Consistent (graph : Graph) : Prop extends WellFormed graph where
  fanins_defined : ∀ consumer driver, graph.Reads consumer driver →
    ∃ node, graph.node? driver = some node ∧ node.kind.isOutput = false
  inactive_fanouts : ∀ id node, graph.node? id = some node → node.active = false →
    node.fanouts = []

theorem consistent_empty : empty.Consistent where
  toWellFormed := wellFormed_empty
  fanins_defined consumer driver reads := by
    rcases reads with ⟨edge, member, -⟩
    rcases node?_of_mem_fanins member with ⟨node, found, faninMember⟩
    cases consumer with
    | zero =>
        cases Option.some.inj found
        cases faninMember
    | succ id => simp [node?, empty] at found
  inactive_fanouts id node found _ := by
    cases id with
    | zero =>
        cases Option.some.inj found
        rfl
    | succ id => simp [node?, empty] at found

namespace Consistent

variable {graph after : Graph} (consistent : graph.Consistent)

include consistent

theorem of_sameWiring (same : graph.SameWiring after) : after.Consistent where
  toWellFormed := same.wellFormed consistent.toWellFormed
  fanins_defined consumer driver reads :=
    (same.exists_kind_iff (·.isOutput = false) driver).mpr
      (consistent.fanins_defined consumer driver (same.reads_iff.mp reads))
  inactive_fanouts id node found inactive := by
    rcases same.symm.node found with ⟨earlier, earlierFound, -, fanouts, active⟩
    rw [← fanouts]
    exact consistent.inactive_fanouts id earlier earlierFound (active.trans inactive)

theorem replace {replacement : Literal} {gate : Nat}
    (success : graph.replace replacement gate = .ok after)
    (unseen : ¬graph.Sees replacement.node gate) : after.Consistent where
  toWellFormed := consistent.wellFormed_replace success unseen
  fanins_defined consumer driver reads := by
    have wellFormed := consistent.toWellFormed
    have defined : ∃ node, graph.node? driver = some node ∧ node.kind.isOutput = false := by
      by_cases active : graph.isActive consumer = true
      · rcases (wellFormed.reads_replace_iff success active driver).mp reads with
          ⟨kept, -⟩ | ⟨-, equal⟩
        · exact consistent.fanins_defined consumer driver kept
        · rcases replace_eq_ok_iff.mp success with ⟨old, replaceable, -⟩
          exact equal ▸ replaceable.readable_target
      · rw [Reads, wellFormed.fanins_replace success, if_neg active] at reads
        exact consistent.fanins_defined consumer driver reads
    exact (wellFormed.frame_replace success).readable defined
  inactive_fanouts id changed later inactive := by
    rcases replace_eq_ok_iff.mp success with ⟨old, replaceable, rfl⟩
    rw [node?_mapNodes] at later
    rcases Option.map_eq_some_iff.mp later with ⟨node, found, rfl⟩
    by_cases same : id = gate
    · simp [replaceInNode, same]
    · have wasInactive : node.active = false := by
        simpa [replaceInNode, same] using inactive
      rw [replaceable.fanouts_of_inactive found wasInactive same,
        consistent.inactive_fanouts id node found wasInactive, List.filter_nil]

theorem sweep : graph.sweep.Consistent where
  toWellFormed := consistent.toWellFormed.sweep
  fanins_defined consumer driver reads :=
    graph.frame_sweep.readable
      (consistent.fanins_defined consumer driver (reads_sweep_iff.mp reads))
  inactive_fanouts id changed later inactive := by
    rw [node?_sweep] at later
    rcases Option.map_eq_some_iff.mp later with ⟨node, found, equal⟩
    split at equal
    · rw [← equal]
    · rw [← equal] at inactive ⊢
      have none := consistent.inactive_fanouts id node found inactive
      simp [Node.dropFanouts, none]

end Consistent

theorem invariant_consistent : Invariant Consistent where
  linked consistent := consistent.toLinked
  replace consistent success unseen _ := consistent.replace success unseen
  sweep consistent := consistent.sweep
  annotate consistent annotates := consistent.of_sameWiring annotates.toSameWiring

end AndInverter.Graph
