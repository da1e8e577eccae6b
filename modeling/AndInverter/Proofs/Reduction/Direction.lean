import AndInverter.Proofs.Graph.Substitution
import AndInverter.Proofs.Reduction.Merging
import AndInverter.Proofs.Traversal.Blocks

namespace AndInverter.Graph

/-! The direction of a merge. Of two different nodes of an acyclic graph at most one lies in the
cone of the other one, so that one of them can take the place of the other without a cycle, and
the cone tells which. -/

variable {graph : Graph}

theorem Acyclic.coneContains_eq_false (acyclic : graph.Acyclic) {first second : Nat}
    (different : first ≠ second) (contained : graph.coneContains first second = true) :
    graph.coneContains second first = false := by
  rw [Bool.eq_false_iff, ne_eq, coneContains_iff]
  intro up
  exact different (acyclic.eq_of_sees (coneContains_iff.mp contained) up)

theorem WellFormed.target_of_not_mem_outputs (wellFormed : graph.WellFormed) {id : Nat}
    (isActive : graph.isActive id = true) (undeclared : id ∉ graph.outputs) :
    ∃ node, graph.node? id = some node ∧ node.active = true ∧ node.kind.isOutput = false := by
  rcases isActive_eq_true_iff.mp isActive with ⟨node, found, active⟩
  refine ⟨node, found, active, ?_⟩
  rw [Bool.eq_false_iff]
  intro isOutput
  exact undeclared ((wellFormed.mem_outputs id).mpr ⟨node, found, isOutput⟩)

/-- In any graph, be it damaged or cyclic, the search of a cone comes to an end, and finds the
target exactly if a path of edges leads down to it from the root, on which only active nodes are
read further. Hence two different nodes of a well-formed graph are never in the cones of each
other; a gate gives way to another node without a cycle exactly if it is not in the cone of that
node; and a merge takes a direction in which it succeeds without a cycle. -/
theorem coneContains_exact (graph : Graph) :
    (∀ root target,
      (∃ looks ≤ 2 * graph.size + 2,
        (ConeSearch.ofNode root graph).findsWithin graph target looks =
          some (graph.coneContains root target)) ∧
      (graph.coneContains root target = true ↔ graph.Sees root target)) ∧
    (graph.WellFormed → ∀ first second : Literal, first.node ≠ second.node →
      graph.isActive first.node = true → graph.isActive second.node = true →
      ¬(graph.coneContains first.node second.node = true ∧
        graph.coneContains second.node first.node = true) ∧
      (first.node ∉ graph.outputs → graph.isGate second.node = true →
        ∃ merged, graph.replace first second.node = .ok merged ∧
          (merged.Acyclic ↔ graph.coneContains first.node second.node = false)) ∧
      (first.node ∉ graph.outputs → second.node ∉ graph.outputs →
        graph.isGate first.node = true ∨ graph.isGate second.node = true →
        (graph.mergeEqual first second).result = .ok true ∧
          (graph.mergeEqual first second).graph.Acyclic)) := by
  refine ⟨fun root target => ⟨?_, coneContains_iff⟩, ?_⟩
  · have few := ConeSearch.work_ofNode_le root graph
    exact ⟨2 * graph.size + 2, Nat.le_refl _, ConeSearch.findsWithin_eq_finds (by omega)⟩
  · intro wellFormed first second different firstActive secondActive
    have acyclic := wellFormed.acyclic
    refine ⟨?_, fun firstInside isGate => ?_, fun firstInside secondInside oneGate => ?_⟩
    · rintro ⟨down, up⟩
      rw [acyclic.coneContains_eq_false different down] at up
      cases up
    · have target := wellFormed.target_of_not_mem_outputs firstActive firstInside
      rcases exists_replaceable_iff.mpr ⟨isGate, secondActive, different, target⟩ with
        ⟨old, replaceable⟩
      have success := replace_eq_ok_iff.mpr ⟨old, replaceable, rfl⟩
      exact ⟨_, success, wellFormed.acyclic_replace_iff success⟩
    · have merged := mergeEqual_replaces different oneGate
        (wellFormed.target_of_not_mem_outputs firstActive firstInside)
        (wellFormed.target_of_not_mem_outputs secondActive secondInside)
      exact ⟨merged.1, (wellFormed.mergeEqual first second).acyclic⟩

/-- The third gate of the twins reads the first one, so it is the third one that gives way. Two
gates on a cycle are in the cones of each other; a search from there for the gate that was
replaced ends, too, and does not find it. -/
theorem coneContains_exact_twins :
    (∃ merged, twins.replace (.plain 3) 5 = .ok merged ∧ merged.Acyclic) ∧
      (∃ knotted, twins.replace (.plain 5) 3 = .ok knotted ∧ ¬knotted.Acyclic) ∧
      twins.mergeDirection (.plain 5) (.plain 3) = (.plain 3, .plain 5) ∧
      (twins.mergeEqual (.plain 5) (.plain 3)).result = .ok true ∧
      (twins.mergeEqual (.plain 5) (.plain 3)).graph.Acyclic ∧
      entangled.Sees 4 5 ∧ entangled.Sees 5 4 ∧ ¬entangled.Sees 4 3 := by
  have merges := (coneContains_exact twins).2 consistent_twins.toWellFormed
  have searches := (coneContains_exact entangled).1
  have down : twins.coneContains 5 3 = true := by decide +kernel
  have up : twins.coneContains 3 5 = false := by decide +kernel
  rcases merges (.plain 5) (.plain 3) (by decide) (by decide) (by decide) with
    ⟨-, upper, either⟩
  rcases merges (.plain 3) (.plain 5) (by decide) (by decide) (by decide) with ⟨-, lower, -⟩
  rcases upper (by decide) (by decide) with ⟨knotted, knots, cyclic⟩
  rcases lower (by decide) (by decide) with ⟨merged, success, acyclic⟩
  rcases either (by decide) (by decide) (.inl (by decide)) with ⟨result, kept⟩
  refine ⟨⟨merged, success, acyclic.mpr up⟩, ⟨knotted, knots, fun impossible => ?_⟩,
    by decide +kernel, result, kept, (searches 4 5).2.mp (by decide +kernel),
    (searches 5 4).2.mp (by decide +kernel), fun sees => ?_⟩
  · cases down.symm.trans (cyclic.mp impossible)
  · cases ((searches 4 3).2.mpr sees).symm.trans
      (show entangled.coneContains 4 3 = false by decide +kernel)

end AndInverter.Graph
