import AndInverter.Proofs.Aiger.Sections
import AndInverter.Proofs.Aiger.Symbols
import AndInverter.Proofs.Graph.Integrity

namespace AndInverter.Aiger

/-! Files that are read. Whatever is assembled from a file describes a sensible circuit and
is well-formed, so the check at the end has nothing left to find. -/

theorem sound_of_assemble {bytes : Text.Bytes} {graph : Graph}
    (success : assemble bytes = .ok graph) : graph.Consistent ∧
      ∃ circuit after, Circuit.Opens circuit bytes after ∧
        circuit.inputs.length + circuit.gates.length ≤ circuit.largest ∧ circuit.Sensible ∧
          circuit.Describes graph := by
  rcases assemble_eq_ok_iff.mp success with
    ⟨circuit, after, built, opens, enough, inside, building, labelling⟩
  have whole := of_readSymbols_eq_ok (fun _ _ _ whole applied => whole.applySymbol applied)
    labelling (Circuit.whole_of_build inside building)
  exact ⟨whole.consistent, circuit, after, opens, enough,
    Circuit.sensible_of_build inside building,
    (Circuit.describes_of_build inside building).readSymbols labelling⟩

theorem checkIntegrity_of_assemble {bytes : Text.Bytes} {graph : Graph}
    (success : assemble bytes = .ok graph) : graph.checkIntegrity = .ok () :=
  (sound_of_assemble success).1.checkIntegrity_eq_ok

theorem read_eq_assemble (bytes : Text.Bytes) : read bytes = assemble bytes := by
  rw [read_eq]
  cases assembled : assemble bytes with
  | error failure => rfl
  | ok graph =>
      change (graph.checkIntegrity >>= fun _ => .ok graph) = _
      rw [checkIntegrity_of_assemble assembled]
      rfl

theorem consistent_of_read {bytes : Text.Bytes} {graph : Graph}
    (success : read bytes = .ok graph) : graph.Consistent := by
  rw [read_eq_assemble] at success
  exact (sound_of_assemble success).1

/-- A file that is read opens with a sensible circuit, and the graph is what it describes,
with every edge listed at both ends. The check is made of all that is assembled, and passes. -/
theorem read_sound (bytes : Text.Bytes) :
    (∀ graph, read bytes = .ok graph → graph.Consistent ∧
      ∃ circuit after, Circuit.Opens circuit bytes after ∧
        circuit.inputs.length + circuit.gates.length ≤ circuit.largest ∧ circuit.Sensible ∧
          circuit.Describes graph) ∧
    (read bytes = do
      let graph ← assemble bytes
      graph.checkIntegrity
      return graph) ∧
    ∀ graph, assemble bytes = .ok graph → graph.checkIntegrity = .ok () := by
  refine ⟨fun graph success => ?_, read_eq bytes, fun graph => checkIntegrity_of_assemble⟩
  rw [read_eq_assemble] at success
  exact sound_of_assemble success

/-- A file whose gates stand in the opposite order, one of them doubled. -/
def descending : Text.Bytes :=
  Text.encode "aag 6 2 0 2 3\n2\n4\n11\n0\n10 8 7\n8 6 6\n6 2 5\ni1 b\no0 out\n".toList

theorem read_sound_descending : ∃ graph, read descending = .ok graph ∧ graph.Consistent ∧
    graph.checkIntegrity = .ok () ∧ ∃ circuit after, Circuit.Opens circuit descending after ∧
      circuit.inputs.length + circuit.gates.length ≤ circuit.largest ∧ circuit.Sensible ∧
        circuit.Describes graph := by
  have readable : (read descending).toOption.isSome = true := by decide +kernel
  cases success : read descending with
  | error failure => simp [success, Except.toOption] at readable
  | ok graph =>
      rcases read_sound descending with ⟨sound, -, passes⟩
      rcases sound graph success with ⟨consistent, describes⟩
      rw [read_eq_assemble] at success
      exact ⟨graph, rfl, consistent, passes graph success, describes⟩

end AndInverter.Aiger
