import AndInverter.Passes.Pass
import AndInverter.Proofs.Graph.Invariants

namespace AndInverter

/-! Runs of a pass. What every judgement keeps true is true of the graph that a run
leaves, whether it ends well or not. A pass is sound when it merges a gate only into a
literal that does not see the gate, and that carries the same signal where the graph is
well-formed. -/

namespace Pass

variable {Memory : Type}

theorem runFrom_eq (pass : Pass Memory) (traversal : PostOrder) (memory : Memory) (merges : Nat)
    (graph : Graph) :
    pass.runFrom traversal memory merges graph = match traversal.next graph with
      | (none, _) => ⟨graph, [.note (pass.summary merges)], .ok merges⟩
      | (some id, rest) =>
          match pass.judgeNode memory id graph with
          | (none, after) => pass.runFrom rest after merges graph
          | (some survivor, after) =>
              match graph.replace survivor id with
              | .error failure =>
                  ⟨graph, [.note (pass.announcement id survivor)], .error failure⟩
              | .ok replaced =>
                  (pass.runFrom rest after (merges + 1) replaced).after
                    [.note (pass.announcement id survivor),
                      .event (.merge pass.cause survivor id)] := by
  rw [runFrom]
  split
  · simp_all
  · rename_i id rest found
    simp only [found]
    rcases pass.judgeNode memory id graph with ⟨survivor?, after⟩
    cases survivor? with
    | none => rfl
    | some survivor =>
        dsimp only
        split <;> simp_all only

structure Keeps (pass : Pass Memory) (Holds : Memory → Graph → Prop) : Prop where
  skip : ∀ {memory after : Memory} {graph : Graph} {id : Nat}, Holds memory graph →
    pass.judgeNode memory id graph = (none, after) → Holds after graph
  merge : ∀ {memory after : Memory} {graph replaced : Graph} {id : Nat} {survivor : Literal},
    Holds memory graph → pass.judgeNode memory id graph = (some survivor, after) →
      graph.replace survivor id = .ok replaced → Holds after replaced

theorem Keeps.runFrom {pass : Pass Memory} {Holds : Memory → Graph → Prop}
    (keeps : pass.Keeps Holds) (traversal : PostOrder) (memory : Memory) (merges : Nat)
    (graph : Graph) (holds : Holds memory graph) :
    ∃ final, Holds final (pass.runFrom traversal memory merges graph).graph := by
  induction traversal, memory, merges, graph using runFrom.induct pass with
  | case1 traversal memory merges graph after finished =>
      rw [runFrom_eq, finished]
      exact ⟨memory, holds⟩
  | case2 traversal memory merges graph id rest found after judged induction =>
      rw [runFrom_eq, found]
      simp only [judged]
      exact induction (keeps.skip holds judged)
  | case3 traversal memory merges graph id rest found survivor after judged failure refused =>
      rw [runFrom_eq, found]
      simp only [judged, refused]
      exact ⟨memory, holds⟩
  | case4 traversal memory merges graph id rest found survivor after judged replaced accepted
      induction =>
      rw [runFrom_eq, found]
      simp only [judged, accepted]
      exact induction (keeps.merge holds judged accepted)

/-- Every merge leaves no cycle, and is of equals in a well-formed graph. `Remembers` is what the
pass relies on when it looks into its memory. -/
structure Sound (pass : Pass Memory) (Remembers : Memory → Graph → Prop) : Prop where
  initial : ∀ graph : Graph, Remembers pass.initial graph
  skip : ∀ {memory after : Memory} {graph : Graph} {id : Nat}, Remembers memory graph →
    pass.judgeNode memory id graph = (none, after) → Remembers after graph
  merge : ∀ {memory after : Memory} {graph replaced : Graph} {id : Nat} {survivor : Literal},
    graph.Linked → Remembers memory graph →
      pass.judgeNode memory id graph = (some survivor, after) →
        graph.replace survivor id = .ok replaced →
          ¬graph.Sees survivor.node id ∧
            (graph.WellFormed → graph.SameSignal (.plain id) survivor) ∧
              Remembers after replaced

theorem Sound.run {pass : Pass Memory} {Remembers : Memory → Graph → Prop}
    (sound : pass.Sound Remembers) {Holds : Graph → Prop} (invariant : Graph.Invariant Holds)
    {graph : Graph} (holds : Holds graph) : Holds (pass.run graph).graph := by
  have keeps : pass.Keeps fun memory current => Remembers memory current ∧ Holds current := by
    constructor
    · intro memory after current id both judged
      exact ⟨sound.skip both.1 judged, both.2⟩
    · intro memory after current replaced id survivor both judged success
      rcases sound.merge (invariant.linked both.2) both.1 judged success with
        ⟨unseen, equal, remembers⟩
      exact ⟨remembers, invariant.replace both.2 success unseen equal⟩
  rcases keeps.runFrom (.ofOutputs graph) pass.initial 0 graph ⟨sound.initial graph, holds⟩ with
    ⟨memory, -, final⟩
  exact final

end Pass

end AndInverter
