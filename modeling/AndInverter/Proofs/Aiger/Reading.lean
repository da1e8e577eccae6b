import AndInverter.Aiger.Reading
import AndInverter.Proofs.Graph.Growth

namespace AndInverter.Aiger

/-! What reading keeps. While a file is read nothing is inactive, so whatever may be a fanin
at all is an active node, and the graph stays consistent. -/

theorem readSymbols_eq (graph : Graph) (bytes : Text.Bytes) :
    readSymbols graph bytes = match Text.readLine bytes with
      | .finished => .ok graph
      | .unreadable _ => .error (.stream .notText)
      | .line text after =>
          match symbolLine text with
          | .error failure => .error failure
          | .ok none => .ok graph
          | .ok (some symbol) =>
              match applySymbol symbol graph with
              | .error failure => .error failure
              | .ok labelled => readSymbols labelled after := by
  rw [readSymbols]
  split
  · rename_i finished
    simp only [finished]
  · rename_i unreadable
    simp only [unreadable]
  · rename_i text after line
    cases parsed : symbolLine text with
    | error failure => simp only [line, parsed]
    | ok found =>
        cases found with
        | none => simp only [line, parsed]
        | some symbol =>
            cases applied : applySymbol symbol graph <;> simp only [line, parsed, applied]

theorem of_readSymbols_eq_ok {Holds : Graph → Prop}
    (keeps : ∀ graph symbol labelled, Holds graph → applySymbol symbol graph = .ok labelled →
      Holds labelled) {graph after : Graph} {bytes : Text.Bytes}
    (success : readSymbols graph bytes = .ok after) (holds : Holds graph) : Holds after := by
  induction graph, bytes using readSymbols.induct with
  | case1 graph bytes finished
  | case4 graph bytes text rest line ended =>
      rw [readSymbols_eq] at success
      simp_all
  | case2 graph bytes rest unreadable
  | case3 graph bytes text rest line failure refused
  | case5 graph bytes text rest line symbol found failure refused =>
      rw [readSymbols_eq] at success
      simp_all
  | case6 graph bytes text rest line symbol found labelled applied induction =>
      rw [readSymbols_eq] at success
      simp only [line, found, applied] at success
      exact induction success (keeps graph symbol labelled holds applied)

/-- A consistent graph none of whose nodes has been removed. -/
structure Whole (graph : Graph) : Prop where
  consistent : graph.Consistent
  active : ∀ id node, graph.node? id = some node → node.active = true

namespace Whole

theorem empty : Whole Graph.empty where
  consistent := Graph.consistent_empty
  active id node found := by
    cases id with
    | zero =>
        cases Option.some.inj found
        rfl
    | succ id => simp [Graph.node?, Graph.empty] at found

variable {graph after : Graph} (whole : Whole graph)

include whole

theorem of_sameWiring (same : graph.SameWiring after) : Whole after where
  consistent := whole.consistent.of_sameWiring same
  active id node found := by
    rcases same.symm.node found with ⟨earlier, earlierFound, -, -, active⟩
    exact active.symm.trans (whole.active id earlier earlierFound)

theorem grows {id : Nat} {kind : Kind} (grows : graph.Grows id kind after) : Whole after where
  consistent := by
    apply grows.consistent whole.consistent
    intro edge member
    rcases grows.readable edge member with ⟨node, found, -⟩
    exact (Graph.isActive_of_node? found).trans (whole.active edge.node node found)
  active other changed later := by
    rcases grows.source later with ⟨-, rfl⟩ | ⟨node, found, -, active, -⟩
    · rfl
    · exact active.trans (whole.active other node found)

theorem growsBy {added : List (Nat × Kind)} (grown : graph.GrowsBy added after) :
    Whole after := by
  induction added generalizing graph with
  | nil =>
      cases grown
      exact whole
  | cons entry others induction =>
      rcases grown with ⟨next, grows, rest⟩
      exact induction (whole.grows grows) rest

theorem applySymbol {symbol : Symbol} (success : applySymbol symbol graph = .ok after) :
    Whole after := by
  simp only [Aiger.applySymbol] at success
  split at success
  · cases success
  · exact whole.of_sameWiring (Graph.sameWiring_setLabel success)

end Whole

end AndInverter.Aiger
