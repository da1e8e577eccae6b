import AndInverter.Passes.Simplification
import AndInverter.Proofs.Graph.Construction
import AndInverter.Proofs.Passes.StructuralHash
import AndInverter.Proofs.Reduction.Merging

namespace AndInverter

/-! Runs of the optimizer. A run is any sequence of passes, sweeps, sessions and
reductions; each step works on the graph that the one before it left, also where that
one failed. -/

inductive Transformation : Type 1
  | hash
  | simplify
  | sweep
  | simulate {Source : Type} [Stimulus Source] (source : Source) (log : PatternLog)
  | simulateMadeUp (options : SimulationOptions) (log : PatternLog)
  | simulateText (text : Text.Bytes) (log : PatternLog)
  | reduceClasses {State : Type} [Backend State] (options : ReductionOptions)
      (partition : Partition) (backend : State)
  | reduce {State : Type} [Backend State] (options : ReductionOptions)
      (simulation : SimulationOptions) (backend : State)

namespace Transformation

def apply (graph : Graph) : Transformation → Graph
  | .hash => (structuralHash.run graph).graph
  | .simplify => (simplification.run graph).graph
  | .sweep => graph.sweep
  | @simulate _ _ source log => (Session.run graph source log).graph
  | .simulateMadeUp options log => (Session.madeUp graph options log).graph
  | .simulateText text log => (Session.ofText graph text log).graph
  | @reduceClasses _ _ options partition backend =>
      (Reduction.run options graph partition backend).graph
  | @reduce _ _ options simulation backend =>
      (Reduction.reduce options simulation graph backend).graph

def applyAll (steps : List Transformation) (graph : Graph) : Graph :=
  steps.foldl apply graph

/-- The back end of the step, if it has one, is one that some instance speaks for. -/
def Uses (Trusted : (State : Type) → [Backend State] → Prop) : Transformation → Prop
  | @reduceClasses State _ _ _ _ => Trusted State
  | @reduce State _ _ _ _ => Trusted State
  | _ => True

theorem uses_of_forall {Trusted : (State : Type) → [Backend State] → Prop}
    (trusted : ∀ (State : Type) [Backend State], Trusted State) (step : Transformation) :
    step.Uses Trusted := by
  cases step with
  | reduceClasses => exact trusted _
  | reduce => exact trusted _
  | _ => trivial

/-- No step takes an unsatisfiable query for more than it is. -/
abbrev IsSound : Transformation → Prop :=
  Uses fun State _ => Nonempty (SoundBackend State)

end Transformation

namespace Graph.Invariant

variable {Holds : Graph → Prop} (invariant : Invariant Holds) {graph : Graph}

include invariant

theorem hash (holds : Holds graph) : Holds (structuralHash.run graph).graph :=
  structuralHash_sound.run invariant holds

theorem simplify (holds : Holds graph) : Holds (simplification.run graph).graph :=
  simplification_sound.run invariant holds

section Reductions

variable {State : Type} [Backend State] (keeps : Scan.Keeps State Holds)

include keeps

theorem reduceClasses (options : ReductionOptions) (partition : Partition) (backend : State)
    (holds : Holds graph) : Holds (Reduction.run options graph partition backend).graph :=
  keeps.run (fun _ => invariant.sweep) options graph partition backend holds

theorem reduce (options : ReductionOptions) (simulation : SimulationOptions) (backend : State)
    (holds : Holds graph) : Holds (Reduction.reduce options simulation graph backend).graph := by
  have hashed := invariant.hash holds
  have simulated := invariant.conducted (.madeUp simulation .absent) hashed
  have reduced := invariant.reduceClasses keeps options
    (Session.madeUp (structuralHash.run graph).graph simulation .absent).partition backend
      simulated
  rcases Reduction.graph_reduce options simulation graph backend with equal | equal | equal
  · exact equal ▸ hashed
  · exact equal ▸ simulated
  · exact equal ▸ reduced

end Reductions

theorem apply (step : Transformation)
    (keeps : step.Uses fun State _ => Scan.Keeps State Holds) (holds : Holds graph) :
    Holds (step.apply graph) := by
  cases step with
  | hash => exact invariant.hash holds
  | simplify => exact invariant.simplify holds
  | sweep => exact invariant.sweep holds
  | simulate source log => exact invariant.conducted (.run source log) holds
  | simulateMadeUp options log => exact invariant.conducted (.madeUp options log) holds
  | simulateText text log => exact invariant.conducted (.ofText text log) holds
  | reduceClasses options partition backend =>
      exact invariant.reduceClasses keeps options partition backend holds
  | reduce options simulation backend =>
      exact invariant.reduce keeps options simulation backend holds

theorem applyAll (steps : List Transformation)
    (keeps : ∀ step ∈ steps, step.Uses fun State _ => Scan.Keeps State Holds)
    (holds : Holds graph) : Holds (Transformation.applyAll steps graph) := by
  induction steps generalizing graph with
  | nil => exact holds
  | cons step steps induction =>
      apply induction fun other member => keeps other (List.mem_cons_of_mem step member)
      exact invariant.apply step (keeps step (List.mem_cons_self ..)) holds

end Graph.Invariant

namespace Transformation

theorem IsSound.keeps {step : Transformation} (sound : step.IsSound) (start : Graph) :
    step.Uses fun State _ => Scan.Keeps State fun graph =>
      graph.WellFormed ∧ start.Preserves graph := by
  cases step with
  | reduceClasses =>
      rcases sound with ⟨sound⟩
      exact Scan.keeps_preserves start
  | reduce =>
      rcases sound with ⟨sound⟩
      exact Scan.keeps_preserves start
  | _ => trivial

theorem wellFormed_applyAll {graph : Graph} (wellFormed : graph.WellFormed)
    {steps : List Transformation} (sound : ∀ step ∈ steps, step.IsSound) :
    (applyAll steps graph).WellFormed ∧ graph.Preserves (applyAll steps graph) :=
  (Graph.invariant_preserves graph).applyAll steps
    (fun step member => (sound step member).keeps graph) ⟨wellFormed, .refl graph⟩

/-- Whatever the steps, their order and their results: the graph has the same inputs and
outputs afterwards, and every output and every node that is still active takes, for all
values of the inputs, the value that it took before. -/
theorem applyAll_preserves_functions {graph : Graph} (wellFormed : graph.WellFormed)
    {steps : List Transformation} (sound : ∀ step ∈ steps, step.IsSound) :
    (applyAll steps graph).inputs = graph.inputs ∧
      (applyAll steps graph).outputs = graph.outputs ∧
        ∀ id, id ∈ graph.outputs ∨ (applyAll steps graph).isActive id = true →
          ∀ assignment, ∃ value, graph.Takes assignment id value ∧
            (applyAll steps graph).Takes assignment id value := by
  rcases wellFormed_applyAll wellFormed sound with ⟨after, preserves⟩
  refine ⟨preserves.frame.inputs, preserves.frame.outputs, ?_⟩
  intro id concerned assignment
  have active : (applyAll steps graph).isActive id = true := by
    rcases concerned with output | active
    · rw [← preserves.frame.outputs] at output
      exact after.outputs_active id output
    · exact active
  rcases after.exists_takes assignment active with ⟨value, takes⟩
  exact ⟨value, (preserves.functions id active assignment value).mpr takes, takes⟩

def cleanUp : List Transformation :=
  [.hash, .simplify, .reduce {} {} Solver.empty, .sweep]

theorem isSound_cleanUp : ∀ step ∈ cleanUp, step.IsSound := by
  intro step member
  simp only [cleanUp, List.mem_cons, List.not_mem_nil, or_false] at member
  rcases member with rfl | rfl | rfl | rfl
  · trivial
  · trivial
  · exact ⟨inferInstance⟩
  · trivial

theorem cleanUp_preserves_twins :
    Graph.twins.WellFormed ∧ (∀ step ∈ cleanUp, step.IsSound) ∧
      (applyAll cleanUp Graph.twins).outputs = [6, 7] ∧
        ∀ assignment, ∃ value, Graph.twins.Takes assignment 6 value ∧
          (applyAll cleanUp Graph.twins).Takes assignment 6 value := by
  have preserved := applyAll_preserves_functions Graph.consistent_twins.toWellFormed isSound_cleanUp
  exact ⟨Graph.consistent_twins.toWellFormed, isSound_cleanUp, preserved.2.1,
    preserved.2.2 6 (.inl (by decide))⟩

end Transformation

end AndInverter
