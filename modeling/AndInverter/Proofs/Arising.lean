import AndInverter.Proofs.Graph.Declarations
import AndInverter.Proofs.Operation

namespace AndInverter

/-! Graphs that arise when nothing is asked of the caller. Nodes may be marked as removed
while others read them, and gates may be replaced by what sees them; then a graph may have
cycles, and active nodes that read inactive ones. Its inputs and its outputs are declared
correctly all the same. -/

namespace Graph

namespace Lasting

variable {Holds : Graph → Prop} (lasting : Lasting Holds) {graph : Graph}

include lasting

theorem pass {Memory : Type} (pass : Pass Memory) (holds : Holds graph) :
    Holds (pass.run graph).graph := by
  have keeps : pass.Keeps fun _ current => Holds current :=
    ⟨fun holds _ => holds, fun holds _ success => lasting.replace holds success⟩
  rcases keeps.runFrom (.ofOutputs graph) pass.initial 0 graph holds with ⟨-, final⟩
  exact final

theorem conducted {session : Session} (conducted : Session.Conducted graph session)
    (holds : Holds graph) : Holds session.graph :=
  lasting.annotate (lasting.sweep holds) conducted.annotates.toSameWiring

theorem keeps (State : Type) [Backend State] : Scan.Keeps State Holds where
  merge graph _ pivot member holds _ := by
    rcases graph.mergeEqual_cases pivot member with ⟨same, -⟩ | ⟨keep, drop, -, success, -⟩
    · rwa [same]
    · exact lasting.replace holds success

theorem reduceClasses {State : Type} [Backend State] (options : ReductionOptions)
    (partition : Partition) (backend : State) (holds : Holds graph) :
    Holds (Reduction.run options graph partition backend).graph :=
  (lasting.keeps State).run (fun _ => lasting.sweep) options graph partition backend holds

theorem reduce {State : Type} [Backend State] (options : ReductionOptions)
    (simulation : SimulationOptions) (backend : State) (holds : Holds graph) :
    Holds (Reduction.reduce options simulation graph backend).graph := by
  have hashed := lasting.pass structuralHash holds
  have simulated := lasting.conducted (.madeUp simulation .absent) hashed
  have reduced := lasting.reduceClasses options
    (Session.madeUp (structuralHash.run graph).graph simulation .absent).partition backend
      simulated
  rcases Reduction.graph_reduce options simulation graph backend with equal | equal | equal
  · exact equal ▸ hashed
  · exact equal ▸ simulated
  · exact equal ▸ reduced

theorem transform (step : Transformation) (holds : Holds graph) : Holds (step.apply graph) := by
  cases step with
  | hash => exact lasting.pass structuralHash holds
  | simplify => exact lasting.pass simplification holds
  | sweep => exact lasting.sweep holds
  | simulate source log => exact lasting.conducted (.run source log) holds
  | simulateMadeUp options log => exact lasting.conducted (.madeUp options log) holds
  | simulateText text log => exact lasting.conducted (.ofText text log) holds
  | reduceClasses options partition backend =>
      exact lasting.reduceClasses options partition backend holds
  | reduce options simulation backend => exact lasting.reduce options simulation backend holds

end Lasting

theorem holds_settle {Holds : Graph → Prop} {graph : Graph} {result : Result Graph}
    (holds : Holds graph) (success : ∀ after, result = .ok after → Holds after) :
    Holds (Operation.settle graph result) := by
  cases result with
  | error failure => exact holds
  | ok after => exact success after rfl

namespace Enduring

variable {Holds : Graph → Prop} (enduring : Enduring Holds) {graph : Graph}

include enduring

theorem apply (operation : Operation) (holds : Holds graph) : Holds (operation.apply graph) := by
  cases operation with
  | reserve largest =>
      exact holds_settle holds fun _ success =>
        enduring.annotate holds (sameWiring_reserve success)
  | addInput => exact enduring.grows holds graph.grows_addInput
  | addInputAt id =>
      exact holds_settle holds fun _ success => enduring.grows holds (grows_addInputAt success)
  | addGate left right =>
      apply holds_settle holds
      intro after success
      rcases of_map_snd_eq_ok success with ⟨id, added⟩
      exact enduring.grows holds (grows_addGate added)
  | addGateAt id left right =>
      exact holds_settle holds fun _ success => enduring.grows holds (grows_addGateAt success)
  | addOutput driver =>
      apply holds_settle holds
      intro after success
      rcases of_map_snd_eq_ok success with ⟨id, added⟩
      exact enduring.grows holds (grows_addOutput added)
  | setLabel id label =>
      exact holds_settle holds fun _ success =>
        enduring.annotate holds (sameWiring_setLabel success)
  | replace replacement gate =>
      exact holds_settle holds fun _ success => enduring.replace holds success
  | transform step => exact enduring.toLasting.transform step holds

end Enduring

variable {graph after : Graph}

/-- The graphs that arise from any operations, allowed or not, from marking any nodes as
removed, and from recording any classes. -/
inductive Arises : Graph → Prop
  | new : Arises empty
  | read {bytes : Text.Bytes} {graph : Graph} (success : Aiger.read bytes = .ok graph) :
      Arises graph
  | step {graph : Graph} (operation : Operation) (arises : Arises graph) :
      Arises (operation.apply graph)
  | deactivate {graph : Graph} (id : Nat) (arises : Arises graph) :
      Arises (Operation.settle graph (graph.deactivate id))
  | record {graph : Graph} (partition : Partition) (arises : Arises graph) :
      Arises (partition.recordIn graph).1

theorem Enduring.of_arises {Holds : Graph → Prop} (enduring : Enduring Holds)
    (arises : graph.Arises) : Holds graph := by
  induction arises with
  | new => exact enduring.consistent consistent_empty
  | read success => exact enduring.consistent (Aiger.consistent_of_read success)
  | step operation _ holds => exact enduring.apply operation holds
  | deactivate id _ holds =>
      exact holds_settle holds fun _ success => enduring.deactivate holds success
  | record partition _ holds =>
      exact enduring.annotate holds (partition.annotates_recordIn _).toSameWiring

theorem Arises.declaresInputs (arises : graph.Arises) : graph.DeclaresInputs :=
  enduring_declaresInputs.of_arises arises

theorem Arises.declaresOutputs (arises : graph.Arises) : graph.DeclaresOutputs :=
  enduring_declaresOutputs.of_arises arises

theorem Arises.isGate_constant (arises : graph.Arises) : graph.isGate 0 = false := by
  rcases enduring_constant.of_arises arises with ⟨node, found, kind⟩
  rw [isGate_of_node? found, kind]
  rfl

end Graph

end AndInverter
