import AndInverter.Proofs.Graph.Declarations
import AndInverter.Proofs.Simulation.Evaluation

namespace AndInverter

/-! Patterns as assignments. A lane of a batch gives each input a bit, and the words that a
simulation leaves have in this lane the values that the nodes take under these bits. -/

/-- The assignment of a lane: every input takes its bit, in the order of the declarations. -/
def Batch.assignment (batch : Batch) (inputs : List Nat) (lane : Nat) : Assignment :=
  fun id => batch.bit (inputs.idxOf id) lane

theorem Batch.assignment_of_getElem? {inputs : List Nat} (nodup : inputs.Nodup)
    {position input : Nat} (found : inputs[position]? = some input) (batch : Batch) (lane : Nat) :
    batch.assignment inputs lane input = batch.bit position lane := by
  rcases List.getElem?_eq_some_iff.mp found with ⟨inside, rfl⟩
  rw [assignment, nodup.idxOf_getElem]

namespace Graph

variable {graph : Graph}

theorem DeclaresInputs.lt_size (declares : graph.DeclaresInputs) {input : Nat}
    (member : input ∈ graph.inputs) : input < graph.size := by
  rcases (declares.mem_iff input).mp member with ⟨node, found, -⟩
  exact lt_size_of_node? found

theorem Takes.congr {assignment other : Assignment} {id : Nat} {value : Bool}
    (takes : graph.Takes assignment id value)
    (same : ∀ input node, graph.node? input = some node → node.kind = .input →
      assignment input = other input) : graph.Takes other id value := by
  induction takes with
  | constant found kind => exact .constant found kind
  | input found kind =>
      rw [same _ _ found kind]
      exact .input found kind
  | gate found kind _ _ left right => exact .gate found kind left right
  | output found kind _ driver => exact .output found kind driver

theorem DeclaresInputs.takes_congr (declares : graph.DeclaresInputs)
    {assignment other : Assignment}
    (same : ∀ input ∈ graph.inputs, assignment input = other input) {id : Nat} {value : Bool}
    (takes : graph.Takes assignment id value) : graph.Takes other id value :=
  takes.congr fun input node found kind =>
    same input ((declares.mem_iff input).mpr ⟨node, found, kind⟩)

/-- The inputs without a word in the batch stay low. -/
def Undriven (graph : Graph) (batch : Batch) (words : Words) : Prop :=
  ∀ input ∈ graph.inputs, batch.words.length ≤ graph.inputs.idxOf input →
    words.ofNode input = 0#32

theorem undriven_zeros (graph : Graph) (batch : Batch) (size : Nat) :
    graph.Undriven batch (.zeros size) :=
  fun input _ _ => Words.ofNode_zeros size input

theorem undriven_of_full {batch : Batch} (full : graph.inputs.length ≤ batch.words.length)
    (words : Words) : graph.Undriven batch words := by
  intro input member beyond
  have inside := List.idxOf_lt_length_of_mem member
  omega

theorem DeclaresInputs.assignment_drive (declares : graph.DeclaresInputs) {batch : Batch}
    {words : Words} (size : words.size = graph.size) (undriven : graph.Undriven batch words)
    (lane : Nat) {input : Nat} (member : input ∈ graph.inputs) :
    (graph.drive batch words).assignment lane input =
      batch.assignment graph.inputs lane input := by
  have room : ∀ other ∈ graph.inputs, other < words.size := by
    intro other otherMember
    rw [size]
    exact declares.lt_size otherMember
  rw [Words.assignment, drive, Words.ofNode_foldl_set declares.nodup member _ room,
    Batch.assignment, Batch.bit]
  cases given : batch.words[graph.inputs.idxOf input]? with
  | some word => rfl
  | none =>
      rw [Option.getD_none, undriven input member (List.getElem?_eq_none_iff.mp given)]
      exact BitVec.getLsbD_zero

/-- After one batch, the word of a node below the outputs has in every lane what the node
takes under the bits of this lane. -/
theorem Evaluable.takes_simulate (evaluable : graph.Evaluable) (declares : graph.DeclaresInputs)
    {batch : Batch} {words : Words} (size : words.size = graph.size)
    (undriven : graph.Undriven batch words) {id : Nat} (member : id ∈ graph.order) {lane : Nat}
    (inside : lane < 32) :
    graph.Takes (batch.assignment graph.inputs lane) id
      (((graph.simulate graph.order batch words).ofNode id).lane lane) := by
  have settled := evaluable.settled_simulate batch size
  exact declares.takes_congr (fun _ => declares.assignment_drive size undriven lane)
    (settled.shows id member lane inside)

theorem Evaluable.takes_simulate_input (evaluable : graph.Evaluable)
    (declares : graph.DeclaresInputs) {batch : Batch} {words : Words}
    (size : words.size = graph.size) (undriven : graph.Undriven batch words) {input : Nat}
    (member : input ∈ graph.inputs) {lane : Nat} (inside : lane < 32) :
    graph.Takes (batch.assignment graph.inputs lane) input
      (((graph.simulate graph.order batch words).ofNode input).lane lane) := by
  by_cases seen : input ∈ graph.order
  · exact evaluable.takes_simulate declares size undriven seen inside
  · rcases (declares.mem_iff input).mp member with ⟨node, found, kind⟩
    have settled := evaluable.settled_simulate batch size
    rw [settled.others input seen, takes_input_iff found kind]
    exact declares.assignment_drive size undriven lane member

end Graph

end AndInverter
