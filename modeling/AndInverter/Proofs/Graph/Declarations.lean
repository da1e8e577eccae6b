import AndInverter.Proofs.Graph.Annotations
import AndInverter.Proofs.Graph.Construction
import AndInverter.Proofs.Graph.Replacement
import AndInverter.Proofs.Graph.Sweep

namespace AndInverter

/-! Declarations of inputs and outputs. Whatever is done to a graph, also what leaves it with
cycles or with edges that only one end knows of, its inputs are declared once each and in one
list, and so are its outputs, which nothing reads. -/

def Kind.role (kind : Kind) : Bool × Bool :=
  (kind.isInput, kind.isOutput)

@[simp] theorem Kind.role_mapFanins (transform : Literal → Literal) (kind : Kind) :
    (kind.mapFanins transform).role = kind.role := by
  simp [role]

namespace Graph

structure DeclaresInputs (graph : Graph) : Prop where
  nodup : graph.inputs.Nodup
  mem_iff : ∀ id, id ∈ graph.inputs ↔ ∃ node, graph.node? id = some node ∧ node.kind = .input

structure DeclaresOutputs (graph : Graph) : Prop where
  nodup : graph.outputs.Nodup
  mem_iff : ∀ id, id ∈ graph.outputs ↔
    ∃ node, graph.node? id = some node ∧ node.kind.isOutput = true
  readable : ∀ consumer driver, graph.Reads consumer driver →
    ∃ node, graph.node? driver = some node ∧ node.kind.isOutput = false

theorem WellFormed.declaresInputs {graph : Graph} (wellFormed : graph.WellFormed) :
    graph.DeclaresInputs :=
  ⟨wellFormed.inputs_nodup, wellFormed.mem_inputs⟩

theorem Consistent.declaresOutputs {graph : Graph} (consistent : graph.Consistent) :
    graph.DeclaresOutputs :=
  ⟨consistent.outputs_nodup, consistent.mem_outputs, consistent.fanins_defined⟩

theorem DeclaresOutputs.not_reads {graph : Graph} (declares : graph.DeclaresOutputs)
    {consumer output : Nat} (member : output ∈ graph.outputs) : ¬graph.Reads consumer output := by
  intro reads
  rcases (declares.mem_iff output).mp member with ⟨node, found, isOutput⟩
  rcases declares.readable consumer output reads with ⟨other, otherFound, noOutput⟩
  cases found.symm.trans otherFound
  cases isOutput.symm.trans noOutput

def role? (graph : Graph) (id : Nat) : Option (Bool × Bool) :=
  (graph.node? id).map fun node => node.kind.role

theorem exists_role_iff {graph : Graph} (holds : Bool × Bool → Prop) (id : Nat) :
    (∃ node, graph.node? id = some node ∧ holds node.kind.role) ↔
      ∃ role, graph.role? id = some role ∧ holds role := by
  simp [role?]

/-! ## The same declarations -/

/-- The same nodes are declared, and for the same roles; what is read was read before, or it
could have been. -/
structure SameDeclarations (before after : Graph) : Prop where
  inputs : after.inputs = before.inputs
  outputs : after.outputs = before.outputs
  role : ∀ id, after.role? id = before.role? id
  reads : ∀ consumer driver, after.Reads consumer driver → before.Reads consumer driver ∨
    ∃ node, before.node? driver = some node ∧ node.kind.isOutput = false

namespace SameDeclarations

theorem exists_role_iff {before after : Graph} (same : before.SameDeclarations after)
    (holds : Bool × Bool → Prop) (id : Nat) :
    (∃ node, after.node? id = some node ∧ holds node.kind.role) ↔
      ∃ node, before.node? id = some node ∧ holds node.kind.role := by
  rw [Graph.exists_role_iff, Graph.exists_role_iff, same.role]

variable {graph replaced : Graph}

theorem role?_mapNodes {change : Nat → Node → Node}
    (kept : ∀ id node, (change id node).kind.role = node.kind.role) (id : Nat) :
    (graph.mapNodes change).role? id = graph.role? id := by
  rw [role?, role?, node?_mapNodes]
  cases graph.node? id with
  | none => rfl
  | some node => exact congrArg some (kept id node)

theorem of_sameWiring {before after : Graph} (same : before.SameWiring after) :
    before.SameDeclarations after where
  inputs := same.inputs
  outputs := same.outputs
  role id := by
    ext role
    have kinds := same.exists_kind_iff (fun kind => kind.role = role) id
    simpa [role?] using kinds
  reads consumer driver reads := .inl (same.reads_iff.mp reads)

theorem replace {replacement : Literal} {gate : Nat}
    (success : graph.replace replacement gate = .ok replaced) :
    graph.SameDeclarations replaced := by
  rcases replace_eq_ok_iff.mp success with ⟨old, replaceable, rfl⟩
  refine ⟨rfl, rfl, role?_mapNodes fun id node => ?_, ?_⟩
  · simp only [replaceInNode]
    split
    · exact Kind.role_mapFanins _ _
    · rfl
  · rintro consumer driver ⟨edge, member, rfl⟩
    rcases node?_of_mem_fanins member with ⟨changed, later, inside⟩
    rw [node?_mapNodes] at later
    rcases Option.map_eq_some_iff.mp later with ⟨node, found, rfl⟩
    have kept : ∀ other ∈ node.fanins, graph.Reads consumer other.node :=
      fun other otherMember => ⟨other, by rwa [fanins_of_node? found], rfl⟩
    simp only [replaceInNode] at inside
    split at inside
    · rw [Kind.fanins_mapFanins] at inside
      rcases List.mem_map.mp inside with ⟨other, otherMember, rfl⟩
      rw [redirect]
      split
      · exact .inr replaceable.readable_target
      · exact .inl (kept other otherMember)
    · exact .inl (kept edge inside)

theorem sweep : graph.SameDeclarations graph.sweep where
  inputs := rfl
  outputs := rfl
  role := by
    rw [Graph.sweep, removeGates]
    apply role?_mapNodes
    intro id node
    rw [sweepNode]
    split <;> rfl
  reads consumer driver reads := .inl (reads_sweep_iff.mp reads)

theorem modify {id : Nat} {change : Node → Node} (kept : ∀ node, (change node).kind = node.kind) :
    graph.SameDeclarations (graph.modify id change) where
  inputs := rfl
  outputs := rfl
  role := map_node?_modify (fun node => congrArg Kind.role (kept node)) id graph
  reads consumer driver reads := by
    have kept : ∀ node, (change node).fanins = node.fanins :=
      fun node => congrArg Kind.fanins (kept node)
    have fanins : (graph.modify id change).fanins consumer = graph.fanins consumer := by
      rw [Graph.fanins, Graph.fanins, map_node?_modify kept]
    rw [Reads, fanins] at reads
    exact .inl reads

theorem deactivate {id : Nat} (success : graph.deactivate id = .ok replaced) :
    graph.SameDeclarations replaced := by
  rw [Graph.deactivate] at success
  split at success
  · cases success
  · simp only [update, Result.bind_eq_ok_iff, Result.pure_eq_ok_iff] at success
    rcases success with ⟨-, -, rfl⟩
    exact modify fun _ => rfl

end SameDeclarations

theorem DeclaresInputs.of_same {before after : Graph} (declares : before.DeclaresInputs)
    (same : before.SameDeclarations after) : after.DeclaresInputs where
  nodup := same.inputs ▸ declares.nodup
  mem_iff id := by
    rw [same.inputs, declares.mem_iff]
    have kinds := same.exists_role_iff (fun role => role.1 = true) id
    simpa only [Kind.role, Kind.isInput_iff] using kinds.symm

theorem DeclaresOutputs.of_same {before after : Graph} (declares : before.DeclaresOutputs)
    (same : before.SameDeclarations after) : after.DeclaresOutputs where
  nodup := same.outputs ▸ declares.nodup
  mem_iff id := by
    rw [same.outputs, declares.mem_iff]
    exact (same.exists_role_iff (fun role => role.2 = true) id).symm
  readable consumer driver reads := by
    apply (same.exists_role_iff (fun role => role.2 = false) driver).mpr
    rcases same.reads consumer driver reads with before | readable
    · exact declares.readable consumer driver before
    · exact readable

namespace Grows

variable {before after : Graph} {id : Nat} {kind : Kind} (grows : before.Grows id kind after)

include grows

theorem declaresInputs (declares : before.DeclaresInputs) : after.DeclaresInputs := by
  have members : ∀ other, other ∈ before.inputs ↔
      ∃ node, before.node? other = some node ∧ node.kind.isInput = true := by
    simpa only [Kind.isInput_iff] using declares.mem_iff
  constructor
  · rw [grows.inputs]
    exact grows.nodup_declared members declares.nodup
  · intro other
    rw [grows.inputs]
    simpa only [Kind.isInput_iff] using grows.mem_declared_iff members other

theorem declaresOutputs (declares : before.DeclaresOutputs) : after.DeclaresOutputs where
  nodup := by
    rw [grows.outputs]
    exact grows.nodup_declared declares.mem_iff declares.nodup
  mem_iff other := by
    rw [grows.outputs]
    exact grows.mem_declared_iff declares.mem_iff other
  readable consumer driver reads :=
    grows.readable_later
      (grows.readable_of_reads (fun _ => declares.readable consumer driver) reads)

end Grows

/-! ## What lasts -/

/-- What every replacement, sweep and annotation keeps true, of damaged graphs too. -/
structure Lasting (Holds : Graph → Prop) : Prop where
  replace : ∀ {graph replaced : Graph} {replacement : Literal} {gate : Nat}, Holds graph →
    graph.replace replacement gate = .ok replaced → Holds replaced
  sweep : ∀ {graph : Graph}, Holds graph → Holds graph.sweep
  annotate : ∀ {graph after : Graph}, Holds graph → graph.SameWiring after → Holds after

/-- What holds of consistent graphs, and what everything that is done to a graph keeps true,
also if it is not allowed. -/
structure Enduring (Holds : Graph → Prop) : Prop extends Lasting Holds where
  consistent : ∀ {graph : Graph}, graph.Consistent → Holds graph
  grows : ∀ {graph after : Graph} {id : Nat} {kind : Kind}, Holds graph →
    graph.Grows id kind after → Holds after
  deactivate : ∀ {graph after : Graph} {id : Nat}, Holds graph →
    graph.deactivate id = .ok after → Holds after

theorem enduring_declaresInputs : Enduring DeclaresInputs where
  replace declares success := declares.of_same (.replace success)
  sweep declares := declares.of_same .sweep
  annotate declares same := declares.of_same (.of_sameWiring same)
  consistent consistent := consistent.declaresInputs
  grows declares grows := grows.declaresInputs declares
  deactivate declares success := declares.of_same (.deactivate success)

theorem enduring_declaresOutputs : Enduring DeclaresOutputs where
  replace declares success := declares.of_same (.replace success)
  sweep declares := declares.of_same .sweep
  annotate declares same := declares.of_same (.of_sameWiring same)
  consistent consistent := consistent.declaresOutputs
  grows declares grows := grows.declaresOutputs declares
  deactivate declares success := declares.of_same (.deactivate success)

theorem enduring_constant :
    Enduring fun graph => ∃ node, graph.node? 0 = some node ∧ node.kind = .constant where
  replace := by
    rintro graph replaced replacement gate ⟨node, found, kind⟩ success
    rcases replace_eq_ok_iff.mp success with ⟨old, -, rfl⟩
    refine ⟨_, by rw [node?_mapNodes, found]; rfl, ?_⟩
    simp only [replaceInNode, kind]
    split <;> rfl
  sweep := by
    rintro graph ⟨node, found, kind⟩
    refine ⟨_, by rw [node?_sweep, found]; rfl, ?_⟩
    split <;> exact kind
  annotate := by
    rintro graph after holds same
    exact (same.exists_kind_iff (· = .constant) 0).mpr holds
  consistent consistent := by
    rcases consistent.constant with ⟨node, found, kind, -⟩
    exact ⟨node, found, kind⟩
  grows := by
    rintro graph after id kind ⟨node, found, isConstant⟩ grows
    rcases grows.kept 0 node found with ⟨changed, later, sameKind, -, -⟩
    exact ⟨changed, later, sameKind.trans isConstant⟩
  deactivate := by
    rintro graph after id ⟨node, found, kind⟩ success
    rw [Graph.deactivate] at success
    split at success
    · cases success
    · rename_i other
      simp only [update, Result.bind_eq_ok_iff, Result.pure_eq_ok_iff] at success
      rcases success with ⟨-, -, rfl⟩
      exact ⟨node, by rw [node?_modify, if_neg other, found], kind⟩

end Graph

end AndInverter
