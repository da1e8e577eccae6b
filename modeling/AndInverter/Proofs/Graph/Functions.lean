import AndInverter.Proofs.Graph.Frame

namespace AndInverter.Graph

/-! Functions through a change of a graph. What an active node reads may be replaced
by anything that carries the same signal; then every node that is active afterwards
computes what it computed before. -/

variable {before after : Graph}

/-! ## Signals -/

def SameSignal (graph : Graph) (left right : Literal) : Prop :=
  ∀ assignment value,
    graph.Carries assignment left value ↔ graph.Carries assignment right value

theorem SameSignal.symm {graph : Graph} {left right : Literal}
    (same : graph.SameSignal left right) : graph.SameSignal right left :=
  fun assignment value => (same assignment value).symm

theorem carries_plain_iff {graph : Graph} {assignment : Assignment} {id : Nat} {value : Bool} :
    graph.Carries assignment (.plain id) value ↔ graph.Takes assignment id value := by
  cases value <;> rfl

theorem carries_xor_iff {graph : Graph} {assignment : Assignment} {literal : Literal}
    {flip value : Bool} : graph.Carries assignment (literal.xor flip) value ↔
      graph.Carries assignment literal (value != flip) := by
  rcases literal with ⟨node, inverted⟩
  cases inverted <;> cases flip <;> cases value <;> rfl

theorem takes_iff_carries {graph : Graph} {assignment : Assignment} {literal : Literal}
    {value : Bool} : graph.Takes assignment literal.node value ↔
      graph.Carries assignment literal (value != literal.inverted) := by
  rcases literal with ⟨node, inverted⟩
  cases inverted <;> cases value <;> rfl

theorem takes_constant_iff {graph : Graph} {assignment : Assignment} {id : Nat} {node : Node}
    {value : Bool} (found : graph.node? id = some node) (kind : node.kind = .constant) :
    graph.Takes assignment id value ↔ value = false := by
  constructor
  · intro takes
    exact takes.unique (.constant found kind)
  · rintro rfl
    exact .constant found kind

theorem takes_input_iff {graph : Graph} {assignment : Assignment} {id : Nat} {node : Node}
    {value : Bool} (found : graph.node? id = some node) (kind : node.kind = .input) :
    graph.Takes assignment id value ↔ value = assignment id := by
  constructor
  · intro takes
    exact takes.unique (.input found kind)
  · rintro rfl
    exact .input found kind

theorem takes_gate_iff {graph : Graph} {assignment : Assignment} {id : Nat} {node : Node}
    {left right : Literal} {value : Bool} (found : graph.node? id = some node)
    (kind : node.kind = .gate left right) :
    graph.Takes assignment id value ↔ ∃ leftValue rightValue,
      graph.Carries assignment left leftValue ∧ graph.Carries assignment right rightValue ∧
        value = (leftValue && rightValue) := by
  constructor
  · intro takes
    cases takes with
    | gate otherFound otherKind leftTakes rightTakes =>
        cases found.symm.trans otherFound
        cases kind.symm.trans otherKind
        exact ⟨_, _, takes_iff_carries.mp leftTakes, takes_iff_carries.mp rightTakes, rfl⟩
    | constant otherFound otherKind
    | input otherFound otherKind
    | output otherFound otherKind =>
        cases found.symm.trans otherFound
        cases kind.symm.trans otherKind
  · rintro ⟨leftValue, rightValue, leftCarries, rightCarries, rfl⟩
    have takes := Takes.gate found kind leftCarries rightCarries
    simpa using takes

theorem takes_output_iff {graph : Graph} {assignment : Assignment} {id : Nat} {node : Node}
    {driver : Literal} {value : Bool} (found : graph.node? id = some node)
    (kind : node.kind = .output driver) :
    graph.Takes assignment id value ↔ graph.Carries assignment driver value := by
  constructor
  · intro takes
    cases takes with
    | output otherFound otherKind driverTakes =>
        cases found.symm.trans otherFound
        cases kind.symm.trans otherKind
        exact takes_iff_carries.mp driverTakes
    | constant otherFound otherKind
    | input otherFound otherKind
    | gate otherFound otherKind =>
        cases found.symm.trans otherFound
        cases kind.symm.trans otherKind
  · intro carries
    have takes := Takes.output found kind carries
    simpa using takes

theorem WellFormed.exists_carries {graph : Graph} (wellFormed : graph.WellFormed)
    (assignment : Assignment) {literal : Literal} (active : graph.isActive literal.node = true) :
    ∃ value, graph.Carries assignment literal value := by
  rcases wellFormed.exists_takes assignment active with ⟨value, takes⟩
  refine ⟨value != literal.inverted, ?_⟩
  cases flag : literal.inverted <;> simpa [Carries, flag] using takes

theorem Carries.unique {graph : Graph} {assignment : Assignment} {literal : Literal}
    {first second : Bool} (left : graph.Carries assignment literal first)
    (right : graph.Carries assignment literal second) : first = second := by
  have equal := Takes.unique left right
  cases first <;> cases second <;> cases flag : literal.inverted <;> simp_all

theorem WellFormed.sameSignal_of_imp {graph : Graph} (wellFormed : graph.WellFormed)
    {left right : Literal} (active : graph.isActive left.node = true)
    (forward : ∀ assignment value,
      graph.Carries assignment left value → graph.Carries assignment right value) :
    graph.SameSignal left right := by
  intro assignment value
  constructor
  · exact forward assignment value
  · intro carries
    rcases wellFormed.exists_carries assignment active with ⟨other, otherCarries⟩
    rw [carries.unique (forward assignment other otherCarries)]
    exact otherCarries

theorem WellFormed.carries_low_iff {graph : Graph} (wellFormed : graph.WellFormed)
    {assignment : Assignment} {value : Bool} :
    graph.Carries assignment .low value ↔ value = false := by
  rcases wellFormed.constant with ⟨node, found, kind, -⟩
  exact carries_plain_iff.trans (takes_constant_iff found kind)

/-! ## Changes -/

/-- Nothing is lost but gates, and what is still active computes what it did. -/
structure Preserves (before after : Graph) : Prop where
  frame : before.Frame after
  functions : ∀ id, after.isActive id = true → before.SameFunction id after id

theorem Preserves.refl (graph : Graph) : graph.Preserves graph where
  frame := .refl graph
  functions _ _ _ _ := Iff.rfl

theorem Preserves.trans {middle : Graph} (first : before.Preserves middle)
    (second : middle.Preserves after) : before.Preserves after where
  frame := first.frame.trans second.frame
  functions id active assignment value :=
    (first.functions id (second.frame.isActive active) assignment value).trans
      (second.functions id active assignment value)

theorem Preserves.carries_iff (preserves : before.Preserves after) {literal : Literal}
    (active : after.isActive literal.node = true) (assignment : Assignment) (value : Bool) :
    before.Carries assignment literal value ↔ after.Carries assignment literal value :=
  preserves.functions literal.node active assignment _

theorem Preserves.sameSignal_iff (preserves : before.Preserves after) {left right : Literal}
    (leftActive : after.isActive left.node = true)
    (rightActive : after.isActive right.node = true) :
    before.SameSignal left right ↔ after.SameSignal left right := by
  constructor
  · intro same assignment value
    rw [← preserves.carries_iff leftActive, ← preserves.carries_iff rightActive]
    exact same assignment value
  · intro same assignment value
    rw [preserves.carries_iff leftActive, preserves.carries_iff rightActive]
    exact same assignment value

/-- Where every edge of an active node may be redirected, but only to the same
signal, a node takes no other value: by induction on the rank in the graph after. The
inputs that are active afterwards have the same values before and after. -/
theorem takes_of_rewired (wellFormed : after.WellFormed) {early late : Assignment}
    (source : ∀ id, after.isActive id = true →
      (∃ node, before.node? id = some node) ∧ late id = early id)
    (rewired : ∀ id node, before.node? id = some node → after.isActive id = true →
      ∃ transform changed, after.node? id = some changed ∧
        changed.kind = node.kind.mapFanins transform ∧
        ∀ edge ∈ node.kind.fanins, ∀ value,
          before.Carries early edge value → before.Carries early (transform edge) value)
    {id : Nat} {value : Bool} (active : after.isActive id = true)
    (takes : before.Takes early id value) : after.Takes late id value := by
  rcases wellFormed.acyclic with ⟨rank, decreases⟩
  generalize bound : rank id = height
  induction height using Nat.strongRecOn generalizing id value with
  | _ height induction =>
      rcases source id active with ⟨⟨node, found⟩, assigned⟩
      rcases rewired id node found active with ⟨transform, changed, later, kind, same⟩
      have carried : ∀ edge ∈ node.kind.fanins, ∀ carriedValue,
          before.Carries early edge carriedValue →
            after.Carries late (transform edge) carriedValue := by
        intro edge member carriedValue carries
        have mapped : transform edge ∈ after.fanins id := by
          rw [fanins_of_node? later, kind, Kind.fanins_mapFanins]
          exact List.mem_map_of_mem member
        have reads := reads_of_mem mapped
        exact induction _ (bound ▸ decreases id _ active reads)
          (wellFormed.isActive_driver _ _ active reads) (same edge member _ carries) rfl
      have flipped : ∀ (taken flag : Bool), ((taken != flag) != flag) = taken := by decide
      have taken : ∀ edge ∈ node.kind.fanins, ∀ driverValue,
          before.Takes early edge.node driverValue →
            after.Carries late (transform edge) (driverValue != edge.inverted) := by
        intro edge member driverValue driverTakes
        apply carried edge member
        rwa [Carries, flipped]
      cases takes with
      | constant otherFound isConstant =>
          cases found.symm.trans otherFound
          exact .constant later (by rw [kind, isConstant]; rfl)
      | input otherFound isInput =>
          cases found.symm.trans otherFound
          rw [← assigned]
          exact .input later (by rw [kind, isInput]; rfl)
      | gate otherFound isGate leftTakes rightTakes =>
          cases found.symm.trans otherFound
          rw [isGate] at kind taken
          have left := taken _ (by simp [Kind.fanins]) _ leftTakes
          have right := taken _ (by simp [Kind.fanins]) _ rightTakes
          have result := Takes.gate later kind left right
          rwa [flipped, flipped] at result
      | output otherFound isOutput driverTakes =>
          cases found.symm.trans otherFound
          rw [isOutput] at kind taken
          have result := Takes.output later kind (taken _ (by simp [Kind.fanins]) _ driverTakes)
          rwa [flipped] at result

theorem WellFormed.preserves_of_rewired (wellFormed : before.WellFormed)
    (frame : before.Frame after) (wellFormedAfter : after.WellFormed)
    (rewired : ∀ id node, before.node? id = some node → after.isActive id = true →
      ∃ transform changed, after.node? id = some changed ∧
        changed.kind = node.kind.mapFanins transform ∧
        ∀ edge ∈ node.kind.fanins, ∀ assignment value,
          before.Carries assignment edge value →
            before.Carries assignment (transform edge) value) :
    before.Preserves after where
  frame := frame
  functions id active assignment value := by
    have source : ∀ other, after.isActive other = true →
        (∃ node, before.node? other = some node) ∧ assignment other = assignment other := by
      intro other otherActive
      rcases isActive_eq_true_iff.mp (frame.isActive otherActive) with ⟨node, found, -⟩
      exact ⟨⟨node, found⟩, rfl⟩
    have redirected : ∀ other node, before.node? other = some node → after.isActive other = true →
        ∃ transform changed, after.node? other = some changed ∧
          changed.kind = node.kind.mapFanins transform ∧
          ∀ edge ∈ node.kind.fanins, ∀ carried,
            before.Carries assignment edge carried →
              before.Carries assignment (transform edge) carried := by
      intro other node found otherActive
      rcases rewired other node found otherActive with ⟨transform, changed, later, kind, same⟩
      exact ⟨transform, changed, later, kind, fun edge member => same edge member assignment⟩
    have forward : ∀ taken, before.Takes assignment id taken → after.Takes assignment id taken :=
      fun taken takes => takes_of_rewired wellFormedAfter source redirected active takes
    constructor
    · exact forward value
    · intro takes
      rcases wellFormed.exists_takes assignment (frame.isActive active) with ⟨other, otherTakes⟩
      rw [Takes.unique takes (forward other otherTakes)]
      exact otherTakes

end AndInverter.Graph
