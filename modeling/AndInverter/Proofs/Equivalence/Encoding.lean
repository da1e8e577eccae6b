import AndInverter.Equivalence.Encoding
import AndInverter.Proofs.Graph.Functions
import AndInverter.Proofs.Traversal.DepthFirst
import AndInverter.Sat.Lawful
import Mathlib.Logic.Function.Basic

namespace AndInverter

/-! Encoded cones. The clauses determine the values of all encoded nodes from those of
the inputs, and any values of the inputs extend to a model of the clauses. The first
direction holds whatever the variables are; the second one rests on every new variable
being a fresh one, whose value is free. -/

namespace Encoding

variable {State : Type}

def lookup (encoding : Encoding State) (id : Nat) : Option SatLiteral :=
  encoding.literals[id]?.join

theorem literal_eq_ok_iff {encoding : Encoding State} {edge : Literal} {literal : SatLiteral} :
    encoding.literal edge = .ok literal ↔ ∃ base, encoding.lookup edge.node = some base ∧
      literal = if edge.inverted then base.not else base := by
  unfold Encoding.literal lookup
  cases encoding.literals[edge.node]?.join with
  | none => simp
  | some base =>
      simp only [Except.ok.injEq, Option.some.injEq, exists_eq_left']
      exact eq_comm

theorem lookup_define {encoding : Encoding State} {id : Nat} (inside : id < encoding.literals.size)
    (literal : SatLiteral) (backend : State) (other : Nat) :
    (encoding.define id literal backend).lookup other =
      if other = id then some literal else encoding.lookup other := by
  simp only [lookup, define]
  by_cases same : other = id
  · subst same
    simp [inside]
  · simp [Array.getElem?_setIfInBounds_ne (Ne.symm same), same]

def Shows (encoding : Encoding State) (graph : Graph) (model : Nat → Bool)
    (assignment : Assignment) : Prop :=
  ∀ id literal, encoding.lookup id = some literal →
    graph.Takes assignment id (literal.holds model)

theorem Shows.carries {encoding : Encoding State} {graph : Graph} {model : Nat → Bool}
    {assignment : Assignment} (shows : encoding.Shows graph model assignment) {edge : Literal}
    {literal : SatLiteral} (encoded : encoding.literal edge = .ok literal) :
    graph.Carries assignment edge (literal.holds model) := by
  rcases literal_eq_ok_iff.mp encoded with ⟨base, found, rfl⟩
  have takes := shows edge.node base found
  rcases edge with ⟨driver, inverted⟩
  cases inverted <;> simpa [Graph.Carries] using takes

theorem Shows.define {encoding : Encoding State} {graph : Graph} {model : Nat → Bool}
    {assignment : Assignment} (shows : encoding.Shows graph model assignment) {id : Nat}
    (inside : id < encoding.literals.size) {literal : SatLiteral} {backend : State}
    (takes : graph.Takes assignment id (literal.holds model)) :
    (encoding.define id literal backend).Shows graph model assignment := by
  intro other otherLiteral found
  rw [lookup_define inside] at found
  split at found
  · rename_i same
    cases found
    exact same ▸ takes
  · exact shows other otherLiteral found

/-! ## Nodes with a literal -/

structure Fills (graph : Graph) (done : List Nat) (encoding : Encoding State) : Prop where
  size : encoding.literals.size = graph.size
  lookup_isSome : ∀ id, (encoding.lookup id).isSome = true ↔ id ∈ done

theorem fills_start (graph : Graph) (backend : State) :
    Fills graph [] (start graph.size backend) where
  size := by simp [start]
  lookup_isSome id := by
    simp only [lookup, start, Array.getElem?_replicate]
    split <;> simp

namespace Fills

variable {graph : Graph} {done : List Nat} {encoding : Encoding State} {id : Nat} {node : Node}
  (fills : Fills graph done encoding)

include fills

theorem exists_literal {edge : Literal} (member : edge.node ∈ done) :
    ∃ literal, encoding.literal edge = .ok literal := by
  rcases Option.isSome_iff_exists.mp ((fills.lookup_isSome edge.node).mpr member) with
    ⟨base, found⟩
  exact ⟨_, literal_eq_ok_iff.mpr ⟨base, found, rfl⟩⟩

theorem define (found : graph.node? id = some node) (literal : SatLiteral) (backend : State) :
    Fills graph (id :: done) (encoding.define id literal backend) where
  size := by rw [Encoding.define, Array.size_setIfInBounds, fills.size]
  lookup_isSome other := by
    have inside : id < encoding.literals.size := fills.size ▸ Graph.lt_size_of_node? found
    rw [lookup_define inside, List.mem_cons, ← fills.lookup_isSome]
    by_cases same : other = id <;> simp [same]

theorem addNode [Backend State] (found : graph.node? id = some node)
    (ready : ∀ edge ∈ node.kind.fanins, edge.node ∈ done) :
    ∃ extended, encoding.addNode id node.kind = .ok extended ∧
      Fills graph (id :: done) extended := by
  cases kind : node.kind with
  | constant
  | input => exact ⟨_, rfl, fills.define found _ _⟩
  | gate left right =>
      rw [kind] at ready
      rcases fills.exists_literal (ready left (by simp [Kind.fanins])) with ⟨_, leftEncoded⟩
      rcases fills.exists_literal (ready right (by simp [Kind.fanins])) with ⟨_, rightEncoded⟩
      rw [Encoding.addNode, leftEncoded, rightEncoded]
      exact ⟨_, rfl, fills.define found _ _⟩
  | output driver =>
      rw [kind] at ready
      rcases fills.exists_literal (ready driver (by simp [Kind.fanins])) with ⟨_, encoded⟩
      rw [Encoding.addNode, encoded]
      exact ⟨_, rfl, fills.define found _ _⟩

end Fills

/-! ## Encoded nodes -/

variable [Backend State] [TrackedBackend State]

open TrackedBackend (clauses InUse)

structure Scoped (encoding : Encoding State) : Prop where
  clauses : ∀ clause ∈ clauses encoding.backend, ∀ literal ∈ clause,
    InUse encoding.backend literal.index
  literals : ∀ id literal, encoding.lookup id = some literal →
    InUse encoding.backend literal.index

def Reflects (encoding : Encoding State) (graph : Graph) (model : Nat → Bool)
    (assignment : Assignment) : Prop :=
  ∀ id literal node, encoding.lookup id = some literal → graph.node? id = some node →
    node.kind = .input → literal.holds model = assignment id

/-- What is true of an encoding after some nodes of a graph. -/
structure Encodes (graph : Graph) (done : List Nat) (encoding : Encoding State) : Prop
    extends Fills graph done encoding where
  inScope : encoding.Scoped
  determined : ∀ model assignment, (clauses encoding.backend).holds model = true →
    encoding.Reflects graph model assignment → encoding.Shows graph model assignment
  extensible : ∀ assignment, ∃ model, (clauses encoding.backend).holds model = true ∧
    encoding.Shows graph model assignment

theorem encodes_start (graph : Graph) (state : State) :
    Encodes graph [] (start graph.size (Backend.reset state)) where
  toFills := fills_start graph (Backend.reset state)
  inScope := by
    constructor
    · intro clause member
      rw [start, TrackedBackend.clauses_reset] at member
      cases member
    · intro id literal found
      simp only [lookup, start, Array.getElem?_replicate] at found
      split at found <;> cases found
  determined model assignment _ _ id literal found := by
    simp only [lookup, start, Array.getElem?_replicate] at found
    split at found <;> cases found
  extensible assignment := by
    refine ⟨fun _ => false, ?_, ?_⟩
    · rw [start, TrackedBackend.clauses_reset]
      rfl
    · intro id literal found
      simp only [lookup, start, Array.getElem?_replicate] at found
      split at found <;> cases found

namespace Encodes

variable {graph : Graph} {done : List Nat} {encoding : Encoding State} {id : Nat} {node : Node}
  (encodes : Encodes graph done encoding)

include encodes

theorem inUse_literal {edge : Literal} {literal : SatLiteral}
    (encoded : encoding.literal edge = .ok literal) : InUse encoding.backend literal.index := by
  rcases literal_eq_ok_iff.mp encoded with ⟨base, found, rfl⟩
  have used := encodes.inScope.literals edge.node base found
  split
  · exact used
  · exact used

private theorem lookup_ne (fresh : id ∉ done) {other : Nat} {literal : SatLiteral}
    (found : encoding.lookup other = some literal) : other ≠ id := by
  intro same
  subst same
  exact fresh ((encodes.lookup_isSome other).mp (Option.isSome_iff_exists.mpr ⟨literal, found⟩))

/-- A node gets a literal, in a back end with more clauses: these say no more than that the
literal has the value of the node, and a model of them is left for all inputs. -/
private theorem define (found : graph.node? id = some node) (fresh : id ∉ done)
    {literal : SatLiteral} {backend : State}
    (monotone : ∀ index, InUse encoding.backend index → InUse backend index)
    (used : InUse backend literal.index)
    (scope : ∀ clause ∈ clauses backend, ∀ other ∈ clause, InUse backend other.index)
    (extends_before : ∀ model, (clauses backend).holds model = true →
      (clauses encoding.backend).holds model = true)
    (correct : ∀ model assignment, (clauses backend).holds model = true →
      (node.kind = .input → literal.holds model = assignment id) →
        encoding.Shows graph model assignment → graph.Takes assignment id (literal.holds model))
    (extensible : ∀ assignment, ∃ model, (clauses backend).holds model = true ∧
      encoding.Shows graph model assignment ∧ graph.Takes assignment id (literal.holds model)) :
    Encodes graph (id :: done) (encoding.define id literal backend) := by
  have inside : id < encoding.literals.size := encodes.size ▸ Graph.lt_size_of_node? found
  exact {
    toFills := encodes.toFills.define found literal backend
    inScope := by
      constructor
      · exact scope
      · intro other otherLiteral otherFound
        rw [lookup_define inside] at otherFound
        split at otherFound
        · cases otherFound
          exact used
        · exact monotone _ (encodes.inScope.literals other otherLiteral otherFound)
    determined := by
      intro model assignment holds reflects
      have before : encoding.Shows graph model assignment := by
        apply encodes.determined model assignment (extends_before model holds)
        intro other otherLiteral otherNode otherFound
        apply reflects other otherLiteral otherNode
        rw [lookup_define inside, if_neg (encodes.lookup_ne fresh otherFound)]
        exact otherFound
      apply before.define inside
      apply correct model assignment holds _ before
      apply reflects id literal node _ found
      rw [lookup_define inside, if_pos rfl]
    extensible := by
      intro assignment
      rcases extensible assignment with ⟨model, holds, before, takes⟩
      exact ⟨model, holds, before.define inside takes⟩ }

theorem forward (found : graph.node? id = some node) {driver : Literal}
    (kind : node.kind = .output driver) (fresh : id ∉ done) {literal : SatLiteral}
    (encoded : encoding.literal driver = .ok literal) :
    Encodes graph (id :: done) (encoding.define id literal encoding.backend) := by
  have takes : ∀ model assignment, encoding.Shows graph model assignment →
      graph.Takes assignment id (literal.holds model) := by
    intro model assignment before
    exact (Graph.takes_output_iff found kind).mpr (before.carries encoded)
  apply encodes.define found fresh (fun _ used => used) (encodes.inUse_literal encoded)
    encodes.inScope.clauses (fun _ holds => holds)
  · intro model assignment _ _ before
    exact takes model assignment before
  · intro assignment
    rcases encodes.extensible assignment with ⟨model, holds, before⟩
    exact ⟨model, holds, before, takes model assignment before⟩

private theorem exists_model {literal : SatLiteral} (positive : literal.negated = false)
    (unused : ¬InUse encoding.backend literal.index) (assignment : Assignment) (value : Bool) :
    ∃ model, (clauses encoding.backend).holds model = true ∧
      encoding.Shows graph model assignment ∧ literal.holds model = value := by
  rcases encodes.extensible assignment with ⟨model, holds, before⟩
  have agree : ∀ other : SatLiteral, InUse encoding.backend other.index →
      other.holds (Function.update model literal.index value) = other.holds model := by
    intro other used
    have different : other.index ≠ literal.index := fun same => unused (same ▸ used)
    rw [SatLiteral.holds, SatLiteral.holds, Function.update_of_ne different]
  refine ⟨Function.update model literal.index value, ?_, ?_, ?_⟩
  · rw [← holds]
    exact Formula.holds_congr fun clause member other otherMember =>
      agree other (encodes.inScope.clauses clause member other otherMember)
  · intro other otherLiteral otherFound
    rw [agree otherLiteral (encodes.inScope.literals other otherLiteral otherFound)]
    exact before other otherLiteral otherFound
  · rw [SatLiteral.holds, Function.update_self, positive, Bool.bne_false]

theorem introduce (found : graph.node? id = some node) (fresh : id ∉ done)
    {formula : SatLiteral → Formula}
    (scope : ∀ literal, ∀ clause ∈ formula literal, ∀ other ∈ clause,
      other.index = literal.index ∨ InUse encoding.backend other.index)
    (total : ∀ assignment, ∃ value, graph.Takes assignment id value)
    (meaning : ∀ literal model assignment value, encoding.Shows graph model assignment →
      graph.Takes assignment id value →
        ((formula literal).holds model = true ∧
          (node.kind = .input → literal.holds model = assignment id) ↔
            literal.holds model = value)) :
    Encodes graph (id :: done) (encoding.introduce id formula) := by
  have unused := TrackedBackend.newVariable_fresh encoding.backend
  have positive := TrackedBackend.newVariable_negated encoding.backend
  have taken := TrackedBackend.newVariable_inUse encoding.backend
  have sameClauses := TrackedBackend.clauses_newVariable encoding.backend
  have monotone := TrackedBackend.inUse_newVariable encoding.backend
  rw [Encoding.introduce]
  rcases drawn : Backend.newVariable encoding.backend with ⟨literal, backend⟩
  simp only [drawn] at unused positive taken sameClauses monotone ⊢
  have clausesAfter : clauses (Backend.addFormula (formula literal) backend) =
      clauses encoding.backend ++ formula literal := by
    rw [TrackedBackend.clauses_addFormula, sameClauses]
  have usedAfter : ∀ index, InUse encoding.backend index →
      InUse (Backend.addFormula (formula literal) backend) index :=
    fun index used => TrackedBackend.inUse_addFormula _ (monotone index used)
  have literalUsed : InUse (Backend.addFormula (formula literal) backend) literal.index :=
    TrackedBackend.inUse_addFormula _ taken
  have split : ∀ model, (clauses (Backend.addFormula (formula literal) backend)).holds model =
      true ↔ (clauses encoding.backend).holds model = true ∧
        (formula literal).holds model = true := by
    intro model
    rw [clausesAfter, Formula.holds_append, Bool.and_eq_true]
  apply encodes.define found fresh usedAfter literalUsed
  · intro clause member other otherMember
    rw [clausesAfter, List.mem_append] at member
    rcases member with old | new
    · exact usedAfter _ (encodes.inScope.clauses clause old other otherMember)
    · rcases scope literal clause new other otherMember with same | used
      · exact same ▸ literalUsed
      · exact usedAfter _ used
  · exact fun model holds => ((split model).mp holds).1
  · intro model assignment holds reflected before
    rcases total assignment with ⟨value, takes⟩
    have equal := (meaning literal model assignment value before takes).mp
      ⟨((split model).mp holds).2, reflected⟩
    exact equal ▸ takes
  · intro assignment
    -- the new variable is not in use, so the model may choose its value
    rcases total assignment with ⟨value, takes⟩
    rcases encodes.exists_model positive unused assignment value with
      ⟨model, holds, before, chosen⟩
    have more := ((meaning literal model assignment value before takes).mpr chosen).1
    exact ⟨model, (split model).mpr ⟨holds, more⟩, before, chosen ▸ takes⟩

theorem addNode (found : graph.node? id = some node) (fresh : id ∉ done)
    (total : ∀ assignment, ∃ value, graph.Takes assignment id value)
    (ready : ∀ edge ∈ node.kind.fanins, edge.node ∈ done) :
    ∃ extended, encoding.addNode id node.kind = .ok extended ∧
      Encodes graph (id :: done) extended := by
  cases kind : node.kind with
  | constant =>
      refine ⟨_, rfl, encodes.introduce found fresh ?_ total ?_⟩
      · intro literal clause member other otherMember
        rw [List.mem_singleton.mp member] at otherMember
        rw [List.mem_singleton.mp otherMember]
        exact .inl rfl
      · intro literal model assignment value _ takes
        rw [(Graph.takes_constant_iff found kind).mp takes, kind]
        simp [Formula.holds, Clause.holds]
  | input =>
      refine ⟨_, rfl, encodes.introduce found fresh ?_ total ?_⟩
      · intro literal clause member
        cases member
      · intro literal model assignment value _ takes
        rw [(Graph.takes_input_iff found kind).mp takes, kind]
        simp [Formula.holds]
  | gate left right =>
      rw [kind] at ready
      rcases encodes.toFills.exists_literal (ready left (by simp [Kind.fanins])) with
        ⟨leftLiteral, leftEncoded⟩
      rcases encodes.toFills.exists_literal (ready right (by simp [Kind.fanins])) with
        ⟨rightLiteral, rightEncoded⟩
      refine ⟨encoding.introduce id fun literal => .andGate literal leftLiteral rightLiteral,
        ?_, encodes.introduce found fresh ?_ total ?_⟩
      · simp [Encoding.addNode, leftEncoded, rightEncoded, bind, Except.bind, pure, Except.pure]
      · intro literal clause member other otherMember
        rcases Formula.index_of_mem_andGate member otherMember with same | same | same
        · exact .inl same
        · exact .inr (same ▸ encodes.inUse_literal leftEncoded)
        · exact .inr (same ▸ encodes.inUse_literal rightEncoded)
      · intro literal model assignment value shows takes
        have conjunction : value = (leftLiteral.holds model && rightLiteral.holds model) :=
          takes.unique ((Graph.takes_gate_iff found kind).mpr
            ⟨_, _, shows.carries leftEncoded, shows.carries rightEncoded, rfl⟩)
        rw [Formula.andGate_holds, kind, conjunction]
        simp
  | output driver =>
      rw [kind] at ready
      rcases encodes.toFills.exists_literal (ready driver (by simp [Kind.fanins])) with
        ⟨literal, encoded⟩
      refine ⟨_, ?_, encodes.forward found kind fresh encoded⟩
      simp [Encoding.addNode, encoded, bind, Except.bind, pure, Except.pure]

end Encodes

omit [TrackedBackend State] in
theorem addNodes_append (graph : Graph) (first second : List Nat) (encoding : Encoding State) :
    addNodes graph (first ++ second) encoding = match addNodes graph first encoding with
      | (middle, some failure) => (middle, some failure)
      | (middle, none) => addNodes graph second middle := by
  induction first generalizing encoding with
  | nil => rfl
  | cons head tail induction =>
      simp only [List.cons_append, addNodes]
      cases (graph.node head).bind fun node => encoding.addNode head node.kind with
      | error failure => rfl
      | ok extended => exact induction extended

end Encoding

/-! ## Back ends -/

namespace Backend

variable {State : Type} [Backend State]

structure Stable (Holds : State → Prop) : Prop where
  newVariable : ∀ state, Holds state → Holds (Backend.newVariable state).2
  addClause : ∀ state clause, Holds state → Holds (Backend.addClause clause state)

namespace Stable

variable {Holds : State → Prop} (stable : Stable Holds)

include stable

theorem addFormula (formula : Formula) {state : State} (holds : Holds state) :
    Holds (Backend.addFormula formula state) := by
  induction formula generalizing state with
  | nil => exact holds
  | cons clause formula induction => exact induction (stable.addClause state clause holds)

theorem introduce {encoding : Encoding State} (holds : Holds encoding.backend) (id : Nat)
    (formula : SatLiteral → Formula) : Holds (encoding.introduce id formula).backend :=
  stable.addFormula _ (stable.newVariable encoding.backend holds)

theorem addNode {encoding extended : Encoding State} (holds : Holds encoding.backend) {id : Nat}
    {kind : Kind} (added : encoding.addNode id kind = .ok extended) : Holds extended.backend := by
  cases kind with
  | constant
  | input =>
      cases added
      exact stable.introduce holds id _
  | gate left right =>
      simp only [Encoding.addNode, Result.bind_eq_ok_iff, Result.pure_eq_ok_iff] at added
      rcases added with ⟨leftLiteral, -, rightLiteral, -, rfl⟩
      exact stable.introduce holds id _
  | output driver =>
      simp only [Encoding.addNode, Result.bind_eq_ok_iff, Result.pure_eq_ok_iff] at added
      rcases added with ⟨literal, -, rfl⟩
      exact holds

theorem addNodes (graph : Graph) (ids : List Nat) {encoding : Encoding State}
    (holds : Holds encoding.backend) :
    Holds (Encoding.addNodes graph ids encoding).1.backend := by
  induction ids generalizing encoding with
  | nil => exact holds
  | cons head tail induction =>
      rw [Encoding.addNodes]
      cases added : (graph.node head).bind fun node => encoding.addNode head node.kind with
      | error failure => exact holds
      | ok extended =>
          rcases Result.bind_eq_ok_iff.mp added with ⟨node, -, success⟩
          exact induction (stable.addNode holds success)

end Stable

end Backend

namespace Graph

variable {graph : Graph} {root id : Nat} {nodes : List Nat}

theorem coneBelow_eq_ok_iff : graph.coneBelow root id = .ok nodes ↔
    graph.isActive id = true ∧ nodes = (graph.fanins id).map Literal.node := by
  unfold coneBelow node
  cases found : graph.node? id with
  | none => simp [isActive, found, bind, Except.bind]
  | some node =>
      cases active : node.active <;>
        simp [isActive, Graph.fanins, found, active, bind, Except.bind, pure, Except.pure, eq_comm]

theorem leads_coneExplorer : (graph.coneExplorer root).Leads = graph.Follows := by
  funext upper lower
  apply propext
  constructor
  · rintro ⟨children, below, member⟩
    rcases coneBelow_eq_ok_iff.mp below with ⟨active, rfl⟩
    exact ⟨active, List.mem_map.mp member⟩
  · rintro ⟨active, reads⟩
    exact ⟨_, coneBelow_eq_ok_iff.mpr ⟨active, rfl⟩, List.mem_map.mpr reads⟩

theorem sorted_coneExplorer {other : Nat} (sorted : (graph.coneExplorer root).Sorted nodes) :
    (graph.coneExplorer other).Sorted nodes := by
  induction nodes with
  | nil => trivial
  | cons head tail induction =>
      rcases sorted with ⟨fresh, ⟨children, below, earlier⟩, rest⟩
      exact ⟨fresh, ⟨children, coneBelow_eq_ok_iff.mpr (coneBelow_eq_ok_iff.mp below), earlier⟩,
        induction rest⟩

theorem isActive_of_sorted (sorted : (graph.coneExplorer root).Sorted nodes) (member : id ∈ nodes) :
    graph.isActive id = true := by
  rcases sorted.exists_below member with ⟨children, below⟩
  exact (coneBelow_eq_ok_iff.mp below).1

variable {State : Type} [Backend State]

/-- The nodes that a walk has finished get their literals one after the other, each after the
nodes that it reads. What every such step keeps true is true in the end. -/
theorem exists_addNodes_of_step (sorted : (graph.coneExplorer root).Sorted nodes)
    {Holds : List Nat → Encoding State → Prop} {backend : State}
    (start : Holds [] (.start graph.size backend))
    (step : ∀ {id : Nat} {node : Node} {done : List Nat} {encoding : Encoding State},
      graph.node? id = some node → node.active = true → id ∉ done →
        (∀ edge ∈ node.kind.fanins, edge.node ∈ done) → Holds done encoding →
          ∃ extended, encoding.addNode id node.kind = .ok extended ∧
            Holds (id :: done) extended) :
    ∃ encoding, Encoding.addNodes graph nodes.reverse (.start graph.size backend) =
        (encoding, none) ∧ Holds nodes encoding := by
  induction nodes with
  | nil => exact ⟨_, rfl, start⟩
  | cons id earlier induction =>
      rcases sorted with ⟨fresh, ⟨children, below, ready⟩, rest⟩
      rcases induction rest with ⟨encoding, added, holds⟩
      rcases coneBelow_eq_ok_iff.mp below with ⟨isActive, rfl⟩
      rcases isActive_eq_true_iff.mp isActive with ⟨node, found, active⟩
      rw [fanins_of_node? found] at ready
      rcases step found active fresh
        (fun edge member => ready edge.node (List.mem_map_of_mem member)) holds with
        ⟨extended, success, holdsMore⟩
      refine ⟨extended, ?_, holdsMore⟩
      rw [List.reverse_cons, Encoding.addNodes_append, added]
      simp [Encoding.addNodes, node_eq_ok_iff.mpr found, Except.bind, success]

theorem exists_addNodes (sorted : (graph.coneExplorer root).Sorted nodes) (backend : State) :
    ∃ encoding, Encoding.addNodes graph nodes.reverse (.start graph.size backend) =
        (encoding, none) ∧ encoding.Fills graph nodes :=
  exists_addNodes_of_step sorted (Encoding.fills_start graph backend)
    fun found _ _ ready fills => fills.addNode found ready

variable [TrackedBackend State]

theorem WellFormed.encodes_addNodes (wellFormed : graph.WellFormed)
    (sorted : (graph.coneExplorer root).Sorted nodes) (backend : State) :
    ∃ encoding, Encoding.addNodes graph nodes.reverse
        (.start graph.size (Backend.reset backend)) = (encoding, none) ∧
      encoding.Encodes graph nodes := by
  apply exists_addNodes_of_step sorted (Encoding.encodes_start graph backend)
  intro id node done encoding found active fresh ready encodes
  exact encodes.addNode found fresh
    (fun assignment => wellFormed.exists_takes assignment
      (isActive_eq_true_iff.mpr ⟨node, found, active⟩)) ready

end Graph

end AndInverter
