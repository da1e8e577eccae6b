import AndInverter.Proofs.Equivalence.Query
import AndInverter.Proofs.Reduction.Views
import AndInverter.Proofs.Traversal.Blocks

namespace AndInverter

/-! The calls of a query. Whatever a back end answers, a query resets it, encodes the nodes of
both cones, each of them once and after what it reads, and puts one question to it. An output
makes no call of its own: its literal is the one of what drives it, inverted where the edge
is. -/

/-! ## Calls on record -/

/-- A back end, with all its calls beside it, in order. A reset does not forget them. -/
structure Traced (State : Type) where
  backend : State
  calls : List Call

namespace Traced

variable {State : Type} [Backend State]

instance : Backend (Traced State) where
  reset traced := ⟨Backend.reset traced.backend, traced.calls ++ [.reset]⟩
  newVariable traced :=
    let (literal, backend) := Backend.newVariable traced.backend
    (literal, ⟨backend, traced.calls ++ [.newVariable literal]⟩)
  addClause clause traced :=
    ⟨Backend.addClause clause traced.backend, traced.calls ++ [.addClause clause]⟩
  assume literals traced :=
    ⟨Backend.assume literals traced.backend, traced.calls ++ [.assume literals]⟩
  solve traced :=
    let (answer, backend) := Backend.solve traced.backend
    (answer, ⟨backend, traced.calls ++ [.solve answer]⟩)

theorem isView_backend : Backend.IsView (backend : Traced State → State) where
  reset _ := rfl
  newVariable _ := rfl
  addClause _ _ := rfl
  assume _ _ := rfl
  solve _ := rfl

theorem calls_newVariable (traced : Traced State) :
    (Backend.newVariable traced).2.calls =
      traced.calls ++ [.newVariable (Backend.newVariable traced).1] :=
  rfl

theorem calls_addFormula (formula : Formula) (traced : Traced State) :
    (Backend.addFormula formula traced).calls = traced.calls ++ formula.map .addClause := by
  induction formula generalizing traced with
  | nil => exact (List.append_nil _).symm
  | cons clause formula induction =>
      change (Backend.addFormula formula (Backend.addClause clause traced)).calls = _
      rw [induction]
      change traced.calls ++ [.addClause clause] ++ formula.map .addClause = _
      rw [List.append_assoc]
      rfl

end Traced

namespace Call

def isClause : Call → Bool
  | .addClause _ => true
  | _ => false

end Call

/-! ## The calls of a node -/

def SatLiteral.ofEdge (literals : Nat → SatLiteral) (edge : Literal) : SatLiteral :=
  if edge.inverted then (literals edge.node).not else literals edge.node

/-- The calls that give a node its own literal: a new variable, and the clauses that say what
the node computes. -/
def Kind.calls (literals : Nat → SatLiteral) (own : SatLiteral) : Kind → List Call
  | .constant => [.newVariable own, .addClause [own.not]]
  | .input => [.newVariable own]
  | .gate left right =>
      .newVariable own ::
        (Formula.andGate own (.ofEdge literals left) (.ofEdge literals right)).map .addClause
  | .output _ => []

theorem Kind.calls_congr {kind : Kind} {literals others : Nat → SatLiteral} (own : SatLiteral)
    (agree : ∀ edge ∈ kind.fanins, literals edge.node = others edge.node) :
    kind.calls literals own = kind.calls others own := by
  cases kind with
  | constant
  | input
  | output driver => rfl
  | gate left right =>
      have leftSame := agree left (by simp [fanins])
      have rightSame := agree right (by simp [fanins])
      simp only [calls, SatLiteral.ofEdge, leftSame, rightSame]

namespace Graph

variable {graph : Graph}

def nodeCalls (graph : Graph) (literals : Nat → SatLiteral) (id : Nat) : List Call :=
  match graph.node? id with
  | some node => node.kind.calls literals (literals id)
  | none => []

theorem nodeCalls_of_node? {id : Nat} {node : Node} (found : graph.node? id = some node)
    (literals : Nat → SatLiteral) :
    graph.nodeCalls literals id = node.kind.calls literals (literals id) := by
  rw [nodeCalls, found]

theorem nodeCalls_congr {id : Nat} {literals others : Nat → SatLiteral}
    (own : literals id = others id)
    (agree : ∀ edge ∈ graph.fanins id, literals edge.node = others edge.node) :
    graph.nodeCalls literals id = graph.nodeCalls others id := by
  cases found : graph.node? id with
  | none => simp only [nodeCalls, found]
  | some node =>
      rw [fanins_of_node? found] at agree
      rw [nodeCalls_of_node? found, nodeCalls_of_node? found, own,
        Kind.calls_congr _ agree]

def Forwards (graph : Graph) (literals : Nat → SatLiteral) (ids : List Nat) : Prop :=
  ∀ id ∈ ids, ∀ node driver, graph.node? id = some node → node.kind = .output driver →
    literals id = .ofEdge literals driver

end Graph

/-! ## Encodings -/

namespace Encoding

variable {State : Type} {graph : Graph} {id : Nat} {node : Node}

def literalOf (encoding : Encoding State) (id : Nat) : SatLiteral :=
  (encoding.lookup id).getD (.ofIndex 0)

theorem eq_ofEdge_of_literal {encoding : Encoding State} {edge : Literal} {literal : SatLiteral}
    (encoded : encoding.literal edge = .ok literal) :
    literal = .ofEdge encoding.literalOf edge := by
  rcases literal_eq_ok_iff.mp encoded with ⟨base, found, rfl⟩
  simp only [SatLiteral.ofEdge, literalOf, found, Option.getD_some]

theorem literalOf_define {encoding : Encoding State} (inside : id < encoding.literals.size)
    (literal : SatLiteral) (backend : State) :
    (encoding.define id literal backend).literalOf =
      Function.update encoding.literalOf id literal := by
  funext other
  rw [literalOf, lookup_define inside]
  by_cases same : other = id
  · subst same
    simp
  · rw [if_neg same, Function.update_of_ne same, literalOf]

variable [Backend State]

/-- The calls of an encoding are those of its nodes, in the order in which they got their
literals, after some earlier ones. -/
structure Transcribes (graph : Graph) (earlier : List Call) (done : List Nat)
    (encoding : Encoding (Traced State)) : Prop extends Fills graph done encoding where
  calls : encoding.backend.calls =
    earlier ++ done.reverse.flatMap (graph.nodeCalls encoding.literalOf)
  forwards : graph.Forwards encoding.literalOf done
  closed : ∀ id ∈ done, ∀ edge ∈ graph.fanins id, edge.node ∈ done

namespace Transcribes

variable {earlier : List Call} {done : List Nat} {encoding : Encoding (Traced State)}
  (transcribes : Transcribes graph earlier done encoding)

include transcribes

omit [Backend State] in
theorem define (found : graph.node? id = some node) (fresh : id ∉ done)
    (ready : ∀ edge ∈ node.kind.fanins, edge.node ∈ done) {literal : SatLiteral}
    {backend : Traced State}
    (calls : backend.calls =
      encoding.backend.calls ++ node.kind.calls encoding.literalOf literal)
    (forwarded : ∀ driver, node.kind = .output driver →
      literal = .ofEdge encoding.literalOf driver) :
    Transcribes graph earlier (id :: done) (encoding.define id literal backend) := by
  have inside : id < encoding.literals.size := transcribes.size ▸ Graph.lt_size_of_node? found
  -- the earlier nodes read earlier ones only, so the new literal changes none of their calls
  have kept : ∀ other ∈ done,
      Function.update encoding.literalOf id literal other = encoding.literalOf other :=
    fun other member => Function.update_of_ne (fun same : other = id => fresh (same ▸ member)) _ _
  have keptEdge : ∀ edge : Literal, edge.node ∈ done →
      SatLiteral.ofEdge (Function.update encoding.literalOf id literal) edge =
        .ofEdge encoding.literalOf edge := by
    intro edge member
    simp only [SatLiteral.ofEdge, kept edge.node member]
  refine ⟨transcribes.toFills.define found literal backend, ?_, ?_, ?_⟩
  · rw [literalOf_define inside, List.reverse_cons, List.flatMap_append, List.flatMap_singleton,
      ← List.append_assoc]
    have before : done.reverse.flatMap
          (graph.nodeCalls (Function.update encoding.literalOf id literal)) =
        done.reverse.flatMap (graph.nodeCalls encoding.literalOf) := by
      apply List.flatMap_congr
      intro other member
      rw [List.mem_reverse] at member
      exact Graph.nodeCalls_congr (kept other member)
        fun edge edgeMember => kept edge.node (transcribes.closed other member edge edgeMember)
    have own : graph.nodeCalls (Function.update encoding.literalOf id literal) id =
        node.kind.calls encoding.literalOf literal := by
      rw [Graph.nodeCalls_of_node? found, Function.update_self]
      exact Kind.calls_congr literal fun edge member => kept edge.node (ready edge member)
    rw [before, own, ← transcribes.calls]
    exact calls
  · rw [literalOf_define inside]
    intro other member otherNode driver otherFound kind
    rcases List.mem_cons.mp member with rfl | old
    · cases found.symm.trans otherFound
      rw [Function.update_self, keptEdge driver (ready driver (by simp [kind, Kind.fanins]))]
      exact forwarded driver kind
    · have driverMember : driver.node ∈ done := by
        apply transcribes.closed other old driver
        rw [Graph.fanins_of_node? otherFound, kind]
        exact List.mem_singleton_self driver
      rw [kept other old, keptEdge driver driverMember]
      exact transcribes.forwards other old otherNode driver otherFound kind
  · intro other member edge edgeMember
    apply List.mem_cons_of_mem
    rcases List.mem_cons.mp member with rfl | old
    · rw [Graph.fanins_of_node? found] at edgeMember
      exact ready edge edgeMember
    · exact transcribes.closed other old edge edgeMember

theorem introduce (found : graph.node? id = some node) (fresh : id ∉ done)
    (ready : ∀ edge ∈ node.kind.fanins, edge.node ∈ done) (formula : SatLiteral → Formula)
    (noOutput : node.kind.isOutput = false)
    (calls : ∀ own, node.kind.calls encoding.literalOf own =
      .newVariable own :: (formula own).map .addClause) :
    Transcribes graph earlier (id :: done) (encoding.introduce id formula) := by
  have told : (Backend.addFormula (formula (Backend.newVariable encoding.backend).1)
        (Backend.newVariable encoding.backend).2).calls =
      encoding.backend.calls ++
        node.kind.calls encoding.literalOf (Backend.newVariable encoding.backend).1 := by
    rw [Traced.calls_addFormula, Traced.calls_newVariable, calls, List.append_assoc,
      List.singleton_append]
  refine transcribes.define found fresh ready told fun driver kind => ?_
  rw [kind] at noOutput
  cases noOutput

theorem addNode (found : graph.node? id = some node) (fresh : id ∉ done)
    (ready : ∀ edge ∈ node.kind.fanins, edge.node ∈ done) :
    ∃ extended, encoding.addNode id node.kind = .ok extended ∧
      Transcribes graph earlier (id :: done) extended := by
  cases kind : node.kind with
  | constant
  | input =>
      refine ⟨_, rfl, transcribes.introduce found fresh ready _ (by rw [kind]; rfl) fun own => ?_⟩
      rw [kind]
      rfl
  | gate left right =>
      have leftReady := ready left (by simp [kind, Kind.fanins])
      have rightReady := ready right (by simp [kind, Kind.fanins])
      rcases transcribes.toFills.exists_literal leftReady with ⟨first, leftEncoded⟩
      rcases transcribes.toFills.exists_literal rightReady with ⟨second, rightEncoded⟩
      refine ⟨encoding.introduce id fun literal => .andGate literal first second, ?_,
        transcribes.introduce found fresh ready _ (by rw [kind]; rfl) fun own => ?_⟩
      · rw [Encoding.addNode, leftEncoded, rightEncoded]
        rfl
      · rw [kind, eq_ofEdge_of_literal leftEncoded, eq_ofEdge_of_literal rightEncoded]
        rfl
  | output driver =>
      have driverReady := ready driver (by simp [kind, Kind.fanins])
      rcases transcribes.toFills.exists_literal driverReady with ⟨literal, encoded⟩
      refine ⟨encoding.define id literal encoding.backend, ?_,
        transcribes.define found fresh ready ?_ ?_⟩
      · rw [Encoding.addNode, encoded]
        rfl
      · rw [kind]
        exact (List.append_nil _).symm
      · intro other same
        cases kind.symm.trans same
        exact eq_ofEdge_of_literal encoded

end Transcribes

omit [Backend State] in
theorem transcribes_start (graph : Graph) (traced : Traced State) :
    Transcribes graph traced.calls [] (start graph.size traced) where
  toFills := fills_start graph traced
  calls := (List.append_nil _).symm
  forwards _ member := nomatch member
  closed _ member := nomatch member

end Encoding

/-! ## Queries -/

namespace Graph

variable {State : Type} [Backend State] {graph : Graph} {left right : Literal}

def calls (left right : Literal) (backend : State) (graph : Graph) : List Call :=
  (graph.prove left right (⟨backend, []⟩ : Traced State)).backend.calls

theorem prove_traced (graph : Graph) (left right : Literal) (backend : State) :
    graph.prove left right backend =
      (graph.prove left right (⟨backend, []⟩ : Traced State)).map Traced.backend :=
  Traced.isView_backend.prove graph left right ⟨backend, []⟩

def miterCalls (miter first second : SatLiteral) : List Call :=
  .newVariable miter :: (Formula.xorGate miter first second).map .addClause ++ [.assume [miter]]

theorem calls_miterState (encoding : Encoding (Traced State)) (first second : SatLiteral) :
    (miterState encoding first second).calls = encoding.backend.calls ++
      miterCalls (Backend.newVariable encoding.backend).1 first second := by
  let miter := (Backend.newVariable encoding.backend).1
  calc (miterState encoding first second).calls
      = (Backend.addFormula (.xorGate miter first second)
          (Backend.newVariable encoding.backend).2).calls ++ [.assume [miter]] := rfl
    _ = encoding.backend.calls ++ [.newVariable miter] ++
          (Formula.xorGate miter first second).map .addClause ++ [.assume [miter]] := by
        rw [Traced.calls_addFormula, Traced.calls_newVariable]
    _ = encoding.backend.calls ++ miterCalls miter first second := by
        simp only [miterCalls, List.append_assoc, List.cons_append, List.nil_append]

/-! ## Clauses -/

theorem countP_miterCalls (miter first second : SatLiteral) :
    (miterCalls miter first second).countP Call.isClause = 4 := by
  rfl

theorem WellFormed.countP_nodeCalls (wellFormed : graph.WellFormed) {id : Nat}
    (active : graph.isActive id = true) (literals : Nat → SatLiteral) :
    (graph.nodeCalls literals id).countP Call.isClause =
      3 * (if graph.isGate id then 1 else 0) + (if id = 0 then 1 else 0) := by
  rcases isActive_eq_true_iff.mp active with ⟨node, found, -⟩
  rcases wellFormed.constant with ⟨constant, constantFound, constantKind, -⟩
  rw [nodeCalls_of_node? found, isGate_of_node? found]
  by_cases zero : id = 0
  · subst zero
    cases found.symm.trans constantFound
    rw [constantKind]
    rfl
  · have noConstant : node.kind ≠ .constant :=
      fun kind => zero (wellFormed.only_constant id node found kind)
    rw [if_neg zero]
    cases kind : node.kind with
    | constant => exact absurd kind noConstant
    | input
    | gate left right
    | output driver => rfl

theorem WellFormed.countP_flatMap_nodeCalls (wellFormed : graph.WellFormed) {ids : List Nat}
    (active : ∀ id ∈ ids, graph.isActive id = true) (literals : Nat → SatLiteral) :
    (ids.flatMap (graph.nodeCalls literals)).countP Call.isClause =
      3 * ids.countP graph.isGate + ids.count 0 := by
  induction ids with
  | nil => rfl
  | cons id others induction =>
      rcases List.forall_mem_cons.mp active with ⟨idActive, othersActive⟩
      rw [List.flatMap_cons, List.countP_append, wellFormed.countP_nodeCalls idActive,
        induction othersActive, List.countP_cons, List.count_cons]
      simp only [beq_iff_eq]
      omega

/-! ## The encoding -/

theorem faninsFirst_of_sorted {root : Nat} {nodes : List Nat}
    (sorted : (graph.coneExplorer root).Sorted nodes) : graph.FaninsFirst nodes.reverse := by
  intro early id late split driver reads _
  have nodes_eq : nodes = late.reverse ++ id :: early.reverse := by
    rw [← List.reverse_reverse nodes, split]
    simp
  subst nodes_eq
  have active := isActive_of_sorted sorted (List.mem_append_right _ List.mem_cons_self)
  have leads : (graph.coneExplorer root).Leads id driver := by
    rw [leads_coneExplorer]
    exact ⟨active, reads⟩
  exact List.mem_reverse.mp (sorted.mem_of_split leads)

/-- Whatever a back end answers and whatever it has been through, a query about active nodes
resets it, then gives a literal to each node of the two cones, once and after what the node
reads: a new variable with the clauses that say what the node computes, or for an output the
literal of what drives it. No other node is encoded. One more variable tells whether the two
literals differ; it is assumed, and the one question that the query asks is whether that can
be. So there are three clauses for each gate, one for the constant when it is in a cone, and
four for the difference. -/
theorem WellFormed.calls_exact (wellFormed : graph.WellFormed)
    (leftActive : graph.isActive left.node = true)
    (rightActive : graph.isActive right.node = true) (backend : State) :
    ∃ (order : List Nat) (literals : Nat → SatLiteral) (miter : SatLiteral)
      (answer : Except String Bool),
      (order.Nodup ∧ graph.FaninsFirst order ∧
        ∀ id, id ∈ order ↔ graph.Sees left.node id ∨ graph.Sees right.node id) ∧
      graph.Forwards literals order ∧
      graph.calls left right backend =
        .reset :: order.flatMap (graph.nodeCalls literals) ++
          miterCalls miter (.ofEdge literals left) (.ofEdge literals right) ++ [.solve answer] ∧
      ((graph.prove left right backend).result =
        match answer with
        | .error reason => .error (.solver reason)
        | .ok different => .ok !different) ∧
      (graph.calls left right backend).countP Call.isClause =
        3 * order.countP graph.isGate + (if 0 ∈ order then 1 else 0) + 4 := by
  rcases wellFormed.cones_eq leftActive rightActive with ⟨finished, walked⟩
  rcases cones_eq_none walked with ⟨sorted, leftMember, rightMember⟩
  rcases exists_addNodes_of_step sorted
    (Encoding.transcribes_start graph (Backend.reset (⟨backend, []⟩ : Traced State)))
    (fun found _ fresh ready transcribes => transcribes.addNode found fresh ready) with
    ⟨encoding, added, transcribes⟩
  rcases transcribes.toFills.exists_literal leftMember with ⟨first, leftEncoded⟩
  rcases transcribes.toFills.exists_literal rightMember with ⟨second, rightEncoded⟩
  have same : graph.prove left right (⟨backend, []⟩ : Traced State) =
      askDifferent left right encoding := by
    have order : finished.order = finished.nodes.reverse := rfl
    simp only [prove, walked, order, added]
  rcases askDifferent_eq leftEncoded rightEncoded with ⟨after, result⟩
  have told : graph.calls left right backend =
      .reset :: finished.nodes.reverse.flatMap (graph.nodeCalls encoding.literalOf) ++
        miterCalls (Backend.newVariable encoding.backend).1 (.ofEdge encoding.literalOf left)
          (.ofEdge encoding.literalOf right) ++
          [.solve (Backend.solve (miterState encoding first second)).1] := by
    rw [← Encoding.eq_ofEdge_of_literal leftEncoded, ← Encoding.eq_ofEdge_of_literal rightEncoded,
      calls, same, after]
    change (miterState encoding first second).calls ++ [_] = _
    rw [calls_miterState, transcribes.calls]
    rfl
  have nodup : finished.nodes.reverse.Nodup := List.nodup_reverse.mpr sorted.nodup
  refine ⟨_, encoding.literalOf, _, _, ⟨nodup, faninsFirst_of_sorted sorted, fun id => ?_⟩,
    fun id member => ?_, told, ?_, ?_⟩
  · rw [List.mem_reverse, mem_cones_iff walked]
  · exact transcribes.forwards id (List.mem_reverse.mp member)
  · rw [prove_traced, same]
    exact result
  · have encoded := wellFormed.countP_flatMap_nodeCalls
      (fun id member => isActive_of_sorted sorted (List.mem_reverse.mp member)) encoding.literalOf
    rw [told, List.cons_append, List.cons_append, List.countP_cons, List.countP_append,
      List.countP_append, encoded, countP_miterCalls, nodup.count]
    rfl

/-- The cone of an output has three gates and two inputs; the constant stands beside it. -/
theorem calls_exact_twins :
    twins.WellFormed ∧ twins.isActive 6 = true ∧ twins.isActive 0 = true ∧
      ∃ (order : List Nat) (literals : Nat → SatLiteral) (miter : SatLiteral)
        (answer : Except String Bool),
        (∀ id, id ∈ order ↔ twins.Sees 6 id ∨ twins.Sees 0 id) ∧
        twins.calls ⟨6, true⟩ .low Solver.empty =
          .reset :: order.flatMap (twins.nodeCalls literals) ++
            miterCalls miter (.ofEdge literals ⟨6, true⟩) (.ofEdge literals .low) ++
              [.solve answer] ∧
        (twins.calls ⟨6, true⟩ .low Solver.empty).countP Call.isClause = 3 * 3 + 1 + 4 := by
  have wellFormed := consistent_twins.toWellFormed
  have outputActive : twins.isActive (Literal.mk 6 true).node = true := by decide
  have constantActive : twins.isActive Literal.low.node = true := by decide
  rcases wellFormed.calls_exact outputActive constantActive Solver.empty with
    ⟨order, literals, miter, answer, ⟨-, -, union⟩, -, told, -, -⟩
  exact ⟨wellFormed, outputActive, constantActive, order, literals, miter, answer, union, told,
    by decide +kernel⟩

end Graph

end AndInverter
