import AndInverter.Reduction

namespace AndInverter

/-! Views of back ends. A view leaves out part of a state that no call depends on. Whoever works
through a back end sees no difference: what a query or a reduction does with the view of a state
is the view of what it does with the state. So answers can be written down beside any back end,
and one can tell of any reduction what its solves have answered. -/

variable {State Other : Type} [Backend State] [Backend Other]

/-- Every call does to the view of a state what it does to the state, and answers alike. -/
structure Backend.IsView (view : State → Other) : Prop where
  reset : ∀ state, Backend.reset (view state) = view (Backend.reset state)
  newVariable : ∀ state, Backend.newVariable (view state) =
    ((Backend.newVariable state).1, view (Backend.newVariable state).2)
  addClause : ∀ clause state,
    Backend.addClause clause (view state) = view (Backend.addClause clause state)
  assume : ∀ literals state,
    Backend.assume literals (view state) = view (Backend.assume literals state)
  solve : ∀ state, Backend.solve (view state) =
    ((Backend.solve state).1, view (Backend.solve state).2)

/-! ## Answers on record -/

/-- A back end, with the answers of all its solves beside it. A reset does not forget them. -/
structure Remembering (State : Type) where
  backend : State
  answers : List (Except String Bool)

namespace Remembering

instance : Backend (Remembering State) where
  reset memory := { memory with backend := Backend.reset memory.backend }
  newVariable memory :=
    let (literal, backend) := Backend.newVariable memory.backend
    (literal, { memory with backend })
  addClause clause memory := { memory with backend := Backend.addClause clause memory.backend }
  assume literals memory := { memory with backend := Backend.assume literals memory.backend }
  solve memory :=
    let (answer, backend) := Backend.solve memory.backend
    (answer, ⟨backend, memory.answers ++ [answer]⟩)

theorem isView_backend : Backend.IsView (backend : Remembering State → State) where
  reset _ := rfl
  newVariable _ := rfl
  addClause _ _ := rfl
  assume _ _ := rfl
  solve _ := rfl

end Remembering

/-! ## Seen through a view -/

def Encoding.map {State Other : Type} (view : State → Other) (encoding : Encoding State) :
    Encoding Other :=
  ⟨encoding.literals, view encoding.backend⟩

@[simp] theorem Encoding.literal_map {State Other : Type} (view : State → Other)
    (encoding : Encoding State) (edge : Literal) :
    (encoding.map view).literal edge = encoding.literal edge :=
  rfl

def Query.map {State Other : Type} (view : State → Other) (query : Query State) : Query Other :=
  ⟨view query.backend, query.journal, query.result⟩

def Scan.map {State Other : Type} (view : State → Other) (scan : Scan State) : Scan Other :=
  ⟨scan.graph, view scan.backend, scan.report, scan.journal⟩

@[simp] theorem Scan.graph_map {State Other : Type} (view : State → Other)
    (scan : Scan State) : (scan.map view).graph = scan.graph :=
  rfl

def Reduction.map {State Other : Type} (view : State → Other) (reduction : Reduction State) :
    Reduction Other :=
  ⟨reduction.graph, reduction.partition, view reduction.backend, reduction.stage,
    reduction.journal, reduction.result⟩

namespace Backend.IsView

variable {view : State → Other} (isView : Backend.IsView view)

include isView

/-! ## Queries -/

theorem addFormula (formula : Formula) (state : State) :
    Backend.addFormula formula (view state) = view (Backend.addFormula formula state) := by
  induction formula generalizing state with
  | nil => rfl
  | cons clause formula induction =>
      rw [Backend.addFormula, List.foldl_cons, isView.addClause, ← Backend.addFormula, induction]
      rfl

theorem introduce (id : Nat) (clauses : SatLiteral → Formula) (encoding : Encoding State) :
    (encoding.map view).introduce id clauses = (encoding.introduce id clauses).map view := by
  simp only [Encoding.introduce, Encoding.map, isView.newVariable, isView.addFormula,
    Encoding.define]

theorem addNode (id : Nat) (kind : Kind) (encoding : Encoding State) :
    (encoding.map view).addNode id kind = (encoding.addNode id kind).map (Encoding.map view) := by
  cases kind with
  | constant => exact congrArg Except.ok (isView.introduce ..)
  | input => exact congrArg Except.ok (isView.introduce ..)
  | gate left right =>
      simp only [Encoding.addNode, Encoding.literal_map]
      cases encoding.literal left with
      | error failure => rfl
      | ok first =>
          cases encoding.literal right with
          | error failure => rfl
          | ok second => exact congrArg Except.ok (isView.introduce ..)
  | output driver =>
      simp only [Encoding.addNode, Encoding.literal_map]
      cases encoding.literal driver <;> rfl

theorem addNodes (graph : Graph) (ids : List Nat) (encoding : Encoding State) :
    Encoding.addNodes graph ids (encoding.map view) =
      ((Encoding.addNodes graph ids encoding).1.map view,
        (Encoding.addNodes graph ids encoding).2) := by
  induction ids generalizing encoding with
  | nil => rfl
  | cons id others induction =>
      simp only [Encoding.addNodes]
      cases graph.node id with
      | error failure => rfl
      | ok node =>
          simp only [Except.bind, isView.addNode]
          cases encoding.addNode id node.kind with
          | error failure => rfl
          | ok extended => exact induction extended

theorem askDifferent (left right : Literal) (encoding : Encoding State) :
    Graph.askDifferent left right (encoding.map view) =
      (Graph.askDifferent left right encoding).map view := by
  simp only [Graph.askDifferent, Encoding.literal_map]
  cases encoding.literal left with
  | error failure => rfl
  | ok first =>
      cases encoding.literal right with
      | error failure => rfl
      | ok second =>
          simp only [Encoding.map, isView.newVariable, isView.addFormula, isView.assume,
            isView.solve]
          rcases Backend.solve _ with ⟨reason | different, after⟩ <;> rfl

theorem prove (graph : Graph) (left right : Literal) (backend : State) :
    graph.prove left right (view backend) = (graph.prove left right backend).map view := by
  have start : Encoding.start graph.size (Backend.reset (view backend)) =
      (Encoding.start graph.size (Backend.reset backend)).map view :=
    congrArg (Encoding.start graph.size) (isView.reset backend)
  simp only [Graph.prove, start, isView.addNodes]
  rcases Encoding.addNodes graph _ (Encoding.start graph.size (Backend.reset backend)) with
    ⟨encoding, failure?⟩
  cases failure? with
  | some failure => rfl
  | none =>
      cases (graph.cones left.node right.node).2 with
      | some failure => rfl
      | none => exact isView.askDifferent left right encoding

/-! ## Scans -/

theorem compare (pivot member : Literal) (scan : Scan State) :
    (scan.map view).compare pivot member =
      ((scan.compare pivot member).1.map view, (scan.compare pivot member).2) := by
  simp only [Scan.compare, Scan.map, isView.prove, Query.map]
  rcases (scan.graph.prove pivot member scan.backend).result with failure | equal
  · rfl
  · cases equal with
    | false => rfl
    | true =>
        simp only [Scan.append]
        cases (scan.graph.mergeEqual pivot member).result <;> rfl

theorem scanPivot (limit : Nat) (pivot : Literal) (members : List Literal) (failures : Nat)
    (scan : Scan State) :
    (scan.map view).scanPivot limit pivot members failures =
      ((scan.scanPivot limit pivot members failures).1.map view,
        (scan.scanPivot limit pivot members failures).2) := by
  induction members generalizing failures scan with
  | nil => rfl
  | cons member others induction =>
      simp only [Scan.scanPivot, Scan.graph_map, isView.compare]
      split
      · exact induction failures scan
      · split
        · rfl
        · rcases scan.compare pivot member with ⟨after, failure | verdict⟩
          · rfl
          · cases verdict with
            | none => exact induction (failures + 1) after
            | some isMerged =>
                dsimp only
                rw [Scan.graph_map]
                split
                · rfl
                · exact induction 0 after

theorem scanClass (limit : Nat) (members : List Literal) (scan : Scan State) :
    (scan.map view).scanClass limit members =
      ((scan.scanClass limit members).1.map view, (scan.scanClass limit members).2) := by
  induction members generalizing scan with
  | nil => rfl
  | cons pivot others induction =>
      simp only [Scan.scanClass, Scan.graph_map, isView.scanPivot]
      split
      · exact induction scan
      · rcases scan.scanPivot limit pivot others 0 with ⟨after, failure?⟩
        cases failure? with
        | some failure => rfl
        | none => exact induction after

theorem scanClasses (limit : Nat) (classes : List (List Literal)) (scan : Scan State) :
    (scan.map view).scanClasses limit classes =
      ((scan.scanClasses limit classes).1.map view, (scan.scanClasses limit classes).2) := by
  induction classes generalizing scan with
  | nil => rfl
  | cons members others induction =>
      simp only [Scan.scanClasses, isView.scanClass]
      rcases scan.scanClass limit members with ⟨after, failure?⟩
      cases failure? with
      | some failure => rfl
      | none => exact induction after

theorem run (options : ReductionOptions) (graph : Graph) (partition : Partition)
    (backend : State) :
    Reduction.run options graph partition (view backend) =
      (Reduction.run options graph partition backend).map view := by
  have scanned := isView.scanClasses options.maxFailures partition.classes
    ⟨graph, backend, {}, []⟩
  simp only [Scan.map] at scanned
  simp only [Reduction.run, scanned]
  rcases Scan.scanClasses options.maxFailures partition.classes
    (⟨graph, backend, {}, []⟩ : Scan State) with ⟨scan, failure?⟩
  cases failure? <;> rfl

end Backend.IsView

/-! ## Answers of a reduction -/

namespace Reduction

variable (options : ReductionOptions) (graph : Graph) (partition : Partition) (backend : State)

def answers : List (Except String Bool) :=
  (run options graph partition (⟨backend, []⟩ : Remembering State)).backend.answers

theorem run_remembering : run options graph partition backend =
    (run options graph partition (⟨backend, []⟩ : Remembering State)).map Remembering.backend :=
  Remembering.isView_backend.run options graph partition ⟨backend, []⟩

end Reduction

end AndInverter
