import AndInverter.Proofs.Aiger.Sections

namespace AndInverter

/-! Symbols. A symbol changes the label of one node and nothing else, so that a file with
symbols describes what it describes without them. Symbols that are written are read back, and
of the symbols of a node the last one stands. -/

namespace Graph

variable {graph after : Graph} {id : Nat} {label : String}

theorem setLabel_eq_ok_iff : graph.setLabel id label = .ok after ↔
    (∃ node, graph.node? id = some node) ∧
      graph.modify id (fun node => { node with label := some label }) = after := by
  simp only [setLabel, update, Result.bind_eq_ok_iff, Result.pure_eq_ok_iff, node_eq_ok_iff,
    exists_and_right]

theorem label?_setLabel (success : graph.setLabel id label = .ok after) (other : Nat) :
    after.label? other = if other = id then some label else graph.label? other := by
  rcases setLabel_eq_ok_iff.mp success with ⟨⟨node, found⟩, rfl⟩
  rw [label?, label?, node?_modify]
  by_cases same : id = other
  · subst same
    simp [found]
  · rw [if_neg same, if_neg (Ne.symm same)]

theorem Comprises.setLabel {nodes : List (Nat × Kind)} (comprises : graph.Comprises nodes)
    (success : graph.setLabel id label = .ok after) : after.Comprises nodes := by
  rcases setLabel_eq_ok_iff.mp success with ⟨-, rfl⟩
  refine ⟨?_, ?_⟩
  · intro other kind
    rw [← comprises.kind, node?_modify]
    split
    · rw [Option.map_map]
      rfl
    · rfl
  · intro other changed later
    rw [node?_modify] at later
    split at later
    · rcases Option.map_eq_some_iff.mp later with ⟨node, found, rfl⟩
      exact congrArg (fun node : Node => { node with label := some label })
        (comprises.pristine other node found)
    · exact comprises.pristine other changed later

end Graph

namespace Aiger

/-! ## One symbol -/

def target? (symbol : Symbol) (graph : Graph) : Option Nat :=
  match symbol.kind with
  | .input => graph.inputs[symbol.position]?
  | .output => graph.outputs[symbol.position]?

theorem applySymbol_eq_ok_iff {symbol : Symbol} {graph labelled : Graph} :
    applySymbol symbol graph = .ok labelled ↔ ∃ id, target? symbol graph = some id ∧
      graph.setLabel id (String.ofList symbol.name) = .ok labelled := by
  rw [applySymbol, target?]
  cases symbol.kind with
  | input => cases graph.inputs[symbol.position]? <;> simp
  | output => cases graph.outputs[symbol.position]? <;> simp

def Symbol.text (symbol : Symbol) : List Char :=
  symbol.kind.letter :: (Text.decimal symbol.position ++ ' ' :: symbol.name)

def Symbol.Tidy (symbol : Symbol) : Prop :=
  '\n' ∉ symbol.name ∧ symbol.name.getLast? ≠ some '\r'

instance (symbol : Symbol) : Decidable symbol.Tidy :=
  inferInstanceAs (Decidable (_ ∧ _))

theorem dropReturns_eq_self {line : List Char} (kept : line.getLast? ≠ some '\r') :
    dropReturns line = line := by
  rw [dropReturns]
  rcases List.eq_nil_or_concat line with rfl | ⟨early, last, rfl⟩
  · rfl
  · have other : last ≠ '\r' := by simpa using kept
    simp [other]

theorem dropReturns_cons {head : Char} (other : head ≠ '\r') (rest : List Char) :
    dropReturns (head :: rest) = head :: dropReturns rest := by
  rw [dropReturns, dropReturns, List.reverse_cons, List.dropWhile_append]
  split
  · rename_i empty
    rw [List.isEmpty_iff] at empty
    simp [other, empty]
  · simp

theorem symbolLine_comment (rest : List Char) : symbolLine ('c' :: rest) = .ok none := by
  rw [symbolLine, dropReturns_cons (by decide)]
  rfl

theorem positionAndName_decimal {kind : SymbolKind} {position : Nat} {name line : List Char}
    (small : position < 2 ^ 64) :
    positionAndName kind (Text.decimal position ++ ' ' :: name) line =
      .ok ⟨kind, position, name⟩ := by
  have kept : ∀ character ∈ Text.decimal position, decide (character ≠ ' ') = true := by
    intro character member
    rw [decide_eq_true_eq]
    rintro rfl
    exact absurd (Text.isDigit_of_mem_decimal member) (by decide)
  have value := number_eq_ok_iff.mpr (Text.numeral?_decimal small)
  rw [positionAndName, List.dropWhile_append_of_pos kept, List.takeWhile_append_of_pos kept]
  simp only [decide_not, ne_eq, decide_true, Bool.not_true, Bool.false_eq_true, not_false_eq_true,
    List.dropWhile_cons_of_neg, List.takeWhile_cons_of_neg, List.append_nil, value]
  rfl

theorem symbolLine_text {symbol : Symbol} (tidy : symbol.Tidy) (small : symbol.position < 2 ^ 64) :
    symbolLine symbol.text = .ok (some symbol) := by
  have kept : symbol.text.getLast? ≠ some '\r' := by
    have last := tidy.2
    rw [Symbol.text, List.getLast?_cons, List.getLast?_append, List.getLast?_cons]
    cases ending : symbol.name.getLast? with
    | none => simp
    | some character =>
        rw [ending] at last
        simpa using last
  rw [symbolLine, dropReturns_eq_self kept]
  rcases symbol with ⟨kind, position, name⟩
  have read (line : List Char) :
      positionAndName kind (Text.decimal position ++ ' ' :: name) line =
        .ok ⟨kind, position, name⟩ := positionAndName_decimal small
  cases kind with
  | input => exact Result.bind_eq_ok_iff.mpr ⟨_, read _, rfl⟩
  | output => exact Result.bind_eq_ok_iff.mpr ⟨_, read _, rfl⟩

/-! ## What symbols keep -/

namespace Circuit

variable {circuit : Circuit} {graph labelled : Graph}

theorem Describes.applySymbol {symbol : Symbol} (describes : circuit.Describes graph)
    (success : applySymbol symbol graph = .ok labelled) : circuit.Describes labelled := by
  rcases applySymbol_eq_ok_iff.mp success with ⟨id, -, labelling⟩
  have comprises := describes.comprises.setLabel labelling
  rcases Graph.setLabel_eq_ok_iff.mp labelling with ⟨-, rfl⟩
  exact ⟨(Graph.size_modify _ _ _).trans describes.size, describes.inputs, describes.outputs,
    comprises⟩

theorem Describes.readSymbols {bytes : Text.Bytes} (describes : circuit.Describes graph)
    (success : readSymbols graph bytes = .ok labelled) : circuit.Describes labelled :=
  of_readSymbols_eq_ok (fun _ _ _ => Describes.applySymbol) success describes

end Circuit

/-! ## All symbols -/

variable {symbols : List Symbol} {graph labelled : Graph}

def applySymbols (symbols : List Symbol) (graph : Graph) : Result Graph :=
  symbols.foldlM (fun graph symbol => applySymbol symbol graph) graph

theorem readSymbols_of_beginsWithLines {bytes after : Text.Bytes}
    (begins : Text.BeginsWithLines bytes (symbols.map Symbol.text) after)
    (readable : ∀ symbol ∈ symbols, symbolLine symbol.text = .ok (some symbol))
    (success : applySymbols symbols graph = .ok labelled) :
    readSymbols graph bytes = readSymbols labelled after := by
  induction symbols generalizing graph bytes with
  | nil =>
      cases success
      rcases (begins : bytes = after) with rfl
      rfl
  | cons symbol others induction =>
      rcases begins with ⟨rest, begins, follow⟩
      rcases List.forall_mem_cons.mp readable with ⟨head, tail⟩
      rw [applySymbols, List.foldlM_cons, Result.bind_eq_ok_iff] at success
      rcases success with ⟨next, applied, success⟩
      rw [readSymbols_eq, Text.readLine_eq_line_iff.mpr begins]
      simp only [head, applied]
      exact induction follow tail success

theorem target?_applySymbol {symbol other : Symbol}
    (success : applySymbol symbol graph = .ok labelled) :
    target? other labelled = target? other graph := by
  rcases applySymbol_eq_ok_iff.mp success with ⟨id, -, labelling⟩
  rcases Graph.setLabel_eq_ok_iff.mp labelling with ⟨-, rfl⟩
  rfl

theorem isDefined_applySymbol {symbol : Symbol} (success : applySymbol symbol graph = .ok labelled)
    (id : Nat) : labelled.isDefined id = graph.isDefined id := by
  rcases applySymbol_eq_ok_iff.mp success with ⟨target, -, labelling⟩
  rcases Graph.setLabel_eq_ok_iff.mp labelling with ⟨-, rfl⟩
  rw [Graph.isDefined, Graph.isDefined, Graph.node?_modify]
  split <;> simp

theorem exists_applySymbols
    (named : ∀ symbol ∈ symbols, ∃ id, target? symbol graph = some id ∧ graph.isDefined id = true) :
    ∃ labelled, applySymbols symbols graph = .ok labelled := by
  induction symbols generalizing graph with
  | nil => exact ⟨graph, rfl⟩
  | cons symbol others induction =>
      rcases List.forall_mem_cons.mp named with ⟨⟨id, target, defined⟩, tail⟩
      have next : ∃ next, applySymbol symbol graph = .ok next :=
        ⟨_, applySymbol_eq_ok_iff.mpr ⟨id, target, Graph.setLabel_eq_ok_iff.mpr
          ⟨Option.isSome_iff_exists.mp defined, rfl⟩⟩⟩
      rcases next with ⟨next, applied⟩
      have still : ∀ other ∈ others,
          ∃ id, target? other next = some id ∧ next.isDefined id = true := by
        intro other member
        simpa only [target?_applySymbol applied, isDefined_applySymbol applied]
          using tail other member
      rcases induction still with ⟨labelled, success⟩
      refine ⟨labelled, ?_⟩
      rw [applySymbols, List.foldlM_cons, Result.bind_eq_ok_iff]
      exact ⟨next, applied, success⟩

theorem label?_applySymbols (success : applySymbols symbols graph = .ok labelled) (id : Nat) :
    labelled.label? id =
      ((symbols.reverse.find? fun symbol => target? symbol graph = some id).map fun symbol =>
        String.ofList symbol.name).or (graph.label? id) := by
  induction symbols generalizing graph with
  | nil =>
      cases success
      rfl
  | cons symbol others induction =>
      rw [applySymbols, List.foldlM_cons, Result.bind_eq_ok_iff] at success
      rcases success with ⟨next, applied, success⟩
      rcases applySymbol_eq_ok_iff.mp applied with ⟨target, targeted, labelling⟩
      rw [induction success, Graph.label?_setLabel labelling, List.reverse_cons, List.find?_append,
        Option.map_or, Option.or_assoc]
      simp only [target?_applySymbol applied]
      congr 1
      by_cases same : id = target
      · simp [same, targeted]
      · simp [same, targeted, Ne.symm same]

theorem position_eq_of_target? (wellFormed : graph.WellFormed) {first second : Symbol} {id : Nat}
    (left : target? first graph = some id) (right : target? second graph = some id) :
    (first.kind, first.position) = (second.kind, second.position) := by
  have position {nodes : List Nat} (nodup : nodes.Nodup)
      (left : nodes[first.position]? = some id) (right : nodes[second.position]? = some id) :
      first.position = second.position :=
    (List.getElem?_inj (List.getElem?_eq_some_iff.mp left).1 nodup).mp (left.trans right.symm)
  have apart : id ∈ graph.inputs → id ∉ graph.outputs := by
    intro input output
    rcases (wellFormed.mem_inputs id).mp input with ⟨node, found, kind⟩
    rcases (wellFormed.mem_outputs id).mp output with ⟨other, otherFound, isOutput⟩
    rw [found, Option.some.injEq] at otherFound
    rw [← otherFound, kind] at isOutput
    cases isOutput
  rw [target?] at left right
  cases firstKind : first.kind <;> cases secondKind : second.kind <;>
    simp only [firstKind, secondKind] at left right
  case input.input => rw [position wellFormed.inputs_nodup left right]
  case output.output => rw [position wellFormed.outputs_nodup left right]
  case input.output =>
    exact absurd (List.mem_of_getElem? right) (apart (List.mem_of_getElem? left))
  case output.input =>
    exact absurd (List.mem_of_getElem? left) (apart (List.mem_of_getElem? right))

/-- Where no two symbols name the same position, each gives its node its name, and no other
node gets one. -/
theorem label?_eq_some_iff (wellFormed : graph.WellFormed)
    (unlabelled : ∀ id, graph.label? id = none)
    (nodup : (symbols.map fun symbol => (symbol.kind, symbol.position)).Nodup)
    (success : applySymbols symbols graph = .ok labelled) {id : Nat} {name : String} :
    labelled.label? id = some name ↔ ∃ symbol ∈ symbols,
      target? symbol graph = some id ∧ String.ofList symbol.name = name := by
  rw [label?_applySymbols success, unlabelled, Option.or_none, Option.map_eq_some_iff]
  constructor
  · rintro ⟨symbol, found, named⟩
    exact ⟨symbol, List.mem_reverse.mp (List.mem_of_find?_eq_some found),
      by simpa using List.find?_some found, named⟩
  · rintro ⟨symbol, member, target, named⟩
    cases found : symbols.reverse.find? fun symbol => target? symbol graph = some id with
    | none =>
        have missing := List.find?_eq_none.mp found symbol (List.mem_reverse.mpr member)
        simp [target] at missing
    | some last =>
        have lastMember := List.mem_reverse.mp (List.mem_of_find?_eq_some found)
        have lastTarget : target? last graph = some id := by simpa using List.find?_some found
        have same := List.inj_on_of_nodup_map nodup lastMember member
          (position_eq_of_target? wellFormed lastTarget target)
        exact ⟨last, rfl, same ▸ named⟩

end Aiger

end AndInverter
