import AndInverter.Proofs.Aiger.Soundness

namespace AndInverter.Aiger

open Text (BeginsWithLines Solid Spells decimal spaced)

/-! Printing. A sensible circuit that is printed with its symbols is read back as the graph
that it describes, with the labels that the symbols give. Comments after the symbols are not
looked at. -/

def row (numbers : List Nat) : List Char :=
  spaced (numbers.map decimal)

/-- What may stand after the symbols: nothing, or comments. Comments begin with a line of text
that starts with their letter, and go on with any bytes. -/
def Closes (tail : Text.Bytes) : Prop :=
  tail = [] ∨ ∃ text after, Text.BeginsWith tail ('c' :: text) after

theorem Closes.readSymbols_eq {tail : Text.Bytes} (closes : Closes tail) (graph : Graph) :
    readSymbols graph tail = .ok graph := by
  rw [Aiger.readSymbols_eq]
  rcases closes with rfl | ⟨text, after, begins⟩
  · rfl
  · rw [Text.readLine_eq_line_iff.mpr begins]
    simp only [symbolLine_comment]

theorem newline_not_mem_row (numbers : List Nat) : '\n' ∉ row numbers :=
  Text.newline_not_mem_spaced (List.forall_mem_map.mpr fun number _ => Text.solid_decimal number)

theorem forall₂_row {α : Type} {numbers : α → List Nat} {values : List α}
    (small : ∀ value ∈ values, ∀ number ∈ numbers value, number < 2 ^ 64) :
    List.Forall₂ (fun line value => Spells line (numbers value))
      (values.map fun value => row (numbers value)) values := by
  rw [List.forall₂_map_left_iff, List.forall₂_same]
  exact fun value member => Text.spells_spaced (small value member)

theorem newline_not_mem_text {symbol : Symbol} (tidy : symbol.Tidy) : '\n' ∉ symbol.text := by
  have digits : '\n' ∉ decimal symbol.position := fun member =>
    absurd (Text.isDigit_of_mem_decimal member) (by decide)
  rcases symbol with ⟨kind, position, name⟩
  cases kind <;> simp [Symbol.text, SymbolKind.letter, digits, tidy.1]

namespace Circuit

variable {circuit : Circuit} {symbols : List Symbol}

def header (circuit : Circuit) : List Char :=
  spaced (['a', 'a', 'g'] :: circuit.counts.map decimal)

def lines (circuit : Circuit) : List (List Char) :=
  circuit.header :: ((circuit.inputs.map fun id => row [2 * id]) ++
    (circuit.outputs.map fun driver => row [driver.raw]) ++
      circuit.gates.map fun gate => row [2 * gate.id, gate.left.raw, gate.right.raw])

def print (circuit : Circuit) (symbols : List Symbol) : Text.Bytes :=
  Text.unlines (circuit.lines ++ symbols.map Symbol.text)

structure Printable (circuit : Circuit) : Prop where
  literals : 2 * circuit.largest + 1 < 2 ^ 64
  outputs : circuit.outputs.length < 2 ^ 64

def positions (circuit : Circuit) : SymbolKind → Nat
  | .input => circuit.inputs.length
  | .output => circuit.outputs.length

/-- At most one symbol refers to each position, and its name can be written. -/
structure Labelling (circuit : Circuit) (symbols : List Symbol) : Prop where
  tidy : ∀ symbol ∈ symbols, symbol.Tidy
  inside : ∀ symbol ∈ symbols, symbol.position < circuit.positions symbol.kind
  nodup : (symbols.map fun symbol => (symbol.kind, symbol.position)).Nodup

theorem acyclic_of_rank (rank : Nat → Nat)
    (falls : ∀ gate ∈ circuit.gates, rank gate.left.node < rank gate.id ∧
      rank gate.right.node < rank gate.id) (id : Nat) :
    ¬Relation.TransGen circuit.Reads id id := by
  intro path
  have step : circuit.Reads ≤ Function.onFun (· > ·) rank := by
    rintro consumer driver ⟨gate, member, rfl, rfl | rfl⟩
    · exact (falls gate member).1
    · exact (falls gate member).2
  have falling : Relation.TransGen (· > ·) (rank id) (rank id) :=
    Relation.TransGen.lift rank step id id path
  rw [Relation.transGen_eq_self] at falling
  exact lt_irrefl _ falling

/-! ## The text -/

theorem solid_header : ∀ word ∈ ['a', 'a', 'g'] :: circuit.counts.map decimal, Solid word := by
  have format : Solid ['a', 'a', 'g'] := by
    simp only [Solid, List.forall_mem_cons, List.not_mem_nil, false_implies, implies_true, and_true]
    decide
  rw [List.forall_mem_cons, List.forall_mem_map]
  exact ⟨format, fun number _ => Text.solid_decimal number⟩

theorem newline_not_mem_lines : ∀ line ∈ circuit.lines, '\n' ∉ line := by
  simp only [lines, List.forall_mem_cons, List.forall_mem_append, List.forall_mem_map]
  exact ⟨Text.newline_not_mem_spaced solid_header,
    ⟨fun _ _ => newline_not_mem_row _, fun _ _ => newline_not_mem_row _⟩,
      fun _ _ => newline_not_mem_row _⟩

theorem beginsWithLines_print (tidy : ∀ symbol ∈ symbols, symbol.Tidy) (tail : Text.Bytes) :
    BeginsWithLines (circuit.print symbols ++ tail) (circuit.lines ++ symbols.map Symbol.text)
      tail := by
  apply Text.beginsWithLines_unlines
  rw [List.forall_mem_append, List.forall_mem_map]
  exact ⟨newline_not_mem_lines, fun symbol member => newline_not_mem_text (tidy symbol member)⟩

namespace Sensible

variable (sensible : circuit.Sensible)

include sensible

theorem length_defined_le : circuit.inputs.length + circuit.gates.length ≤ circuit.largest := by
  have inside : circuit.defined ⊆ List.range' 1 circuit.largest := by
    intro id member
    have bounded := sensible.bounded id member
    rw [List.mem_range'_1]
    omega
  simpa [defined] using (List.subperm_of_subset sensible.nodup inside).length_le

theorem raw_le {literal : Literal} (named : circuit.Names literal) :
    literal.raw ≤ 2 * circuit.largest + 1 := by
  have inside : literal.node ≤ circuit.largest := by
    rcases named with constant | defined
    · omega
    · exact (sensible.bounded literal.node defined).2
  have digit := Bool.toNat_le literal.inverted
  rw [Literal.raw]
  omega

theorem opens (printable : circuit.Printable) {bytes after : Text.Bytes}
    (begins : BeginsWithLines bytes circuit.lines after) : circuit.Opens bytes after := by
  have literals := printable.literals
  have count := sensible.length_defined_le
  have countsSmall : ∀ number ∈ circuit.counts, number < 2 ^ 64 := by
    have := printable.outputs
    simp only [counts, List.forall_mem_cons, List.not_mem_nil, false_implies, implies_true,
      and_true]
    omega
  have idSmall : ∀ id ∈ circuit.defined, 2 * id < 2 ^ 64 := by
    intro id member
    have := (sensible.bounded id member).2
    omega
  have rawSmall : ∀ literal, circuit.Names literal → literal.raw < 2 ^ 64 := by
    intro literal named
    have := sensible.raw_le named
    omega
  refine ⟨_, _, _, _, begins, ⟨_, Text.words_spaced solid_header,
    Text.map_numeral?_decimal countsSmall⟩, forall₂_row ?_, forall₂_row ?_, forall₂_row ?_⟩
  · intro id member
    rw [List.forall_mem_singleton]
    exact idSmall id (List.mem_append_left _ member)
  · intro driver member
    rw [List.forall_mem_singleton]
    exact rawSmall driver (sensible.outputs driver member)
  · intro gate member
    rw [List.forall_mem_cons, List.forall_mem_cons, List.forall_mem_singleton]
    exact ⟨idSmall gate.id (List.mem_append_right _ (List.mem_map_of_mem member)),
      rawSmall gate.left (sensible.fanins gate member).1,
      rawSmall gate.right (sensible.fanins gate member).2⟩

end Sensible

/-! ## Reading -/

theorem exists_target? {graph : Graph} (describes : circuit.Describes graph)
    (wellFormed : graph.WellFormed) {symbol : Symbol}
    (inside : symbol.position < circuit.positions symbol.kind) :
    ∃ id, target? symbol graph = some id ∧ graph.isDefined id = true := by
  have first {nodes : List Nat} (count : symbol.position < nodes.length)
      (defined : ∀ id ∈ nodes, graph.isDefined id = true) :
      ∃ id, nodes[symbol.position]? = some id ∧ graph.isDefined id = true :=
    ⟨nodes[symbol.position], List.getElem?_eq_getElem count, defined _ (List.getElem_mem count)⟩
  rw [target?]
  cases kind : symbol.kind with
  | input =>
      apply first
      · rw [describes.inputs]
        simpa [positions, kind] using inside
      · intro id member
        rcases (wellFormed.mem_inputs id).mp member with ⟨node, found, -⟩
        exact Option.isSome_iff_exists.mpr ⟨node, found⟩
  | output =>
      apply first
      · rw [describes.outputs]
        simpa [positions, kind] using inside
      · intro id member
        rcases (wellFormed.mem_outputs id).mp member with ⟨node, found, -⟩
        exact Option.isSome_iff_exists.mpr ⟨node, found⟩

theorem exists_read (sensible : circuit.Sensible) (printable : circuit.Printable)
    (labelling : circuit.Labelling symbols) {bytes tail : Text.Bytes}
    (begins : BeginsWithLines bytes (circuit.lines ++ symbols.map Symbol.text) tail)
    (closes : Closes tail) :
    ∃ graph, read bytes = .ok graph ∧ graph.WellFormed ∧ circuit.Describes graph ∧
      ∀ id name, graph.label? id = some name ↔ ∃ symbol ∈ symbols,
        target? symbol graph = some id ∧ String.ofList symbol.name = name := by
  have literals := printable.literals
  have count := sensible.length_defined_le
  have inside : ∀ id ∈ circuit.defined, id ≤ circuit.largest :=
    fun id member => (sensible.bounded id member).2
  rcases sensible.exists_build (by omega) with ⟨built, building⟩
  have describes := describes_of_build inside building
  have whole := whole_of_build inside building
  have wellFormed := whole.consistent.toWellFormed
  rcases exists_applySymbols fun symbol member =>
    exists_target? describes wellFormed (labelling.inside symbol member)
    with ⟨labelled, applied⟩
  rcases Text.beginsWithLines_append_iff.mp begins with ⟨after, circuitLines, symbolLines⟩
  have readable : ∀ symbol ∈ symbols, symbolLine symbol.text = .ok (some symbol) := by
    intro symbol member
    have position := labelling.inside symbol member
    have outputs := printable.outputs
    refine symbolLine_text (labelling.tidy symbol member) ?_
    cases kind : symbol.kind <;> simp only [kind, positions] at position <;> omega
  have symbolsRead : readSymbols built after = .ok labelled :=
    (readSymbols_of_beginsWithLines symbolLines readable applied).trans
      (closes.readSymbols_eq labelled)
  have assembled : assemble bytes = .ok labelled :=
    assemble_eq_ok_iff.mpr ⟨circuit, after, built, sensible.opens printable circuitLines,
      count, inside, building, symbolsRead⟩
  have labelledDescribes := describes.readSymbols symbolsRead
  refine ⟨labelled, (read_eq_assemble bytes).trans assembled,
    (sound_of_assemble assembled).1.toWellFormed, labelledDescribes, fun id name => ?_⟩
  have target (symbol : Symbol) : target? symbol labelled = target? symbol built := by
    rw [target?, target?, labelledDescribes.inputs, labelledDescribes.outputs, describes.inputs,
      describes.outputs]
  simp only [target]
  exact label?_eq_some_iff wellFormed (label?_of_build inside building) labelling.nodup applied

/-! ## The order of the gates -/

def withGates (circuit : Circuit) (gates : List Definition) : Circuit :=
  { circuit with gates }

theorem Sensible.withGates (sensible : circuit.Sensible) {gates : List Definition}
    (perm : gates.Perm circuit.gates) : (circuit.withGates gates).Sensible := by
  have defined : (circuit.withGates gates).defined.Perm circuit.defined :=
    (perm.map Definition.id).append_left circuit.inputs
  have names (literal : Literal) :
      (circuit.withGates gates).Names literal ↔ circuit.Names literal := by
    rw [Names, Names, defined.mem_iff]
  have reads (consumer driver : Nat) (edge : (circuit.withGates gates).Reads consumer driver) :
      circuit.Reads consumer driver := by
    rcases edge with ⟨gate, member, edge⟩
    exact ⟨gate, perm.mem_iff.mp member, edge⟩
  refine ⟨defined.nodup_iff.mpr sensible.nodup, ?_, ?_, ?_, ?_⟩
  · exact fun id member => sensible.bounded id (defined.mem_iff.mp member)
  · intro gate member
    have fanins := sensible.fanins gate (perm.mem_iff.mp member)
    exact ⟨(names _).mpr fanins.1, (names _).mpr fanins.2⟩
  · exact fun driver member => (names driver).mpr (sensible.outputs driver member)
  · exact fun id path => sensible.acyclic id (Relation.TransGen.mono reads id id path)

theorem Describes.of_withGates {graph : Graph} {gates : List Definition}
    (perm : gates.Perm circuit.gates) (describes : (circuit.withGates gates).Describes graph) :
    circuit.Describes graph where
  size := describes.size
  inputs := describes.inputs
  outputs := describes.outputs
  comprises := describes.comprises.congr fun entry => by
    simp only [nodes, withGates, gateNodes, List.mem_append, List.mem_cons, List.mem_map,
      perm.mem_iff]

theorem Describes.alike {first second : Graph} (left : circuit.Describes first)
    (right : circuit.Describes second) (leftWellFormed : first.WellFormed)
    (rightWellFormed : second.WellFormed)
    (labels : ∀ id, second.label? id = first.label? id) : first.Alike second :=
  left.comprises.alike right.comprises leftWellFormed rightWellFormed
    (right.size.trans left.size.symm) (right.inputs.trans left.inputs.symm)
    (right.outputs.trans left.outputs.symm) labels

/-- What is printed is read back, with its labels, and the order in which the gates are listed
leaves no trace but in the order of the fanouts. -/
theorem read_print (sensible : circuit.Sensible) (printable : circuit.Printable)
    (labelling : circuit.Labelling symbols) {tail : Text.Bytes} (closes : Closes tail) :
    ∃ graph, read (circuit.print symbols ++ tail) = .ok graph ∧ circuit.Describes graph ∧
      (∀ id name, graph.label? id = some name ↔ ∃ symbol ∈ symbols,
        target? symbol graph = some id ∧ String.ofList symbol.name = name) ∧
      ∀ gates, gates.Perm circuit.gates → ∃ other,
        read ((circuit.withGates gates).print symbols ++ tail) = .ok other ∧
          graph.Alike other := by
  rcases exists_read sensible printable labelling (beginsWithLines_print labelling.tidy tail) closes
    with ⟨graph, success, wellFormed, describes, labels⟩
  refine ⟨graph, success, describes, labels, fun gates perm => ?_⟩
  have otherLabelling : (circuit.withGates gates).Labelling symbols :=
    ⟨labelling.tidy, labelling.inside, labelling.nodup⟩
  rcases exists_read (sensible.withGates perm) ⟨printable.literals, printable.outputs⟩
    otherLabelling (beginsWithLines_print labelling.tidy tail) closes
    with ⟨other, otherSuccess, otherWellFormed, otherDescribes, otherLabels⟩
  have same := otherDescribes.of_withGates perm
  refine ⟨other, otherSuccess, describes.alike same wellFormed otherWellFormed fun id => ?_⟩
  have target (symbol : Symbol) : target? symbol other = target? symbol graph := by
    rw [target?, target?, same.inputs, same.outputs, describes.inputs, describes.outputs]
  apply Option.ext
  intro name
  rw [labels, otherLabels]
  simp only [target]

/-- A circuit that lists gates before those that they read. One of them reads a gate twice,
some ids have no node, and an output is constant. -/
def tangled : Circuit where
  largest := 9
  inputs := [5, 2]
  outputs := [⟨7, true⟩, ⟨0, false⟩, ⟨7, true⟩]
  gates := [⟨7, ⟨4, false⟩, ⟨3, true⟩⟩, ⟨4, ⟨3, false⟩, ⟨3, false⟩⟩, ⟨3, ⟨2, false⟩, ⟨5, true⟩⟩]

def tangledSymbols : List Symbol :=
  [⟨.output, 1, "never set".toList⟩, ⟨.input, 0, []⟩]

theorem sensible_tangled : tangled.Sensible where
  nodup := by decide
  bounded := by decide
  fanins := by decide
  outputs := by decide
  acyclic := acyclic_of_rank (fun id => if id = 5 then 0 else id) (by decide)

theorem labelling_tangled : tangled.Labelling tangledSymbols where
  tidy := by decide
  inside := by decide
  nodup := by decide

def remarks : Text.Bytes :=
  Text.encode ['c', '\n'] ++ [255, 0, 10, 128]

theorem read_print_tangled : ∃ graph, read (tangled.print tangledSymbols ++ remarks) = .ok graph ∧
    tangled.Describes graph ∧ graph.label? 11 = some "never set" ∧ graph.label? 5 = some "" ∧
      graph.label? 2 = none ∧ ∃ other,
        read ((tangled.withGates tangled.gates.reverse).print tangledSymbols ++ remarks) =
          .ok other ∧ graph.Alike other := by
  have closes : Closes remarks := .inr ⟨[], [255, 0, 10, 128], by decide, .inl (by decide)⟩
  rcases read_print sensible_tangled ⟨by decide, by decide⟩ labelling_tangled closes with
    ⟨graph, success, describes, labels, orders⟩
  have targets (symbol : Symbol) : target? symbol graph = match symbol.kind with
      | .input => [5, 2][symbol.position]?
      | .output => [10, 11, 12][symbol.position]? := by
    rw [target?, describes.inputs, describes.outputs]
    rfl
  refine ⟨graph, success, describes, ?_, ?_, ?_, orders _ (List.reverse_perm _)⟩
  · exact (labels 11 _).mpr ⟨⟨.output, 1, _⟩, by simp [tangledSymbols], targets _, rfl⟩
  · exact (labels 5 _).mpr ⟨⟨.input, 0, []⟩, by simp [tangledSymbols], targets _, rfl⟩
  · apply Option.eq_none_iff_forall_ne_some.mpr
    intro name labelled
    rcases (labels 2 name).mp labelled with ⟨symbol, member, target, -⟩
    rw [targets] at target
    simp only [tangledSymbols, List.mem_cons, List.not_mem_nil, or_false] at member
    rcases member with rfl | rfl <;> simp at target

end Circuit

end AndInverter.Aiger
