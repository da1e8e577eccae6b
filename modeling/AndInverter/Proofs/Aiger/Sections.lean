import AndInverter.Proofs.Aiger.Building
import AndInverter.Proofs.Aiger.Header

namespace AndInverter.Aiger

open Text (BeginsWith BeginsWithLines Spells beginsWithLines_append_iff)

/-! The sections of a file. A line is read as what its words spell, and the lines of a
section are read one after the other. -/

/-! ## One line -/

theorem evenIndex_eq_ok_iff {number id : Nat} : evenIndex number = .ok id ↔ number = 2 * id := by
  rw [evenIndex]
  split
  · simp only [reduceCtorEq, false_iff]
    omega
  · rw [Except.ok.injEq]
    omega

theorem inputLine_eq_ok_iff {largest id : Nat} {line : List Char} :
    inputLine largest line = .ok id ↔ Spells line [2 * id] ∧ id ≤ largest := by
  rw [inputLine, Spells]
  rcases Text.words line with _ | ⟨token, _ | ⟨other, rest⟩⟩
  · simp
  · simp only [Result.bind_eq_ok_iff, Result.guard_bind_eq_ok_iff, Result.pure_eq_ok_iff,
      number_eq_ok_iff, evenIndex_eq_ok_iff, List.map_cons, List.map_nil, List.cons.injEq,
      and_true]
    constructor
    · rintro ⟨_, read, value, rfl, inside, rfl⟩
      exact ⟨read, by omega⟩
    · rintro ⟨read, inside⟩
      exact ⟨_, read, id, rfl, by omega, rfl⟩
  · simp

theorem outputLine_eq_ok_iff {line : List Char} {driver : Literal} :
    outputLine line = .ok driver ↔ Spells line [driver.raw] := by
  rw [outputLine, Spells]
  rcases Text.words line with _ | ⟨token, _ | ⟨other, rest⟩⟩
  · simp
  · simp only [Result.bind_eq_ok_iff, Result.pure_eq_ok_iff, number_eq_ok_iff, List.map_cons,
      List.map_nil, List.cons.injEq, and_true]
    constructor
    · rintro ⟨value, read, rfl⟩
      rwa [Literal.raw_ofRaw]
    · intro read
      exact ⟨driver.raw, read, Literal.ofRaw_raw driver⟩
  · simp

theorem gateLine_eq_ok_iff {largest : Nat} {line : List Char} {gate : Definition} :
    gateLine largest line = .ok gate ↔
      Spells line [2 * gate.id, gate.left.raw, gate.right.raw] ∧ gate.id ≤ largest := by
  rw [gateLine, Spells]
  rcases Text.words line with _ | ⟨first, _ | ⟨second, _ | ⟨third, _ | ⟨other, rest⟩⟩⟩⟩
  · simp
  · simp
  · simp
  · simp only [Result.bind_eq_ok_iff, Result.guard_bind_eq_ok_iff, Result.pure_eq_ok_iff,
      number_eq_ok_iff, evenIndex_eq_ok_iff, List.map_cons, List.map_nil, List.cons.injEq,
      and_true]
    constructor
    · rintro ⟨_, gateRead, left, leftRead, right, rightRead, id, rfl, inside, rfl⟩
      simp only [Literal.raw_ofRaw]
      exact ⟨⟨gateRead, leftRead, rightRead⟩, by omega⟩
    · rintro ⟨⟨gateRead, leftRead, rightRead⟩, inside⟩
      refine ⟨_, gateRead, _, leftRead, _, rightRead, gate.id, rfl, by omega, ?_⟩
      simp only [Literal.ofRaw_raw]
  · simp

/-! ## Lines -/

theorem requiredLines_eq_ok_iff {α : Type} {ofLine : List Char → Result α} {count : Nat}
    {bytes after : Text.Bytes} {values : List α} :
    requiredLines ofLine count bytes = .ok (values, after) ↔ values.length = count ∧
      ∃ lines, BeginsWithLines bytes lines after ∧
        List.Forall₂ (fun line value => ofLine line = .ok value) lines values := by
  induction count generalizing bytes after values with
  | zero =>
      rw [requiredLines, Except.ok.injEq, Prod.mk.injEq]
      constructor
      · rintro ⟨rfl, rfl⟩
        exact ⟨rfl, [], rfl, .nil⟩
      · rintro ⟨empty, lines, begins, read⟩
        rw [List.length_eq_zero_iff] at empty
        subst empty
        cases read
        exact ⟨rfl, begins⟩
  | succ count induction =>
      simp only [requiredLines, Result.bind_eq_ok_iff, Result.pure_eq_ok_iff, Prod.exists,
        requiredLine_eq_ok_iff, induction, Prod.mk.injEq]
      constructor
      · rintro ⟨line, rest, begins, value, read, values, last, ⟨rfl, lines, follow, reads⟩, rfl,
          rfl⟩
        exact ⟨rfl, line :: lines, ⟨rest, begins, follow⟩, .cons read reads⟩
      · rintro ⟨length, lines, begins, reads⟩
        cases reads with
        | nil => cases length
        | cons read reads =>
            rcases begins with ⟨rest, begins, follow⟩
            exact ⟨_, rest, begins, _, read, _, after,
              ⟨Nat.succ.inj length, _, follow, reads⟩, rfl, rfl⟩

/-- The inputs join the graph while their lines are read, but might as well join it later. -/
theorem readInputs_eq_ok_iff {largest count : Nat} {graph grown : Graph}
    {bytes after : Text.Bytes} :
    readInputs largest count graph bytes = .ok (grown, after) ↔ ∃ ids,
      requiredLines (inputLine largest) count bytes = .ok (ids, after) ∧
        ids.foldlM (fun graph id => graph.addInputAt id) graph = .ok grown := by
  induction count generalizing graph bytes with
  | zero =>
      simp only [readInputs, requiredLines, Except.ok.injEq, Prod.mk.injEq]
      constructor
      · rintro ⟨rfl, rfl⟩
        exact ⟨[], ⟨rfl, rfl⟩, rfl⟩
      · rintro ⟨ids, ⟨rfl, rfl⟩, success⟩
        cases success
        exact ⟨rfl, rfl⟩
  | succ count induction =>
      simp only [readInputs, requiredLines, Result.bind_eq_ok_iff, Result.pure_eq_ok_iff,
        Prod.exists, induction, Prod.mk.injEq]
      constructor
      · rintro ⟨line, rest, begins, id, read, middle, adding, ids, reads, success⟩
        refine ⟨id :: ids, ⟨line, rest, begins, id, read, ids, after, reads, rfl, rfl⟩, ?_⟩
        rw [List.foldlM_cons, Result.bind_eq_ok_iff]
        exact ⟨middle, adding, success⟩
      · rintro ⟨_, ⟨line, rest, begins, id, read, ids, _, reads, rfl, rfl⟩, success⟩
        rw [List.foldlM_cons, Result.bind_eq_ok_iff] at success
        rcases success with ⟨middle, adding, success⟩
        exact ⟨line, rest, begins, id, read, middle, adding, ids, reads, success⟩

private theorem forall₂_and_iff {α β : Type} {Matches : α → β → Prop} {Fits : β → Prop}
    {lines : List α} {values : List β} :
    List.Forall₂ (fun line value => Matches line value ∧ Fits value) lines values ↔
      List.Forall₂ Matches lines values ∧ ∀ value ∈ values, Fits value := by
  constructor
  · intro both
    induction both with
    | nil => exact ⟨.nil, fun _ member => nomatch member⟩
    | cons head _ induction =>
        exact ⟨.cons head.1 induction.1, List.forall_mem_cons.mpr ⟨head.2, induction.2⟩⟩
  · rintro ⟨spelt, fits⟩
    induction spelt with
    | nil => exact .nil
    | cons head _ induction =>
        rcases List.forall_mem_cons.mp fits with ⟨first, others⟩
        exact .cons ⟨head, first⟩ (induction others)

/-! ## The file -/

def assemble (bytes : Text.Bytes) : Result Graph := do
  let (line, bytes) ← requiredLine bytes
  let header ← Header.ofLine line
  let graph ← Graph.empty.reserve header.largest
  let (graph, bytes) ← readInputs header.largest header.inputs graph bytes
  let (drivers, bytes) ← requiredLines outputLine header.outputs bytes
  let (definitions, bytes) ← requiredLines (gateLine header.largest) header.gates bytes
  let graph ← placeGates definitions graph
  let graph ← addOutputs drivers graph
  readSymbols graph bytes

theorem read_eq (bytes : Text.Bytes) : read bytes = (do
    let graph ← assemble bytes
    graph.checkIntegrity
    return graph) := by
  simp only [read, assemble, bind_assoc]

theorem assemble_eq_ok_iff {bytes : Text.Bytes} {graph : Graph} :
    assemble bytes = .ok graph ↔ ∃ circuit after built, Circuit.Opens circuit bytes after ∧
      circuit.inputs.length + circuit.gates.length ≤ circuit.largest ∧
        (∀ id ∈ circuit.defined, id ≤ circuit.largest) ∧ circuit.build = .ok built ∧
          readSymbols built after = .ok graph := by
  simp only [assemble, Result.bind_eq_ok_iff, Prod.exists, requiredLine_eq_ok_iff,
    Header.ofLine_eq_ok_iff, readInputs_eq_ok_iff, requiredLines_eq_ok_iff, inputLine_eq_ok_iff,
    outputLine_eq_ok_iff, gateLine_eq_ok_iff, forall₂_and_iff]
  constructor
  · rintro ⟨line, _, begins, header, ⟨heads, enough⟩, reserved, reserving, declared, _,
      ⟨inputs, ⟨inputCount, inputLines, inputsBegin, inputsSpelt, inputsInside⟩, declaring⟩,
      outputs, _, ⟨outputCount, outputLines, outputsBegin, outputsSpelt⟩,
      gates, after, ⟨gateCount, gateLines, gatesBegin, gatesSpelt, gatesInside⟩,
      placed, placing, built, adding, labelling⟩
    rcases header with ⟨largest, inputCount, outputCount, gateCount⟩
    subst inputCount outputCount gateCount
    refine ⟨⟨largest, inputs, outputs, gates⟩, after, built, ?_, enough, ?_, ?_, labelling⟩
    · refine ⟨line, inputLines, outputLines, gateLines, ⟨_, begins, ?_⟩, heads, inputsSpelt,
        outputsSpelt, gatesSpelt⟩
      simp only [beginsWithLines_append_iff]
      exact ⟨_, ⟨_, inputsBegin, outputsBegin⟩, gatesBegin⟩
    · intro id member
      rcases List.mem_append.mp member with input | gate
      · exact inputsInside id input
      · rcases List.mem_map.mp gate with ⟨definition, inside, rfl⟩
        exact gatesInside definition inside
    · simp only [Circuit.build, Result.bind_eq_ok_iff]
      exact ⟨reserved, reserving, declared, declaring, placed, placing, adding⟩
  · rintro ⟨circuit, after, built, ⟨line, inputLines, outputLines, gateLines, ⟨_, begins, follow⟩,
      heads, inputsSpelt, outputsSpelt, gatesSpelt⟩, enough, inside, building, labelling⟩
    simp only [beginsWithLines_append_iff] at follow
    rcases follow with ⟨_, ⟨_, inputsBegin, outputsBegin⟩, gatesBegin⟩
    simp only [Circuit.build, Result.bind_eq_ok_iff] at building
    rcases building with ⟨reserved, reserving, declared, declaring, placed, placing, adding⟩
    refine ⟨line, _, begins,
      ⟨circuit.largest, circuit.inputs.length, circuit.outputs.length, circuit.gates.length⟩,
      ⟨heads, enough⟩, reserved, reserving, declared, _,
      ⟨circuit.inputs, ⟨rfl, inputLines, inputsBegin, inputsSpelt, ?_⟩, declaring⟩,
      circuit.outputs, _, ⟨rfl, outputLines, outputsBegin, outputsSpelt⟩,
      circuit.gates, after, ⟨rfl, gateLines, gatesBegin, gatesSpelt, ?_⟩,
      placed, placing, built, adding, labelling⟩
    · exact fun id member => inside id (List.mem_append_left _ member)
    · exact fun gate member =>
        inside gate.id (List.mem_append_right _ (List.mem_map_of_mem member))

end AndInverter.Aiger
