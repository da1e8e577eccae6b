import AndInverter.Literal

namespace AndInverter

/-! Everything that can go wrong, as causes. The wording of each cause stands in
one place, beside its type. -/

inductive Defect
  | misplacedConstant
  | constantDeactivated
  | outputAsFanin (output : Nat)
  | replacedByItself (node : Nat)
  | replacedInactive (node : Nat)
  /-- the replacement is inactive or an output -/
  | unusableReplacement (node : Nat) (replacement : Literal)
  | cycle
  | gateOnCycle (gate : Nat)
  | readsInactive (node fanin : Nat)
  | undefinedFanin (node : Nat) (fanin : Literal)
  | inactiveFanin (node : Nat) (fanin : Literal)
  | unlistedFanin (node : Nat) (fanin : Literal)
  | undefinedFanout (node : Nat) (fanout : Literal)
  | inactiveFanout (node : Nat) (fanout : Literal)
  | unreadFanout (node : Nat) (fanout : Literal)
  | notInput (node : Nat)
  | notOutput (node : Nat)
  /-- an equivalence query met an inactive node below `root` -/
  | inactiveInCone (node root : Nat)
  | unencoded (node : Nat)
deriving DecidableEq, Repr

def Defect.message : Defect → String
  | .misplacedConstant => "node 0 must be the active False node"
  | .constantDeactivated => "the constant node cannot be deactivated"
  | .outputAsFanin output => s!"output {output} cannot be used as a fanin"
  | .replacedByItself node => s!"cannot replace node {node} by itself"
  | .replacedInactive node => s!"cannot replace inactive node {node}"
  | .unusableReplacement node replacement => s!"cannot replace node {node} by {replacement}"
  | .cycle => "found a cycle"
  | .gateOnCycle gate => s!"and gate {gate} is part of a cycle"
  | .readsInactive node fanin => s!"active node {node} has inactive fanin {fanin}"
  | .undefinedFanin node fanin => s!"node {node} has fanin {fanin} which is not in the AIG"
  | .inactiveFanin node fanin => s!"node {node} has inactive fanin {fanin}"
  | .unlistedFanin node fanin => s!"node {node} has fanin {fanin} but is not one of its fanouts"
  | .undefinedFanout node fanout => s!"node {node} has fanout {fanout} which is not in the AIG"
  | .inactiveFanout node fanout => s!"node {node} has inactive fanout {fanout}"
  | .unreadFanout node fanout => s!"node {node} has fanout {fanout} but is not one of its fanins"
  | .notInput node => s!"input {node} is not an input node"
  | .notOutput node => s!"output {node} is not an output node"
  | .inactiveInCone node root => s!"inactive node {node} in the cone of {root}"
  | .unencoded node => s!"node {node} is not mapped to any SAT variable"

inductive Feature
  | longHeader
  | latches
  | latchSymbols
  | otherExtension
deriving DecidableEq, Repr

def Feature.message : Feature → String
  | .longHeader => "header only supports M I L O A"
  | .latches => "latches (sequential circuits)"
  | .latchSymbols => "latch symbols"
  | .otherExtension => "invalid extension, expected .aag"

inductive TokenFault
  | endOfFile
  | shortHeader
  | otherFormat (token : String)
  | notNumber (token : String)
  | tooFewIndices (largest needed : Nat)
  | emptyInput
  | afterInput (token : String)
  | oddLiteral (number : Nat)
  | inputTooLarge (input largest : Nat)
  | emptyOutput
  | afterOutput (token : String)
  | shortGate
  | afterGate (token : String)
  | gateTooLarge (gate largest : Nat)
  | unknownSymbol (line : String)
  | unnamedSymbol (line : String)
  /-- a symbol of the kind `letter` stands at no position of its list -/
  | danglingSymbol (letter : Char) (position : Nat)
deriving DecidableEq, Repr

def TokenFault.message : TokenFault → String
  | .endOfFile => "unexpected end of file"
  | .shortHeader => "missing header tokens"
  | .otherFormat token => s!"expected aag, got {token}"
  | .notNumber token => s!"{token} expected u64"
  | .tooFewIndices largest needed => s!"M={largest} is smaller than I + A = {needed}"
  | .emptyInput => "expected input token, got nothing"
  | .afterInput token => s!"expected nothing after input, got {token}"
  | .oddLiteral number => s!"expected literal to be even, got {number}"
  | .inputTooLarge input largest => s!"input {input} exceeds M={largest}"
  | .emptyOutput => "expected output token, got nothing"
  | .afterOutput token => s!"expected nothing after output, got {token}"
  | .shortGate => "not enough and tokens"
  | .afterGate token => s!"expected nothing after and tokens, got {token}"
  | .gateTooLarge gate largest => s!"and gate {gate} exceeds M={largest}"
  | .unknownSymbol line => s!"invalid symbol line {line}"
  | .unnamedSymbol line => s!"expected symbol name in {line}"
  | .danglingSymbol letter position => s!"symbol {letter}{position} refers to nothing"

inductive PatternFault
  | wrongLength (line : Nat) (pattern : String) (length expected : Nat)
  | otherCharacter (line : Nat) (pattern : String) (character : Char)
  | refused (reason : String)
deriving DecidableEq, Repr

def PatternFault.message : PatternFault → String
  | .wrongLength line pattern length expected =>
      s!"line {line}: pattern {pattern} has length {length}, expected {expected}"
  | .otherCharacter line pattern character =>
      s!"line {line}: pattern {pattern} contains a non-0/1 character {character}"
  | .refused reason => reason

inductive StreamFault
  | notText
  | noSuchFile
  | isFolder
  | longName
  | zeroInPath
  | logFull
deriving DecidableEq, Repr

def StreamFault.message : StreamFault → String
  | .notText => "stream did not contain valid UTF-8"
  | .noSuchFile => "No such file or directory (os error 2)"
  | .isFolder => "Is a directory (os error 21)"
  | .longName => "File name too long (os error 36)"
  | .zeroInPath => "file name contained an unexpected NUL byte"
  | .logFull => "log full"

inductive Error
  | duplicateId (id : Nat)
  | constantId
  | missingNode (id : Nat)
  | notGate (id : Nat)
  | defect (defect : Defect)
  | unsupported (feature : Feature)
  | token (fault : TokenFault)
  | pattern (fault : PatternFault)
  | stream (fault : StreamFault)
  | solver (reason : String)
  | overflow
deriving DecidableEq, Repr

def Error.message : Error → String
  | .duplicateId id => s!"a different node with id={id} already exists"
  | .constantId => "id=0 is for node False only"
  | .missingNode id => s!"node with id={id} does not exist"
  | .notGate id => s!"node with id={id} is not an and gate"
  | .defect broken =>
      "the AIG has reached an invalid state - this should not happen - error: " ++ broken.message
  | .unsupported feature => "unsupported feature: " ++ feature.message
  | .token fault => "invalid token: " ++ fault.message
  | .pattern fault => "invalid pattern: " ++ fault.message
  | .stream fault => "io error: " ++ fault.message
  | .solver reason => "SAT solver error: " ++ reason
  | .overflow => "arithmetic overflow"

abbrev Result (α : Type) := Except Error α

namespace Result

/-! When a chain of operations succeeds. -/

variable {α β : Type}

theorem bind_eq_ok_iff {first : Result α} {next : α → Result β} {result : β} :
    (first >>= next) = .ok result ↔ ∃ value, first = .ok value ∧ next value = .ok result := by
  cases first with
  | error failure => simp [bind, Except.bind]
  | ok value => simp [bind, Except.bind]

theorem bind_eq_error_iff {first : Result α} {next : α → Result β} {failure : Error} :
    (first >>= next) = .error failure ↔
      first = .error failure ∨ ∃ value, first = .ok value ∧ next value = .error failure := by
  cases first with
  | error other => simp [bind, Except.bind]
  | ok value => simp [bind, Except.bind]

theorem pure_eq_ok_iff {value result : α} :
    (pure value : Result α) = .ok result ↔ value = result := by
  simp [pure, Except.pure]

theorem guard_bind_eq_ok_iff {condition : Prop} [Decidable condition] {failure : Error}
    {next : PUnit → Result β} {result : β} :
    (if condition then throw failure >>= next else next ⟨⟩) = .ok result ↔
      ¬condition ∧ next ⟨⟩ = .ok result := by
  split
  · rename_i holds
    simp [holds, bind, Except.bind, throw, throwThe, MonadExceptOf.throw]
  · rename_i fails
    simp [fails]

theorem guard_bind_eq_error_iff {condition : Prop} [Decidable condition] {refusal failure : Error}
    {next : PUnit → Result β} :
    (if condition then throw refusal >>= next else next ⟨⟩) = .error failure ↔
      condition ∧ refusal = failure ∨ ¬condition ∧ next ⟨⟩ = .error failure := by
  split
  · rename_i holds
    simp [holds, bind, Except.bind, throw, throwThe, MonadExceptOf.throw]
  · rename_i fails
    simp [fails]

theorem guard_eq_ok_iff {condition : Prop} [Decidable condition] {failure : Error}
    {rest : Result α} {result : α} :
    (if condition then throw failure else rest) = .ok result ↔
      ¬condition ∧ rest = .ok result := by
  split
  · rename_i holds
    simp [holds, throw, throwThe, MonadExceptOf.throw]
  · rename_i fails
    simp [fails]

theorem mapM_eq_ok {step : α → Result β} {plain : α → β} {values : List α}
    (each : ∀ value ∈ values, step value = .ok (plain value)) :
    values.mapM step = .ok (values.map plain) := by
  induction values with
  | nil => rfl
  | cons head tail induction =>
      rw [List.mapM_cons, each head List.mem_cons_self,
        induction fun value member => each value (.tail head member)]
      rfl

end Result

end AndInverter
