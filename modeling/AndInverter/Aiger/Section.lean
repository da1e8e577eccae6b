import AndInverter.Aiger.Header

namespace AndInverter.Aiger

/-! The lines that follow the header, one kind a section: inputs, outputs, gates
and symbols. -/

def evenIndex (number : Nat) : Result Nat :=
  if number % 2 = 1 then .error (.token (.oddLiteral number)) else .ok (number / 2)

def inputLine (largest : Nat) (line : List Char) : Result Nat :=
  match Text.words line with
  | [] => .error (.token .emptyInput)
  | [token] => do
      let id ← evenIndex (← number token)
      if largest < id then throw (.token (.inputTooLarge id largest))
      return id
  | _ :: other :: _ => .error (.token (.afterInput (String.ofList other)))

def outputLine (line : List Char) : Result Literal :=
  match Text.words line with
  | [] => .error (.token .emptyOutput)
  | [token] => return .ofRaw (← number token)
  | _ :: other :: _ => .error (.token (.afterOutput (String.ofList other)))

structure Definition where
  id : Nat
  left : Literal
  right : Literal
deriving DecidableEq, Repr

def gateLine (largest : Nat) (line : List Char) : Result Definition :=
  match Text.words line with
  | [gate, left, right] => do
      let gate ← number gate
      let left ← number left
      let right ← number right
      let id ← evenIndex gate
      if largest < id then throw (.token (.gateTooLarge id largest))
      return ⟨id, .ofRaw left, .ofRaw right⟩
  | _ :: _ :: _ :: other :: _ => .error (.token (.afterGate (String.ofList other)))
  | _ => .error (.token .shortGate)

inductive SymbolKind
  | input
  | output
deriving DecidableEq, Repr

def SymbolKind.letter : SymbolKind → Char
  | .input => 'i'
  | .output => 'o'

structure Symbol where
  kind : SymbolKind
  position : Nat
  name : List Char
deriving DecidableEq, Repr

def dropReturns (line : List Char) : List Char :=
  (line.reverse.dropWhile (· = '\r')).reverse

def positionAndName (kind : SymbolKind) (rest line : List Char) : Result Symbol :=
  match rest.dropWhile (· ≠ ' ') with
  | [] => .error (.token (.unnamedSymbol (String.ofList line)))
  | _ :: name => do
      let position ← number (rest.takeWhile (· ≠ ' '))
      return ⟨kind, position, name⟩

/-- A symbol line, or nothing where the symbols end: at an empty line, or where
the comments begin. -/
def symbolLine (text : List Char) : Result (Option Symbol) :=
  let line := dropReturns text
  match line with
  | [] => .ok none
  | 'c' :: _ => .ok none
  | 'i' :: rest => return some (← positionAndName .input rest line)
  | 'o' :: rest => return some (← positionAndName .output rest line)
  | 'l' :: _ => .error (.unsupported .latchSymbols)
  | _ => .error (.token (.unknownSymbol (String.ofList line)))

end AndInverter.Aiger
