import AndInverter.Sat.Backend

namespace AndInverter

/-! Transcripts. A recorder stands before another back end and writes down every
call since the last reset. It counts the calls that solve, and can make one of
them fail. -/

inductive Call
  | reset
  | newVariable (literal : SatLiteral)
  | addClause (clause : Clause)
  | assume (literals : List SatLiteral)
  | solve (answer : Except String Bool)

structure Recorder (State : Type) where
  backend : State
  calls : List Call
  solves : Nat
  /-- the call to solve that fails, counted from zero -/
  failing : Option Nat

namespace Recorder

variable {State : Type}

def ofBackend (backend : State) : Recorder State :=
  ⟨backend, [], 0, none⟩

def failAt (failing : Option Nat) (recorder : Recorder State) : Recorder State :=
  { recorder with solves := 0, failing }

def transcript (recorder : Recorder State) : List Call :=
  recorder.calls.reverse

def tearOff (recorder : Recorder State) : Recorder State :=
  { recorder with calls := [] }

def injected : String := "injected"

instance [Backend State] : Backend (Recorder State) where
  reset recorder :=
    { recorder with backend := Backend.reset recorder.backend, calls := [.reset] }
  newVariable recorder :=
    let (literal, backend) := Backend.newVariable recorder.backend
    (literal, { recorder with backend, calls := .newVariable literal :: recorder.calls })
  addClause clause recorder :=
    { recorder with
      backend := Backend.addClause clause recorder.backend
      calls := .addClause clause :: recorder.calls }
  assume literals recorder :=
    { recorder with
      backend := Backend.assume literals recorder.backend
      calls := .assume literals :: recorder.calls }
  solve recorder :=
    let (answer, backend) :=
      if recorder.failing = some recorder.solves then (.error injected, recorder.backend)
      else Backend.solve recorder.backend
    (answer,
      { recorder with
        backend
        calls := .solve answer :: recorder.calls
        solves := recorder.solves + 1 })

end Recorder

end AndInverter
