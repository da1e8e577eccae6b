import AndInverter.Literal

namespace AndInverter

/-! What the operations report while they work. An event tells that a node was
merged or swept; a note is a line for the reader of a log. A journal keeps both
in the order in which they happened. -/

inductive Cause
  | hashing
  | simplification
  | reduction
  | sweeping
deriving DecidableEq, Repr

def Cause.title : Cause → String
  | .hashing => "Strashing"
  | .simplification => "Simplifying"
  | .reduction => "Fraig"
  | .sweeping => "Sweeping"

/-- A node was merged into a literal, or swept when there is none. -/
structure Event where
  cause : Cause
  surviving : Option Literal
  removed : Nat
deriving DecidableEq, Repr

namespace Event

def merge (cause : Cause) (surviving : Literal) (removed : Nat) : Event :=
  ⟨cause, some surviving, removed⟩

def sweep (removed : Nat) : Event :=
  ⟨.sweeping, none, removed⟩

/-- Written form. The exclamation mark of an inverted survivor stands before the
removed node. -/
def text (event : Event) : String :=
  match event.surviving with
  | some survivor =>
      let mark := if survivor.inverted then "!" else ""
      s!"{event.cause.title}: {survivor.node} merging {mark}{event.removed}..."
  | none => s!"{event.cause.title}: AIG({event.removed}) removed..."

end Event

inductive Level
  | info
  | debug
  | trace
deriving DecidableEq, Repr

def Level.upTo : Level → (limit : Level) → Bool
  | .info, _ => true
  | .debug, .info => false
  | .debug, _ => true
  | .trace, .trace => true
  | .trace, _ => false

inductive Topic
  | sweeping
  | hashing
  | simplification
  | simulation
  | partition
  | equivalence
  | reduction
  | events
deriving DecidableEq, Repr

inductive Note
  | swept (gates : Nat)
  | duplicate (gate first : Nat)
  | hashed (merged : Nat)
  | trivial (gate : Nat) (equal : Literal)
  | simplified (removed : Nat)
  | refined (evicted classes : Nat)
  | simulatedBatch (number patterns classes : Nat)
  | simulated (patterns : Nat)
  | compared (left right : Literal) (different : Bool)
  | merging (removed : Nat) (surviving : Literal)
  | reduced (proofs disproofs merges : Nat)
  | shown (event : Event)
deriving DecidableEq, Repr

namespace Note

def level : Note → Level
  | .swept _ | .duplicate .. | .trivial .. | .refined .. | .merging .. => .debug
  | .simulatedBatch .. | .compared .. => .trace
  | .hashed _ | .simplified _ | .simulated _ | .reduced .. | .shown _ => .info

def topic : Note → Topic
  | .swept _ => .sweeping
  | .duplicate .. | .hashed _ => .hashing
  | .trivial .. | .simplified _ => .simplification
  | .refined .. => .partition
  | .simulatedBatch .. | .simulated _ => .simulation
  | .compared .. => .equivalence
  | .merging .. | .reduced .. => .reduction
  | .shown _ => .events

def text : Note → String
  | .swept gates => s!"sweep removed {gates} and gates"
  | .duplicate gate first => s!"strash: {gate} is a duplicate of {first}"
  | .hashed merged => s!"strash merged {merged} gates"
  | .trivial gate equal => s!"simplify: {gate} becomes {equal}"
  | .simplified removed => s!"simplify removed {removed} gates"
  | .refined evicted classes =>
      s!"fec refinement: {evicted} members evicted, {classes} classes"
  | .simulatedBatch number patterns classes =>
      s!"batch {number}: {patterns} patterns, {classes} classes"
  | .simulated patterns => s!"{patterns} patterns simulated"
  | .compared left right different =>
      let answer := if different then "Sat" else "Unsat"
      s!"miter {left} vs {right}: {answer}"
  | .merging removed surviving => s!"fraig: {removed} merged into {surviving}"
  | .reduced proofs disproofs merges =>
      s!"fraig: {proofs} proofs, {disproofs} disproofs, {merges} merges"
  | .shown event => event.text

end Note

inductive Entry
  | event (event : Event)
  | note (note : Note)
deriving DecidableEq, Repr

abbrev Journal := List Entry

inductive Sink
  | collect
  | silent
  | log
deriving DecidableEq, Repr

namespace Journal

def events (journal : Journal) : List Event :=
  journal.filterMap fun
    | .event event => some event
    | .note _ => none

def silenced (journal : Journal) : Journal :=
  journal.filter fun
    | .event _ => false
    | .note _ => true

@[simp] theorem events_append (earlier later : Journal) :
    events (earlier ++ later) = events earlier ++ events later :=
  List.filterMap_append

@[simp] theorem events_silenced (journal : Journal) : journal.silenced.events = [] := by
  rw [events, silenced, List.filterMap_eq_nil_iff]
  intro entry member
  cases entry with
  | event event => cases (List.mem_filter.mp member).2
  | note note => rfl

/-- The notes, in order, together with the events that the sink shows as lines. -/
def notes (sink : Sink) (journal : Journal) : List Note :=
  journal.filterMap fun
    | .event event => if sink = .log then some (.shown event) else none
    | .note note => some note

end Journal

end AndInverter
