import AndInverter.Simulation.Stimulus
import AndInverter.Text.Blank
import AndInverter.Text.Line

namespace AndInverter

open Text (Bytes Reading readLine)

/-! Patterns from a text: words of zeros and ones with white space between them,
one word a pattern and one character an input. How the words are laid out in lines
does not matter, but a refused word is reported with the number of its line. -/

inductive Lexeme
  | word (line : Nat) (text : List Char)
  | unreadable
deriving DecidableEq, Repr

def Lexeme.ofBytes (lines : Nat) (bytes : Bytes) : List Lexeme :=
  match _ : readLine bytes with
  | .finished => []
  | .unreadable after => .unreadable :: ofBytes lines after
  | .line text after => (Text.words text).map (.word (lines + 1)) ++ ofBytes (lines + 1) after
termination_by bytes.length
decreasing_by
  · exact Text.readLine_unreadable_lt (by assumption)
  · exact Text.readLine_line_lt (by assumption)

def Text.byteLength (text : List Char) : Nat :=
  (text.flatMap String.utf8EncodeChar).length

/-- The bits of a word that has one character an input, each a zero or a one. The
length is counted in bytes and checked first. -/
def patternBits (inputs line : Nat) (text : List Char) : Result (List Bool) :=
  if Text.byteLength text ≠ inputs then
    .error (.pattern (.wrongLength line (String.ofList text) (Text.byteLength text) inputs))
  else
    match text.find? fun character => character ≠ '0' && character ≠ '1' with
    | some other => .error (.pattern (.otherCharacter line (String.ofList text) other))
    | none => .ok (text.map (· = '1'))

structure PatternSource where
  lexemes : List Lexeme
deriving DecidableEq, Repr

namespace PatternSource

def ofBytes (bytes : Bytes) : PatternSource :=
  ⟨Lexeme.ofBytes 0 bytes⟩

/-- Takes up to `room` patterns. A failure uses up what was taken before it. -/
def take (inputs : Nat) : (room : Nat) → List Lexeme → Result (List (List Bool)) × List Lexeme
  | 0, lexemes => (.ok [], lexemes)
  | _ + 1, [] => (.ok [], [])
  | _ + 1, .unreadable :: others => (.error (.stream .notText), others)
  | room + 1, .word line text :: others =>
      match patternBits inputs line text with
      | .error failure => (.error failure, others)
      | .ok bits =>
          let (taken, after) := take inputs room others
          (taken.map (bits :: ·), after)

def next (inputs : Nat) (source : PatternSource) : Result (Option Batch) × PatternSource :=
  match take inputs Word.width source.lexemes with
  | (.error failure, after) => (.error failure, ⟨after⟩)
  | (.ok [], after) => (.ok none, ⟨after⟩)
  | (.ok patterns, after) => (.ok (some (.packed inputs patterns)), ⟨after⟩)

private theorem length_take_le (inputs room : Nat) (lexemes : List Lexeme) :
    (take inputs room lexemes).2.length ≤ lexemes.length := by
  induction room, lexemes using take.induct inputs with
  | case1 lexemes => simp [take]
  | case2 => simp [take]
  | case3 room others => simp [take]
  | case4 room line text others failure refused => simp [take, refused]
  | case5 room line text others bits accepted induction =>
      simp only [take, accepted, List.length_cons]
      omega

private theorem length_take_lt {inputs room : Nat} {lexemes after : List Lexeme}
    {first : List Bool} {patterns : List (List Bool)}
    (taken : take inputs room lexemes = (.ok (first :: patterns), after)) :
    after.length < lexemes.length := by
  unfold take at taken
  split at taken
  · simp at taken
  · simp at taken
  · simp at taken
  · rename_i room line text others
    have shorter := length_take_le inputs room others
    split at taken
    · simp at taken
    · simp only [Prod.mk.injEq] at taken
      rw [← taken.2, List.length_cons]
      omega

instance : Stimulus PatternSource where
  next := next
  remaining source := source.lexemes.length
  remaining_lt := by
    intro inputs source after batch asked
    unfold next at asked
    split at asked
    · simp at asked
    · simp at asked
    · rename_i patterns rest nonempty taken
      simp only [Prod.mk.injEq] at asked
      rw [← asked.2]
      cases patterns with
      | nil => exact absurd rfl (nonempty)
      | cons first others => exact length_take_lt taken

end PatternSource

end AndInverter
