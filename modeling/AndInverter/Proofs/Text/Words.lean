import AndInverter.Text.Blank
import AndInverter.Text.Numeral

namespace AndInverter.Text

/-! Words and numbers in a text. Numbers that are written in decimal, with a space between each
two, are read back as they are. A text has the words of its lines. -/

def Spells (line : List Char) (numbers : List Nat) : Prop :=
  (words line).map numeral? = numbers.map some

def spaced (words : List (List Char)) : List Char :=
  [' '].intercalate words

def decimal (number : Nat) : List Char :=
  Nat.toDigits 10 number

/-! ## Words -/

def Solid (word : List Char) : Prop :=
  word ≠ [] ∧ ∀ character ∈ word, isBlank character = false

theorem Solid.words_eq {word : List Char} (solid : Solid word) : words word = [word] := by
  rw [words, List.splitOnP_eq_singleton solid.2]
  simp [solid.1]

theorem words_append_cons {character : Char} (blank : isBlank character = true)
    (before after : List Char) :
    words (before ++ character :: after) = words before ++ words after := by
  rw [words, List.splitOnP_append_cons before after blank, List.filter_append]
  rfl

theorem Solid.words_append {word : List Char} (solid : Solid word) (rest : List Char) :
    words (word ++ ' ' :: rest) = word :: words rest := by
  rw [words_append_cons rfl, solid.words_eq]
  rfl

@[simp] theorem spaced_cons_cons (first second : List Char) (rest : List (List Char)) :
    spaced (first :: second :: rest) = first ++ ' ' :: spaced (second :: rest) := by
  simp [spaced, List.intercalate]

@[simp] theorem spaced_singleton (word : List Char) : spaced [word] = word := by
  simp [spaced, List.intercalate]

theorem words_spaced {tokens : List (List Char)} (solid : ∀ word ∈ tokens, Solid word) :
    words (spaced tokens) = tokens := by
  induction tokens with
  | nil => rfl
  | cons first others induction =>
      rcases List.forall_mem_cons.mp solid with ⟨head, tail⟩
      cases others with
      | nil => rw [spaced_singleton, head.words_eq]
      | cons second rest => rw [spaced_cons_cons, head.words_append, induction tail]

theorem newline_not_mem_spaced {tokens : List (List Char)}
    (solid : ∀ word ∈ tokens, Solid word) : '\n' ∉ spaced tokens := by
  induction tokens with
  | nil => exact List.not_mem_nil
  | cons first others induction =>
      rcases List.forall_mem_cons.mp solid with ⟨head, tail⟩
      have clean : '\n' ∉ first := fun member => absurd (head.2 '\n' member) (by decide)
      cases others with
      | nil => rwa [spaced_singleton]
      | cons second rest => simpa [clean] using induction tail

/-! ## Lines -/

theorem induction_lines {motive : List Char → Prop}
    (last : ∀ line, '\n' ∉ line → motive line)
    (more : ∀ line rest, '\n' ∉ line → motive rest → motive (line ++ '\n' :: rest))
    (text : List Char) : motive text := by
  generalize size : text.length = length
  induction length using Nat.strongRecOn generalizing text with
  | _ length induction =>
      by_cases inside : '\n' ∈ text
      · rcases List.eq_append_cons_of_mem inside with ⟨line, rest, rfl, clean⟩
        refine more line rest clean (induction rest.length ?_ rest rfl)
        rw [← size, List.length_append, List.length_cons]
        omega
      · exact last text inside

private theorem beq_newline {line : List Char} (clean : '\n' ∉ line) :
    ∀ character ∈ line, (character == '\n') = false :=
  fun _ member => beq_eq_false_iff_ne.mpr fun same => clean (same ▸ member)

/-- The words of a text, each with the number of its line; the first line has the given one. -/
def numberedWords (first : Nat) (text : List Char) : List (Nat × List Char) :=
  ((text.splitOn '\n').zipIdx first).flatMap fun (line, number) => (words line).map (number, ·)

theorem numberedWords_line {line : List Char} (clean : '\n' ∉ line) (first : Nat) :
    numberedWords first line = (words line).map (first, ·) := by
  rw [numberedWords, List.splitOn, List.splitOnP_eq_singleton (beq_newline clean)]
  exact List.flatMap_singleton ..

theorem numberedWords_append {line : List Char} (clean : '\n' ∉ line) (rest : List Char)
    (first : Nat) : numberedWords first (line ++ '\n' :: rest) =
      (words line).map (first, ·) ++ numberedWords (first + 1) rest := by
  rw [numberedWords, List.splitOn,
    List.splitOnP_append_cons_of_forall_mem (beq_newline clean) '\n' rfl, List.zipIdx_cons,
    List.flatMap_cons]
  rfl

theorem map_snd_numberedWords (first : Nat) (text : List Char) :
    (numberedWords first text).map Prod.snd = words text := by
  induction text using induction_lines generalizing first with
  | last line clean => simp [numberedWords_line clean, Function.comp_def]
  | more line rest clean induction =>
      rw [numberedWords_append clean, List.map_append, induction, words_append_cons rfl]
      simp [Function.comp_def]

/-! ## Numerals -/

theorem isDigit_of_mem_decimal {number : Nat} {character : Char}
    (member : character ∈ decimal number) : character.isDigit = true :=
  Nat.isDigit_of_mem_toDigits (by decide) (by decide) member

theorem decimal_ne_nil (number : Nat) : decimal number ≠ [] :=
  Nat.toDigits_ne_nil

theorem isBlank_of_isDigit {character : Char} (digit : character.isDigit = true) :
    isBlank character = false := by
  simp only [Char.isDigit, Bool.and_eq_true, decide_eq_true_eq, ge_iff_le,
    UInt32.le_iff_toNat_le] at digit
  have lower : 48 ≤ character.toNat := digit.1
  have upper : character.toNat ≤ 57 := digit.2
  simp only [isBlank, Bool.or_eq_false_iff, Bool.and_eq_false_iff, decide_eq_false_iff_not]
  omega

theorem solid_decimal (number : Nat) : Solid (decimal number) :=
  ⟨decimal_ne_nil number, fun _ member => isBlank_of_isDigit (isDigit_of_mem_decimal member)⟩

private theorem unsigned_decimal (number : Nat) : unsigned (decimal number) = decimal number := by
  have noSign : '+' ∉ decimal number :=
    fun member => absurd (isDigit_of_mem_decimal member) (by decide)
  rw [unsigned]
  intro digits signed
  exact noSign (signed ▸ List.mem_cons_self)

theorem numeral?_decimal {number : Nat} (small : number < UInt64.size) :
    numeral? (decimal number) = some number := by
  have digits : (decimal number).all Char.isDigit = true :=
    List.all_eq_true.mpr fun _ => isDigit_of_mem_decimal
  have value : Nat.ofDigitChars 10 (decimal number) 0 = number := Nat.ofDigitChars_ten_toDigits
  rw [numeral?, unsigned_decimal, if_pos ⟨decimal_ne_nil number, digits⟩, value]
  exact Option.filter_eq_some_iff.mpr ⟨rfl, decide_eq_true small⟩

theorem map_numeral?_decimal {numbers : List Nat}
    (small : ∀ number ∈ numbers, number < UInt64.size) :
    (numbers.map decimal).map numeral? = numbers.map some := by
  rw [List.map_map]
  exact List.map_congr_left fun number member => numeral?_decimal (small number member)

theorem spells_spaced {numbers : List Nat} (small : ∀ number ∈ numbers, number < UInt64.size) :
    Spells (spaced (numbers.map decimal)) numbers := by
  rw [Spells, words_spaced (List.forall_mem_map.mpr fun number _ => solid_decimal number),
    map_numeral?_decimal small]

end AndInverter.Text
