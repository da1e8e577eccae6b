import AndInverter.Proofs.Text.Line
import AndInverter.Proofs.Text.Words
import AndInverter.Simulation.Patterns

namespace AndInverter

/-! Patterns from a text. A source takes the words of the text thirty-two at a time, wherever
the lines end, and packs them as if they had been given as lists of bits. The first word that is
no pattern makes the call fail that comes upon it, with the number of its line; the calls before
it are not affected. -/

/-! ## Packing -/

namespace Batch

variable {words : List Word} {bits : List Bool}

theorem lane_enter (full : bits.length = words.length) {lane input index : Nat}
    (inside : index < 32) :
    ((enter lane words bits)[input]?).any (·.lane index) =
      ((words[input]?).any (·.lane index) ||
        (decide (index = lane) && (bits[input]?).getD false)) := by
  by_cases present : input < words.length
  · have given : input < bits.length := full ▸ present
    rw [enter, List.getElem?_zipWith, List.getElem?_eq_getElem present,
      List.getElem?_eq_getElem given]
    cases bit : bits[input] <;> simp [inside]
  · have missing : bits.length ≤ input := full ▸ Nat.le_of_not_lt present
    rw [enter, List.getElem?_zipWith, List.getElem?_eq_none (Nat.le_of_not_lt present),
      List.getElem?_eq_none missing]
    simp

theorem length_enter (full : bits.length = words.length) (lane : Nat) :
    (enter lane words bits).length = words.length := by
  rw [enter, List.length_zipWith, full, Nat.min_self]

theorem lane_enterAll {patterns : List (List Bool)}
    (full : ∀ bits ∈ patterns, bits.length = words.length) (start input : Nat) {index : Nat}
    (inside : index < 32) :
    ((enterAll start words patterns)[input]?).any (·.lane index) =
      ((words[input]?).any (·.lane index) ||
        (decide (start ≤ index) && (patterns[index - start]?.bind (·[input]?)).getD false)) := by
  induction patterns generalizing start words with
  | nil => simp [enterAll]
  | cons bits others induction =>
      rcases List.forall_mem_cons.mp full with ⟨first, rest⟩
      have same := length_enter first start
      rw [enterAll, induction (fun other member => (rest other member).trans same.symm),
        lane_enter first inside, Bool.or_assoc]
      congr 1
      rcases Nat.lt_trichotomy index start with before | rfl | later
      · simp [show ¬start ≤ index by omega, show ¬start + 1 ≤ index by omega,
          show index ≠ start by omega]
      · simp [show ¬index + 1 ≤ index by omega]
      · have next : index - start = index - (start + 1) + 1 := by omega
        simp [next, show start ≤ index by omega, show start + 1 ≤ index by omega,
          show index ≠ start by omega]

theorem length_enterAll {patterns : List (List Bool)}
    (full : ∀ bits ∈ patterns, bits.length = words.length) (start : Nat) :
    (enterAll start words patterns).length = words.length := by
  induction patterns generalizing start words with
  | nil => rfl
  | cons bits others induction =>
      rcases List.forall_mem_cons.mp full with ⟨first, rest⟩
      have same := length_enter first start
      rw [enterAll, induction (fun other member => (rest other member).trans same.symm), same]

theorem packed_eq_ofPatterns {inputs : Nat} {patterns : List (List Bool)}
    (full : ∀ bits ∈ patterns, bits.length = inputs) :
    packed inputs patterns = ofPatterns inputs patterns := by
  have fits : ∀ bits ∈ patterns, bits.length = (List.replicate inputs 0#32).length := by
    simpa using full
  rw [packed, ofPatterns]
  congr 1
  have size := length_enterAll fits 0
  rw [List.length_replicate] at size
  apply List.ext_getElem
  · rw [size, List.length_map, List.length_range]
  · intro input present inside
    rw [List.length_map, List.length_range] at inside
    apply Word.ext_lane
    intro index below
    have lane := lane_enterAll fits 0 input below
    simpa [present, inside, below] using lane

end Batch

/-! ## Lines -/

namespace Lexeme

def ofToken (token : Nat × List Char) : Lexeme :=
  .word token.1 token.2

theorem ofBytes_nil (lines : Nat) : ofBytes lines [] = [] := by
  rw [ofBytes]
  rfl

theorem ofBytes_of_line {bytes after : Text.Bytes} {line : List Char}
    (read : Text.readLine bytes = .line line after) (lines : Nat) :
    ofBytes lines bytes =
      (Text.words line).map (.word (lines + 1)) ++ ofBytes (lines + 1) after := by
  rw [ofBytes]
  split
  · rename_i finished
    cases read.symm.trans finished
  · rename_i unreadable
    cases read.symm.trans unreadable
  · rename_i other
    cases read.symm.trans other
    rfl

/-- The lexemes of a text are its words, under the numbers of their lines. -/
theorem ofBytes_encode (lines : Nat) (text : List Char) :
    ofBytes lines (Text.encode text) = (Text.numberedWords (lines + 1) text).map ofToken := by
  induction text using Text.induction_lines generalizing lines with
  | last line clean =>
      rw [Text.numberedWords_line clean, List.map_map]
      by_cases empty : line = []
      · subst empty
        exact ofBytes_nil lines
      · rw [ofBytes_of_line (Text.readLine_eq_line_iff.mpr ⟨clean, .inr ⟨empty, rfl, rfl⟩⟩),
          ofBytes_nil, List.append_nil]
        rfl
  | more line rest clean induction =>
      have begins := Text.beginsWith_encode_append clean rest
      rw [ofBytes_of_line (Text.readLine_eq_line_iff.mpr begins), induction,
         Text.numberedWords_append clean, List.map_append, List.map_map]
      rfl

end Lexeme

/-! ## Patterns -/

namespace Text

def IsPattern (inputs : Nat) (word : List Char) : Prop :=
  word.length = inputs ∧ ∀ character ∈ word, character = '0' ∨ character = '1'

def bits (word : List Char) : List Bool :=
  word.map (· = '1')

theorem byteLength_eq_length {word : List Char}
    (binary : ∀ character ∈ word, character = '0' ∨ character = '1') :
    byteLength word = word.length := by
  induction word with
  | nil => rfl
  | cons character others induction =>
      rcases List.forall_mem_cons.mp binary with ⟨first, rest⟩
      have one : (String.utf8EncodeChar character).length = 1 := by
        rcases first with rfl | rfl <;> rfl
      have split : byteLength (character :: others) =
          (String.utf8EncodeChar character).length + byteLength others := by
        rw [byteLength, List.flatMap_cons, List.length_append]
        rfl
      rw [split, one, induction rest, List.length_cons, Nat.add_comm]

end Text

/-- The fault tells that a word is no pattern: it has a wrong number of bytes, or else a character
that is neither zero nor one, the first of them. -/
inductive PatternFault.Refuses (inputs line : Nat) (word : List Char) : PatternFault → Prop
  | length (wrong : Text.byteLength word ≠ inputs) :
      Refuses inputs line word
        (.wrongLength line (String.ofList word) (Text.byteLength word) inputs)
  | character {good rest : List Char} {character : Char}
      (right : Text.byteLength word = inputs) (split : word = good ++ character :: rest)
      (binary : ∀ other ∈ good, other = '0' ∨ other = '1')
      (other : character ≠ '0' ∧ character ≠ '1') :
      Refuses inputs line word (.otherCharacter line (String.ofList word) character)

theorem patternBits_of_isPattern {inputs : Nat} {word : List Char}
    (pattern : Text.IsPattern inputs word) (line : Nat) :
    patternBits inputs line word = .ok (Text.bits word) := by
  have length := (Text.byteLength_eq_length pattern.2).trans pattern.1
  have none : word.find? (fun character => character ≠ '0' && character ≠ '1') = none := by
    rw [List.find?_eq_none]
    intro character member
    rcases pattern.2 character member with rfl | rfl <;> decide
  rw [patternBits, if_neg (not_not_intro length), none]
  rfl

theorem exists_refuses {inputs : Nat} {word : List Char}
    (noPattern : ¬Text.IsPattern inputs word) (line : Nat) :
    ∃ fault, patternBits inputs line word = .error (.pattern fault) ∧
      fault.Refuses inputs line word := by
  rw [patternBits]
  split
  · rename_i wrong
    exact ⟨_, rfl, .length wrong⟩
  · rename_i right
    rw [not_not] at right
    cases found : word.find? fun character => character ≠ '0' && character ≠ '1' with
    | some character =>
        rcases List.find?_eq_some_iff_append.mp found with ⟨other, good, rest, split, binary⟩
        refine ⟨_, rfl, .character right split (fun earlier member => ?_) (by simpa using other)⟩
        have before := binary earlier member
        simp only [ne_eq, decide_not, Bool.not_and, Bool.not_not, Bool.or_eq_true,
          decide_eq_true_eq] at before
        exact before
    | none =>
        have binary : ∀ character ∈ word, character = '0' ∨ character = '1' := by
          intro character member
          have either := List.find?_eq_none.mp found character member
          simp only [ne_eq, decide_not, Bool.and_eq_true, Bool.not_eq_true',
            decide_eq_false_iff_not, not_and_or, not_not] at either
          exact either
        exact absurd ⟨(Text.byteLength_eq_length binary).symm.trans right, binary⟩ noPattern

/-! ## Calls -/

namespace PatternSource

variable {inputs line : Nat} {word : List Char} {tokens : List (Nat × List Char)}

def Accepted (inputs : Nat) (tokens : List (Nat × List Char)) : Prop :=
  ∀ token ∈ tokens, Text.IsPattern inputs token.2

theorem Accepted.take (accepted : Accepted inputs tokens) (count : Nat) :
    Accepted inputs (tokens.take count) :=
  fun token member => accepted token (List.mem_of_mem_take member)

theorem Accepted.drop (accepted : Accepted inputs tokens) (count : Nat) :
    Accepted inputs (tokens.drop count) :=
  fun token member => accepted token (List.mem_of_mem_drop member)

def chunk (calls : Nat) (tokens : List (Nat × List Char)) : List (Nat × List Char) :=
  (tokens.drop (Word.width * calls)).take Word.width

def batch (inputs : Nat) (tokens : List (Nat × List Char)) : Batch :=
  .ofPatterns inputs (tokens.map fun token => Text.bits token.2)

def delivery (inputs : Nat) (tokens : List (Nat × List Char)) : Option Batch :=
  if tokens = [] then none else some (batch inputs tokens)

theorem chunk_succ (calls : Nat) (tokens : List (Nat × List Char)) :
    chunk (calls + 1) tokens = chunk calls (tokens.drop Word.width) := by
  rw [chunk, chunk, List.drop_drop, Nat.mul_succ, Nat.add_comm]

theorem take_append (accepted : Accepted inputs tokens) (room : Nat) (others : List Lexeme) :
    take inputs (tokens.length + room) (tokens.map Lexeme.ofToken ++ others) =
      ((take inputs room others).1.map ((tokens.map fun token => Text.bits token.2) ++ ·),
        (take inputs room others).2) := by
  induction tokens with
  | nil =>
      rw [List.length_nil, Nat.zero_add, List.map_nil, List.nil_append]
      rcases take inputs room others with ⟨failure | taken, after⟩ <;> rfl
  | cons token tokens induction =>
      rcases List.forall_mem_cons.mp accepted with ⟨pattern, rest⟩
      rw [List.length_cons, Nat.add_right_comm]
      simp only [List.map_cons, List.cons_append, Lexeme.ofToken, take,
        patternBits_of_isPattern pattern, induction rest]
      rcases take inputs room others with ⟨failure | taken, after⟩ <;> rfl

theorem next_of_take (accepted : Accepted inputs tokens) {lexemes after : List Lexeme}
    (taken : take inputs Word.width lexemes =
      (.ok (tokens.map fun token => Text.bits token.2), after)) :
    next inputs ⟨lexemes⟩ = (.ok (delivery inputs tokens), ⟨after⟩) := by
  have full : ∀ bits ∈ tokens.map (fun token => Text.bits token.2), bits.length = inputs := by
    intro bits member
    rcases List.mem_map.mp member with ⟨token, inside, rfl⟩
    rw [Text.bits, List.length_map, (accepted token inside).1]
  rw [next, taken]
  cases tokens with
  | nil => rfl
  | cons token others =>
      rw [delivery, if_neg (List.cons_ne_nil _ _), batch, ← Batch.packed_eq_ofPatterns full]
      rfl

theorem next_full (accepted : Accepted inputs tokens) (enough : Word.width ≤ tokens.length)
    (others : List Lexeme) :
    next inputs ⟨tokens.map Lexeme.ofToken ++ others⟩ =
      (.ok (delivery inputs (tokens.take Word.width)),
        ⟨(tokens.drop Word.width).map Lexeme.ofToken ++ others⟩) := by
  have front := accepted.take Word.width
  have taken := take_append front 0 ((tokens.drop Word.width).map Lexeme.ofToken ++ others)
  rw [← List.append_assoc, ← List.map_append, List.take_append_drop, Nat.add_zero,
    List.length_take_of_le enough, take] at taken
  apply next_of_take front
  rw [taken, Except.map, List.append_nil]

theorem next_last (accepted : Accepted inputs tokens) (short : tokens.length < Word.width) :
    next inputs ⟨tokens.map Lexeme.ofToken⟩ = (.ok (delivery inputs tokens), ⟨[]⟩) := by
  obtain ⟨room, whole⟩ := Nat.exists_eq_add_of_lt short
  have taken := take_append accepted (room + 1) []
  rw [← Nat.add_assoc, ← whole, take, List.append_nil] at taken
  apply next_of_take accepted
  rw [taken, Except.map, List.append_nil]

theorem next_refused (accepted : Accepted inputs tokens) (short : tokens.length < Word.width)
    (noPattern : ¬Text.IsPattern inputs word) (line : Nat) (others : List Lexeme) :
    ∃ fault, next inputs ⟨tokens.map Lexeme.ofToken ++ .word line word :: others⟩ =
        (.error (.pattern fault), ⟨others⟩) ∧ fault.Refuses inputs line word := by
  rcases exists_refuses noPattern line with ⟨fault, failed, refuses⟩
  refine ⟨fault, ?_, refuses⟩
  obtain ⟨room, whole⟩ := Nat.exists_eq_add_of_lt short
  have taken := take_append accepted (room + 1) (.word line word :: others)
  rw [← Nat.add_assoc, ← whole] at taken
  rw [next, taken]
  simp only [take, failed, Except.map]

theorem next_accepted (accepted : Accepted inputs tokens) :
    next inputs ⟨tokens.map Lexeme.ofToken⟩ =
      (.ok (delivery inputs (tokens.take Word.width)),
        ⟨(tokens.drop Word.width).map Lexeme.ofToken⟩) := by
  by_cases enough : Word.width ≤ tokens.length
  · have step := next_full accepted enough []
    rwa [List.append_nil, List.append_nil] at step
  · have short := Nat.lt_of_not_le enough
    rw [List.take_of_length_le (Nat.le_of_lt short), List.drop_of_length_le (Nat.le_of_lt short)]
    exact next_last accepted short

theorem answer_accepted (accepted : Accepted inputs tokens) (calls : Nat) :
    Stimulus.answer inputs calls (⟨tokens.map Lexeme.ofToken⟩ : PatternSource) =
      .ok (delivery inputs (chunk calls tokens)) := by
  induction calls generalizing tokens with
  | zero => exact congrArg Prod.fst (next_accepted accepted)
  | succ calls induction =>
      have step := congrArg Prod.snd (next_accepted accepted)
      rw [chunk_succ, ← induction (accepted.drop Word.width)]
      exact congrArg (Stimulus.answer inputs calls) step

/-- As long as the calls are for patterns only, what comes later does not matter. -/
theorem answer_eq_next (accepted : Accepted inputs tokens) {calls : Nat}
    (enough : Word.width * calls ≤ tokens.length) (others : List Lexeme) :
    Stimulus.answer inputs calls (⟨tokens.map Lexeme.ofToken ++ others⟩ : PatternSource) =
      (next inputs ⟨(tokens.drop (Word.width * calls)).map Lexeme.ofToken ++ others⟩).1 := by
  induction calls generalizing tokens with
  | zero => rfl
  | succ calls induction =>
      rw [Nat.mul_succ] at enough ⊢
      have step := congrArg Prod.snd (next_full accepted (by omega) others)
      have rest := induction (accepted.drop Word.width) (by rw [List.length_drop]; omega)
      rw [List.drop_drop, Nat.add_comm] at rest
      rw [← rest]
      exact congrArg (Stimulus.answer inputs calls) step

theorem width_le_length_drop {calls : Nat} (enough : Word.width * (calls + 1) ≤ tokens.length) :
    Word.width ≤ (tokens.drop (Word.width * calls)).length := by
  rw [Nat.mul_succ] at enough
  rw [List.length_drop]
  omega

theorem chunk_append {calls : Nat} (enough : Word.width * (calls + 1) ≤ tokens.length)
    (others : List (Nat × List Char)) : chunk calls (tokens ++ others) = chunk calls tokens := by
  have room := width_le_length_drop enough
  rw [Nat.mul_succ] at enough
  rw [chunk, chunk, List.drop_append_of_le_length (by omega), List.take_append_of_le_length room]

theorem answer_before (accepted : Accepted inputs tokens) {calls : Nat}
    (enough : Word.width * (calls + 1) ≤ tokens.length) (others : List Lexeme) :
    Stimulus.answer inputs calls (⟨tokens.map Lexeme.ofToken ++ others⟩ : PatternSource) =
      .ok (some (batch inputs (chunk calls tokens))) := by
  have later := accepted.drop (Word.width * calls)
  have room := width_le_length_drop enough
  rw [Nat.mul_succ] at enough
  have some_word : chunk calls tokens ≠ [] := by
    rw [← List.length_pos_iff, chunk, List.length_take_of_le room]
    exact Nat.succ_pos 31
  rw [answer_eq_next accepted (by omega), next_full later room, delivery, ← chunk,
    if_neg some_word]

theorem answer_at (accepted : Accepted inputs tokens) (noPattern : ¬Text.IsPattern inputs word)
    (line : Nat) (others : List Lexeme) :
    ∃ fault, Stimulus.answer inputs (tokens.length / Word.width)
        (⟨tokens.map Lexeme.ofToken ++ .word line word :: others⟩ : PatternSource) =
          .error (.pattern fault) ∧ fault.Refuses inputs line word := by
  have later := accepted.drop (Word.width * (tokens.length / Word.width))
  have short : (tokens.drop (Word.width * (tokens.length / Word.width))).length < Word.width := by
    rw [List.length_drop, ← Nat.mod_eq_sub]
    exact Nat.mod_lt _ (Nat.succ_pos 31)
  rcases next_refused later short noPattern line others with ⟨fault, failed, refuses⟩
  refine ⟨fault, ?_, refuses⟩
  rw [answer_eq_next accepted (Nat.mul_div_le _ _), failed]

/-- A text of patterns is delivered in batches of thirty-two words, with nothing after them, when
all its words are patterns. Else the first word that is none is refused, with the number of its
line, by the call that is for it; all calls before it get their batches. -/
theorem answer_text (inputs : Nat) (text : List Char) :
    let source := ofBytes (Text.encode text)
    let tokens := Text.numberedWords 1 text
    tokens.map Prod.snd = Text.words text ∧
      (Accepted inputs tokens → ∀ calls,
        Stimulus.answer inputs calls source = .ok (delivery inputs (chunk calls tokens))) ∧
      ∀ (before after : List (Nat × List Char)) (line : Nat) (word : List Char),
        tokens = before ++ (line, word) :: after → Accepted inputs before →
          ¬Text.IsPattern inputs word →
            (∀ calls < before.length / Word.width, Stimulus.answer inputs calls source =
              .ok (some (batch inputs (chunk calls tokens)))) ∧
            ∃ fault, Stimulus.answer inputs (before.length / Word.width) source =
                .error (.pattern fault) ∧ fault.Refuses inputs line word := by
  intro source tokens
  have lexemes : source = ⟨tokens.map Lexeme.ofToken⟩ :=
    congrArg PatternSource.mk (Lexeme.ofBytes_encode 0 text)
  refine ⟨Text.map_snd_numberedWords 1 text, fun accepted calls => ?_, ?_⟩
  · rw [lexemes]
    exact answer_accepted accepted calls
  · intro before after line word split accepted noPattern
    rw [lexemes, split, List.map_append, List.map_cons]
    refine ⟨fun calls early => ?_, answer_at accepted noPattern line _⟩
    have enough : Word.width * (calls + 1) ≤ before.length :=
      Nat.le_trans (Nat.mul_le_mul_left _ early) (Nat.mul_div_le _ _)
    rw [chunk_append enough]
    exact answer_before accepted enough _

/-- Three patterns on two lines, and a word of two bytes that is one character. -/
theorem answer_text_sample :
    let good := ofBytes (Text.encode "01 11\n\n  00".toList)
    let bad := ofBytes (Text.encode "01\n\n é 1".toList)
    (Stimulus.answer 2 0 good =
        .ok (some (.ofPatterns 2 [[false, true], [true, true], [false, false]])) ∧
      Stimulus.answer 2 1 good = .ok none) ∧
      ∃ fault, Stimulus.answer 2 0 bad = .error (.pattern fault) ∧ fault.Refuses 2 3 ['é'] := by
  intro good bad
  have goodWords : Text.numberedWords 1 "01 11\n\n  00".toList =
      [(1, ['0', '1']), (1, ['1', '1']), (3, ['0', '0'])] := by decide
  have badWords : Text.numberedWords 1 "01\n\n é 1".toList =
      [(1, ['0', '1'])] ++ (3, ['é']) :: [(3, ['1'])] := by decide
  have accepted : Accepted 2 (Text.numberedWords 1 "01 11\n\n  00".toList) := by
    rw [goodWords]
    simp [Accepted, Text.IsPattern]
  have answers := (answer_text 2 "01 11\n\n  00".toList).2.1 accepted
  have refused := ((answer_text 2 "01\n\n é 1".toList).2.2 _ _ 3 ['é'] badWords
    (by simp [Accepted, Text.IsPattern]) (by simp [Text.IsPattern])).2
  rw [goodWords] at answers
  exact ⟨⟨answers 0, answers 1⟩, refused⟩

end PatternSource

end AndInverter
