import AndInverter.Text.Line
import Mathlib.Logic.Basic
import Mathlib.Tactic.SplitIfs

namespace AndInverter.Text

/-! Lines of text among bytes. Reading a line gives back the text that was written, and
nothing else is read as that text. A newline byte stands for a newline only, so what
follows the first one is not looked at. -/

/-- The bytes begin with a line of text and go on with others. The newline of the last line
may be missing. -/
def BeginsWith (bytes : Bytes) (line : List Char) (after : Bytes) : Prop :=
  '\n' ∉ line ∧ (bytes = encode line ++ newline :: after ∨
    line ≠ [] ∧ bytes = encode line ∧ after = [])

def BeginsWithLines (bytes : Bytes) : (lines : List (List Char)) → (after : Bytes) → Prop
  | [], after => bytes = after
  | line :: lines, after => ∃ rest, BeginsWith bytes line rest ∧ BeginsWithLines rest lines after

theorem beginsWithLines_append_iff {bytes after : Bytes} {first second : List (List Char)} :
    BeginsWithLines bytes (first ++ second) after ↔
      ∃ middle, BeginsWithLines bytes first middle ∧ BeginsWithLines middle second after := by
  induction first generalizing bytes with
  | nil => simp [BeginsWithLines]
  | cons line lines induction =>
      simp only [List.cons_append, BeginsWithLines, induction]
      constructor
      · rintro ⟨rest, begins, middle, early, late⟩
        exact ⟨middle, ⟨rest, begins, early⟩, late⟩
      · rintro ⟨middle, ⟨rest, begins, early⟩, late⟩
        exact ⟨rest, begins, middle, early, late⟩

def unlines (lines : List (List Char)) : Bytes :=
  lines.flatMap fun line => encode line ++ [newline]

theorem beginsWithLines_unlines {lines : List (List Char)} (clean : ∀ line ∈ lines, '\n' ∉ line)
    (after : Bytes) : BeginsWithLines (unlines lines ++ after) lines after := by
  induction lines with
  | nil => rfl
  | cons line lines induction =>
      rcases List.forall_mem_cons.mp clean with ⟨head, tail⟩
      exact ⟨unlines lines ++ after, ⟨head, .inl (by simp [unlines])⟩, induction tail⟩

/-! ## Bytes -/

theorem decode?_eq_some_iff {bytes : Bytes} {text : List Char} :
    decode? bytes = some text ↔ bytes = encode text := by
  constructor
  · intro decoded
    rcases Option.map_eq_some_iff.mp decoded with ⟨characters, found, rfl⟩
    have whole : (ByteArray.mk bytes.toArray).utf8Decode?.isSome = true := by
      rw [found, Option.isSome_some]
    have encoded := ByteArray.utf8Encode_get_utf8Decode? (h := whole)
    simp only [found, Option.get_some] at encoded
    have data := congrArg (fun array => array.data.toList) encoded
    simpa [encode, List.utf8Encode] using data.symm
  · rintro rfl
    exact decode?_encode text

private theorem newline_eq_ofNat_iff {code : Nat} :
    newline = UInt8.ofNat code ↔ code % 256 = 10 := by
  rw [← UInt8.toNat_inj, UInt8.toNat_ofNat']
  exact eq_comm

theorem newline_mem_utf8EncodeChar_iff {character : Char} :
    newline ∈ String.utf8EncodeChar character ↔ character = '\n' := by
  have code : character = '\n' ↔ character.val.toNat = 10 := by
    rw [Char.ext_iff, ← UInt32.toNat_inj]
    rfl
  rw [String.utf8EncodeChar, code]
  -- all bytes of a longer code are above those of the characters that take one byte
  split_ifs
  all_goals
    simp only [List.mem_cons, List.not_mem_nil, or_false, newline_eq_ofNat_iff]
    omega

theorem newline_mem_encode_iff {text : List Char} : newline ∈ encode text ↔ '\n' ∈ text := by
  rw [encode, List.mem_flatMap]
  constructor
  · rintro ⟨character, member, inside⟩
    exact newline_mem_utf8EncodeChar_iff.mp inside ▸ member
  · intro member
    exact ⟨'\n', member, newline_mem_utf8EncodeChar_iff.mpr rfl⟩

theorem encode_eq_nil_iff {text : List Char} : encode text = [] ↔ text = [] := by
  cases text with
  | nil => simp [encode]
  | cons head tail => simp [encode, String.utf8EncodeChar_ne_nil]

/-! ## Lines -/

private def Ends (tail : Bytes) : Prop :=
  tail = [] ∨ ∃ after, tail = newline :: after

private theorem exists_ends (bytes : Bytes) :
    ∃ content tail, bytes = content ++ tail ∧ newline ∉ content ∧ Ends tail := by
  induction bytes with
  | nil => exact ⟨[], [], rfl, List.not_mem_nil, .inl rfl⟩
  | cons head rest induction =>
      by_cases same : head = newline
      · exact ⟨[], head :: rest, rfl, List.not_mem_nil, .inr ⟨rest, by rw [same]⟩⟩
      · rcases induction with ⟨content, tail, rfl, clean, ends⟩
        refine ⟨head :: content, tail, rfl, ?_, ends⟩
        simp [Ne.symm same, clean]

private theorem readLine_append {content tail : Bytes} (clean : newline ∉ content)
    (ends : Ends tail) (nonempty : content ++ tail ≠ []) :
    readLine (content ++ tail) = match decode? content with
      | none => .unreadable (tail.drop 1)
      | some text => .line text (tail.drop 1) := by
  have kept : ∀ byte ∈ content, (byte != newline) = true := by
    intro byte member
    rw [bne_iff_ne]
    rintro rfl
    exact clean member
  have stops : tail.takeWhile (· != newline) = [] ∧ tail.dropWhile (· != newline) = tail := by
    rcases ends with rfl | ⟨after, rfl⟩
    · exact ⟨rfl, rfl⟩
    · simp
  have before : (content ++ tail).takeWhile (· != newline) = content := by
    rw [List.takeWhile_append_of_pos kept, stops.1, List.append_nil]
  have rest : (content ++ tail).dropWhile (· != newline) = tail := by
    rw [List.dropWhile_append_of_pos kept, stops.2]
  have some_byte : (content ++ tail).isEmpty = false := by simpa using nonempty
  cases decoded : decode? content <;>
    simp only [readLine, some_byte, before, rest, decoded, Bool.false_eq_true, if_false]

theorem readLine_eq_line_iff {bytes after : Bytes} {line : List Char} :
    readLine bytes = .line line after ↔ BeginsWith bytes line after := by
  constructor
  · intro read
    rcases exists_ends bytes with ⟨content, tail, rfl, clean, ends⟩
    have nonempty : content ++ tail ≠ [] := by
      intro empty
      rw [empty] at read
      cases read
    rw [readLine_append clean ends nonempty] at read
    split at read
    · cases read
    · rename_i text decoded
      cases read
      rw [decode?_eq_some_iff] at decoded
      subst decoded
      refine ⟨fun member => clean (newline_mem_encode_iff.mpr member), ?_⟩
      rcases ends with rfl | ⟨rest, rfl⟩
      · rw [List.append_nil] at nonempty ⊢
        exact .inr ⟨fun empty => nonempty (encode_eq_nil_iff.mpr empty), rfl, rfl⟩
      · exact .inl rfl
  · rintro ⟨noNewline, cases⟩
    have clean : newline ∉ encode line := fun member =>
      noNewline (newline_mem_encode_iff.mp member)
    rcases cases with rfl | ⟨nonempty, rfl, rfl⟩
    · rw [readLine_append clean (.inr ⟨after, rfl⟩) (by simp), decode?_encode]
      rfl
    · have read := readLine_append clean (.inl rfl)
        (by simpa using encode_eq_nil_iff.not.mpr nonempty)
      rw [List.append_nil, decode?_encode] at read
      exact read

theorem encode_append (first second : List Char) :
    encode (first ++ second) = encode first ++ encode second :=
  List.flatMap_append

theorem beginsWith_encode_append {line : List Char} (clean : '\n' ∉ line) (rest : List Char) :
    BeginsWith (encode (line ++ '\n' :: rest)) line (encode rest) :=
  ⟨clean, .inl (encode_append line ('\n' :: rest))⟩

end AndInverter.Text
