namespace AndInverter.Text

/-! Lines of a stream of bytes. A line ends with a newline or with the stream. It
is text when its bytes are UTF-8; a line that is never reached is never looked
at. -/

abbrev Bytes := List UInt8

inductive Reading
  | finished
  | unreadable (after : Bytes)
  | line (text : List Char) (after : Bytes)
deriving DecidableEq, Repr

def decode? (bytes : Bytes) : Option (List Char) :=
  (ByteArray.mk bytes.toArray).utf8Decode?.map Array.toList

def encode (text : List Char) : Bytes :=
  text.flatMap String.utf8EncodeChar

def newline : UInt8 := 10

def readLine (bytes : Bytes) : Reading :=
  if bytes.isEmpty then .finished
  else
    let after := (bytes.dropWhile (· != newline)).drop 1
    match decode? (bytes.takeWhile (· != newline)) with
    | none => .unreadable after
    | some text => .line text after

theorem decode?_encode (text : List Char) : decode? (encode text) = some text := by
  have whole : ByteArray.mk (encode text).toArray = text.utf8Encode := by
    apply ByteArray.ext
    simp [encode, List.utf8Encode]
  simp [decode?, whole]

private theorem length_after_lt {bytes : Bytes} (some_byte : bytes.isEmpty = false) :
    ((bytes.dropWhile (· != newline)).drop 1).length < bytes.length := by
  have shorter := (List.dropWhile_sublist (· != newline) (l := bytes)).length_le
  cases bytes with
  | nil => simp at some_byte
  | cons head tail =>
      simp only [List.length_drop, List.length_cons] at shorter ⊢
      omega

theorem readLine_line_lt {bytes after : Bytes} {text : List Char}
    (read : readLine bytes = .line text after) : after.length < bytes.length := by
  unfold readLine at read
  split at read
  · simp at read
  · rename_i nonempty
    simp only at read
    split at read
    · simp at read
    · cases read
      exact length_after_lt (by simpa using nonempty)

theorem readLine_unreadable_lt {bytes after : Bytes}
    (read : readLine bytes = .unreadable after) : after.length < bytes.length := by
  unfold readLine at read
  split at read
  · simp at read
  · rename_i nonempty
    simp only at read
    split at read
    · cases read
      exact length_after_lt (by simpa using nonempty)
    · simp at read

end AndInverter.Text
