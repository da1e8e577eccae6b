import AndInverter.Aiger.Reading

namespace AndInverter.Aiger

/-! Circuit files. A path leads to a file by parts between slashes. The extension of
the file's name tells its format, and is looked at before the file. -/

inductive Stored
  | absent
  | folder
  | file (content : Text.Bytes)
deriving DecidableEq, Repr

/-- The parts of a path. Slashes that follow each other count once, and a part that is
one point leads nowhere. -/
def pathParts (path : List Char) : List (List Char) :=
  (path.splitOn '/').filter fun part => part ≠ [] ∧ part ≠ ['.']

def fileName? (path : List Char) : Option (List Char) :=
  (pathParts path).getLast?.filter (· ≠ ['.', '.'])

/-- The text after the last point of a name. A point at the very start of a name
begins no extension. -/
def extension? (name : List Char) : Option (List Char) :=
  match name.reverse.dropWhile (· ≠ '.') with
  | _ :: _ :: _ => some (name.reverse.takeWhile (· ≠ '.')).reverse
  | _ => none

def longestName : Nat := 255

/-- The most bytes that a path may have below its folder. With the path of the folder it
may have 4095. -/
def longestPath : Nat := 4079

/-- Why nothing can be found under a path in a folder that holds nothing. A path that is
short enough is followed up to the first part that names something. -/
def absence (path : List Char) : StreamFault :=
  if '\x00' ∈ path then .zeroInPath
  else if longestPath < (Text.encode path).length then .longName
  else
    match (pathParts path).find? (· ≠ ['.', '.']) with
    | some part =>
        if longestName < (Text.encode part).length then .longName else .noSuchFile
    | none => .noSuchFile

def readAt (path : String) (stored : Stored) : Result Graph :=
  if (fileName? path.toList).bind extension? ≠ some ['a', 'a', 'g'] then
    .error (.unsupported .otherExtension)
  else
    match stored with
    | .absent => .error (.stream (absence path.toList))
    | .folder => .error (.stream .isFolder)
    | .file content => read content

end AndInverter.Aiger
