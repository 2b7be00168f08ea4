/-!
# Paths

A path is a text whose components are separated by slashes.  Empty components and `.` name nothing, so
`components` leaves them out; the last component is the file name unless it is `..`, and the extension
of a file name is what follows its last dot, provided that something stands before that dot.
-/

namespace SpecCoverage.Files

/-- The pieces between slashes, empty ones included; there is always at least one. -/
def pieces : List Char → List (List Char)
  | [] => [[]]
  | c :: cs =>
    if c = '/' then [] :: pieces cs
    else match pieces cs with
      | [] => [[c]]
      | piece :: rest => (c :: piece) :: rest

def components (path : String) : List (List Char) :=
  (pieces path.toList).filter fun piece => !(piece.isEmpty || piece = ['.'])

def fileName? (path : String) : Option (List Char) :=
  match (components path).getLast? with
  | some name => if name = ['.', '.'] then none else some name
  | none => none

/-- Splits a name at its last dot. -/
def splitExtension (name : List Char) : Option (List Char × List Char) :=
  let reversed := name.reverse
  match reversed.dropWhile (· ≠ '.') with
  | [] => none
  | _ :: stem => some (stem.reverse, (reversed.takeWhile (· ≠ '.')).reverse)

def extension? (path : String) : Option (List Char) :=
  match (fileName? path).bind splitExtension with
  | some ([], _) => none
  | some (_, extension) => some extension
  | none => none

end SpecCoverage.Files
