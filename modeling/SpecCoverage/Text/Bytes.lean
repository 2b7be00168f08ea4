/-!
# Byte positions

Positions in a text count the bytes of its UTF-8 form.  A position is a boundary of the text when some
characters from its start take exactly that many bytes; `dropBytes?` and `takeBytes?` cut at a position
and give nothing when it is no boundary.  `slice?` is the text between two positions.
-/

namespace SpecCoverage.Text

def byteLength : List Char → Nat
  | [] => 0
  | c :: cs => c.utf8Size + byteLength cs

def dropBytes? : Nat → List Char → Option (List Char)
  | 0, cs => some cs
  | _ + 1, [] => none
  | n + 1, c :: cs => if c.utf8Size ≤ n + 1 then dropBytes? (n + 1 - c.utf8Size) cs else none

def takeBytes? : Nat → List Char → Option (List Char)
  | 0, _ => some []
  | _ + 1, [] => none
  | n + 1, c :: cs =>
    if c.utf8Size ≤ n + 1 then (takeBytes? (n + 1 - c.utf8Size) cs).map (c :: ·) else none

/-- The text from `start` up to `stop`, if the two stand in order on boundaries. -/
def slice? (cs : List Char) (start stop : Nat) : Option (List Char) :=
  if start ≤ stop then (dropBytes? start cs).bind (takeBytes? (stop - start)) else none

end SpecCoverage.Text
