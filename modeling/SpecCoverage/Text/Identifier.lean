import SpecCoverage.Text.CharacterClass
import SpecCoverage.Text.Scan

/-!
# Identifiers

The names of script code as documents and comments spell them: an ASCII letter, `_` or `$`, and behind it
word characters of any script or `$`.
-/

namespace SpecCoverage.Text

def beginsIdentifier (c : Char) : Bool := c.isAlpha || c = '_' || c = '$'

def continuesIdentifier (c : Char) : Bool := isWordChar c || c = '$'

/-- The identifier at the start of a text. -/
def identifier : Pattern (List Char) := fun cs =>
  match cs with
  | c :: _ => if beginsIdentifier c then run? continuesIdentifier cs else none
  | [] => none

end SpecCoverage.Text
