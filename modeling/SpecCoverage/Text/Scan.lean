import SpecCoverage.Text.Blank
import SpecCoverage.Text.Bytes

/-!
# Scanning a text for patterns

A pattern is a function that looks at the start of a text: it gives an answer and the text behind what
it has matched, or nothing.  `allMatches` runs a pattern along a whole text.
-/

namespace SpecCoverage.Text

abbrev Pattern (α : Type) := List Char → Option (α × List Char)

/-- The text behind a piece that it starts with. -/
def behind? : List Char → List Char → Option (List Char)
  | [], cs => some cs
  | _ :: _, [] => none
  | p :: ps, c :: cs => if p = c then behind? ps cs else none

/-- The text behind one blank or more. -/
def behindBlanks? : List Char → Option (List Char)
  | c :: cs => if isBlank c then some (trimStart cs) else none
  | [] => none

/-- The longest start of a text whose characters are of a kind, if it is not empty. -/
def run? (p : Char → Bool) (cs : List Char) : Option (List Char × List Char) :=
  match cs.takeWhile p with
  | [] => none
  | found => some (found, cs.dropWhile p)

/-- The text behind a piece, if it starts with it, and else the whole text. -/
def optionally (piece cs : List Char) : List Char := (behind? piece cs).getD cs

/-- Whether a piece occurs anywhere in a text. -/
def occursIn (piece : List Char) : List Char → Bool
  | [] => piece.isEmpty
  | c :: cs => piece.isPrefixOf (c :: cs) || occursIn piece cs

/-- What a pattern has found, between two byte positions. -/
structure Match (α : Type) where
  start : Nat
  stop : Nat
  value : α

/-- The matches from a position on, where the next `skip` characters belong to an earlier match. -/
def matchesFrom {α : Type} (pattern : Pattern α) : Nat → Nat → List Char → List (Match α)
  | _, _, [] => []
  | skip + 1, position, c :: cs => matchesFrom pattern skip (position + c.utf8Size) cs
  | 0, position, c :: cs =>
    match pattern (c :: cs) with
    | none => matchesFrom pattern 0 (position + c.utf8Size) cs
    | some (value, rest) =>
      let found := (c :: cs).take (cs.length + 1 - rest.length)
      ⟨position, position + byteLength found, value⟩
        :: matchesFrom pattern (cs.length - rest.length) (position + c.utf8Size) cs

/-- The matches of a pattern along a text: the leftmost first, and none that overlaps an earlier one. -/
def allMatches {α : Type} (pattern : Pattern α) (cs : List Char) : List (Match α) :=
  matchesFrom pattern 0 0 cs

/-- The first match of a pattern. -/
def firstMatch? {α : Type} (pattern : Pattern α) : List Char → Option α
  | [] => none
  | c :: cs =>
    match pattern (c :: cs) with
    | some (value, _) => some value
    | none => firstMatch? pattern cs

end SpecCoverage.Text
