import SpecCoverage.Text.Bytes

/-!
# Lines

A text is cut after each line feed.  `lines` keeps the line feeds, so that the lines of a text join to
the text again, and `positionedLines` gives each line with its byte position.
-/

namespace SpecCoverage.Text

def lines : List Char → List (List Char)
  | [] => []
  | c :: cs =>
    if c = '\n' then [c] :: lines cs
    else match lines cs with
      | [] => [[c]]
      | line :: rest => (c :: line) :: rest

/-- The lines of a list, each with the byte position where it starts, the first one at `position`. -/
def withPositions (position : Nat) : List (List Char) → List (Nat × List Char)
  | [] => []
  | line :: rest => (position, line) :: withPositions (position + byteLength line) rest

def positionedLines (cs : List Char) : List (Nat × List Char) := withPositions 0 (lines cs)

theorem flatten_lines (cs : List Char) : (lines cs).flatten = cs := by
  induction cs with
  | nil => rfl
  | cons c cs ih =>
    unfold lines
    split
    · simp [ih]
    · split
      · next h => simp_all
      · next line rest h => rw [h] at ih; simpa using ih

end SpecCoverage.Text
