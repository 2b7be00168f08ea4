import SpecCoverage.Text.Bytes

/-!
# Places in a source text

A line ends at a line feed, at a carriage return, or at the two together.  Lines are counted from one,
columns from zero.
-/

namespace SpecCoverage.Source

open Text

/-- The line ends that are complete within the first `position` bytes. -/
def lineEnds : List Char → Nat → Nat
  | '\r' :: '\n' :: cs, n => if 2 ≤ n then 1 + lineEnds cs (n - 2) else 0
  | c :: cs, n =>
    if c.utf8Size ≤ n then
      (if c = '\n' || c = '\r' then 1 else 0) + lineEnds cs (n - c.utf8Size)
    else 0
  | [], _ => 0

/-- The line in which a byte position stands. -/
def lineAt (text : List Char) (position : Nat) : Nat := 1 + lineEnds text position

/-- The UTF-16 code units of a character. -/
def units (c : Char) : Nat := if c.toNat < 0x10000 then 1 else 2

private def columnFrom (column : Nat) : List Char → Nat → Nat
  | [], _ => column
  | c :: cs, n =>
    if c.utf8Size ≤ n then
      columnFrom (if c = '\n' || c = '\r' then 0 else column + units c) cs (n - c.utf8Size)
    else column

/-- The UTF-16 code units between the start of its line and a byte position. -/
def columnAt (text : List Char) (position : Nat) : Nat := columnFrom 0 text position

/-- A part of a source text, in bytes, with the lines where it begins and ends. -/
structure Span where
  start : Nat
  stop : Nat
  line : Nat
  stopLine : Nat
deriving DecidableEq, Repr

namespace Span

def ofExtent (text : List Char) (start stop : Nat) : Span :=
  ⟨start, stop, lineAt text start, lineAt text stop⟩

end Span

/-- The text without the byte order mark that it may begin with. -/
def withoutMark : List Char → List Char
  | '\ufeff' :: cs => cs
  | cs => cs

/-- Why and where a source file is not a program.  The line is zero if it is not known. -/
structure SyntaxError where
  fileName : String
  message : String
  line : Nat := 0
  column : Nat := 0
deriving DecidableEq, Repr

def SyntaxError.describe (e : SyntaxError) : String :=
  "parse error in " ++ e.fileName ++ ":" ++ Nat.repr e.line ++ ":" ++ Nat.repr e.column ++ ": "
    ++ e.message

end SpecCoverage.Source
