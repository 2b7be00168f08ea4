import SpecCoverage.Text.Line
import SpecCoverage.Text.Scan

/-!
# Blocks of text

A block runs from some place in a document up to the first later line that begins something else: a
blank line, a fence, a list item, a heading or a numbered item.
-/

namespace SpecCoverage.Documents

open Text

/-- The mark of a fence. -/
def fence : List Char := "```".toList

def isBlockBoundary (line : List Char) : Bool :=
  match trimStart line with
  | [] => true
  | c :: cs =>
    fence.isPrefixOf (c :: cs) || c = '-' || c = '*' || c = '#' || c.isDigit

/-- The lines of the block at the start of a text; the first line always belongs to it. -/
def blockLines (text : List Char) : List (List Char) :=
  match lines text with
  | [] => []
  | first :: rest => first :: rest.takeWhile fun line => !isBlockBoundary line

/-- The lines of a text, trimmed, without the blank ones, in a row. -/
def flowed (lines : List (List Char)) : List Char :=
  joined [' '] ((lines.map trim).filter fun line => !line.isEmpty)

/-- The words of a block, and the byte position where it ends. -/
structure Block where
  words : List Char
  stop : Nat
deriving DecidableEq, Repr

/-- The block that starts at a byte position. -/
def blockAt (text : List Char) (start : Nat) : Block :=
  let taken := blockLines ((dropBytes? start text).getD [])
  ⟨flowed taken, start + byteLength taken.flatten⟩

end SpecCoverage.Documents
