import SpecCoverage.Documents.Block

/-!
# Fenced blocks

A line of three backquotes begins a fenced block and the next such line ends it.  Behind the backquotes
that begin a block stands the language of its text.  `scriptBlocks` gives the blocks that may hold
script code.
-/

namespace SpecCoverage.Documents

open Text

/-- What stands behind the backquotes of a fence line.  A line with a second fence in it is none. -/
def fenceInfo? (line : List Char) : Option (List Char) :=
  (behind? fence (trim line)).filter fun info => !occursIn fence info

def scriptLanguages : List String := ["js", "javascript", "ts", "typescript", "jsx", "tsx"]

private def asciiLower (cs : List Char) : List Char := cs.map Char.toLower

/-- A block holds script code if it names a script language, in letters of either case, or none. -/
def isScriptInfo (info : List Char) : Bool :=
  match words info with
  | [] => true
  | language :: _ => scriptLanguages.any fun known => asciiLower known.toList = asciiLower language

/-- A fenced block whose end is still to come: its lines so far, the last one first. -/
structure OpenFence where
  isScript : Bool
  start : Nat
  lines : List (List Char)

/-- The text between two fence lines, and its byte position. -/
structure ScriptBlock where
  start : Nat
  body : List Char
deriving DecidableEq, Repr

def OpenFence.close (f : OpenFence) : List ScriptBlock :=
  if f.isScript then [⟨f.start, f.lines.reverse.flatten⟩] else []

/-- The script blocks of the lines that follow, where a block may be open already. -/
def scriptBlocksFrom : Option OpenFence → List (Nat × List Char) → List ScriptBlock
  | _, [] => []
  | none, (position, line) :: rest =>
    match fenceInfo? line with
    | none => scriptBlocksFrom none rest
    | some info =>
      scriptBlocksFrom (some ⟨isScriptInfo info, position + byteLength line, []⟩) rest
  | some f, (_, line) :: rest =>
    match fenceInfo? line with
    | none => scriptBlocksFrom (some { f with lines := line :: f.lines }) rest
    | some _ => f.close ++ scriptBlocksFrom none rest

def scriptBlocks (text : List Char) : List ScriptBlock :=
  scriptBlocksFrom none (positionedLines text)

end SpecCoverage.Documents
