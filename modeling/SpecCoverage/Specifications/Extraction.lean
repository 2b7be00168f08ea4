import SpecCoverage.Documents.Fence
import SpecCoverage.Sorting
import SpecCoverage.Specifications.Specification
import SpecCoverage.Text.Identifier

/-!
# Extraction of specifications

Four rules find the specifications of a document, each by a mark of its own: a bold call signature, a
list item that begins with a bold name, a definition in a block of script code, and an item under a
heading of requirements or features that mentions a call.  The result stands in the order of the
document, and where two marks begin at the same place in the order of the rules.
-/

namespace SpecCoverage.Specifications

open Documents Sorting Text

/-- A specification and the byte position of its mark. -/
structure Found where
  position : Nat
  specification : Specification
deriving DecidableEq, Repr

/-- The characters of the names that documents mention. -/
def isNameChar (c : Char) : Bool := c.isAlphanum || c = '_' || c = '$'

structure Signature where
  name : List Char
  parameters : List Char
deriving DecidableEq, Repr

/-! ## Marks with a description -/

/-- Matches with the blocks of text that follow them.  A match within the block of an earlier one is
part of that one's description. -/
def describedMatches {α : Type} (text : List Char) : Nat → List (Match α) → List (Match α × Block)
  | _, [] => []
  | consumed, m :: rest =>
    if m.start < consumed then describedMatches text consumed rest
    else
      let block := blockAt text m.stop
      (m, block) :: describedMatches text block.stop rest

/-- `**name(parameters)**`, possibly with a colon. -/
def callSignature : Pattern Signature := fun cs => do
  let rest ← behind? "**".toList cs
  let (name, rest) ← run? isNameChar rest
  let rest ← behind? ['('] rest
  let inner := fun c => c ≠ ')' && c ≠ '\n'
  let parameters := rest.takeWhile inner
  let rest ← behind? ")**".toList (rest.dropWhile inner)
  return (⟨name, parameters⟩, optionally [':'] rest)

def describedSignature (s : Signature) (words : List Char) : List Char :=
  trimEnd (s.name ++ '(' :: s.parameters ++ "): ".toList ++ words)

def callSignatures (text : List Char) (weights : Weights) : List Found :=
  (describedMatches text 0 (allMatches callSignature text)).map fun (m, block) =>
    ⟨m.start, .ofEvidence (String.ofList (describedSignature m.value block.words))
      (String.ofList m.value.name) .callSignature weights⟩

private def isIndent (c : Char) : Bool := c = ' ' || c = '\t'

/-- `- **name**` at the start of a line, possibly with a colon. -/
def boldBullet : Pattern (List Char) := fun cs => do
  let rest ← behind? ['-'] (cs.dropWhile isIndent)
  let rest ← behind? "**".toList (rest.dropWhile isIndent)
  let (name, rest) ← run? isNameChar rest
  let rest ← behind? "**".toList rest
  return (name, optionally [':'] rest)

/-- The bold bullets of a document, one for each line at most. -/
def boldBulletMatches (text : List Char) : List (Match (List Char)) :=
  (positionedLines text).filterMap fun (position, line) =>
    (boldBullet line).map fun (name, rest) =>
      ⟨position, position + (byteLength line - byteLength rest), name⟩

def describedName (name words : List Char) : List Char :=
  trimEnd (name ++ ": ".toList ++ words)

def boldBullets (text : List Char) (weights : Weights) : List Found :=
  (describedMatches text 0 (boldBulletMatches text)).map fun (m, block) =>
    ⟨m.start, .ofEvidence (String.ofList (describedName m.value block.words))
      (String.ofList m.value) .boldBullet weights⟩

/-! ## Definitions in script code -/

/-- Words that stand before parentheses without being a name that is defined. -/
def controlWords : List String :=
  ["if", "for", "while", "switch", "catch", "with", "return", "function"]

def definedSignature : Pattern Signature := fun cs => do
  let (name, rest) ← identifier cs
  let rest ← behind? ['('] (trimStart rest)
  let parameters := rest.takeWhile (· ≠ ')')
  let rest ← behind? [')'] (rest.dropWhile (· ≠ ')'))
  let between := fun c => c ≠ '\x7b' && c ≠ '\x7d' && c ≠ ';'
  let rest ← behind? ['\x7b'] (rest.dropWhile between)
  return (⟨name, parameters⟩, rest)

/-- `name(parameters) {`, possibly behind `function`. -/
def codeDefinition : Pattern Signature := fun cs =>
  (((behind? "function".toList cs).bind behindBlanks?).bind definedSignature).or
    (definedSignature cs)

def codeDescription (s : Signature) : List Char :=
  s.name ++ '(' :: joined [' '] (words s.parameters) ++ "): Extracted from code block".toList

def isControlWord (name : List Char) : Bool :=
  controlWords.any fun word => word.toList = name

def definitionsIn (weights : Weights) (block : ScriptBlock) : List Found :=
  ((allMatches codeDefinition block.body).filter fun m => !isControlWord m.value.name).map fun m =>
    ⟨block.start + m.start, .ofEvidence (String.ofList (codeDescription m.value))
      (String.ofList m.value.name) .codeBlock weights⟩

def codeBlocks (text : List Char) (weights : Weights) : List Found :=
  (scriptBlocks text).flatMap (definitionsIn weights)

/-! ## Mentions in sections -/

/-- `name(...)`. -/
def mention : Pattern (List Char) := fun cs => do
  let (name, rest) ← run? isNameChar cs
  let rest ← behind? ['('] rest
  let rest ← behind? [')'] (rest.dropWhile (· ≠ ')'))
  return (name, rest)

/-- Whether a heading opens a section of requirements or features. -/
def opensSection (heading : List Char) : Bool :=
  let title := trimStart (heading.dropWhile (· = '#'))
  "Requirements".toList.isPrefixOf title || "Features".toList.isPrefixOf title

def isHeading (trimmed : List Char) : Bool := "##".toList.isPrefixOf trimmed

/-- The specification that a list item makes by mentioning a call. -/
def itemMention? (weights : Weights) (trimmed : List Char) : Option Specification :=
  match trimmed with
  | c :: cs =>
    if c = '-' || c = '*' then
      (firstMatch? mention trimmed).map fun name =>
        .ofEvidence (String.ofList (trimStart cs)) (String.ofList name) .sectionMention weights
    else none
  | [] => none

/-- The mentions in the lines that follow; the flag says whether they stand in a section that counts. -/
def sectionMentionsFrom (weights : Weights) : Bool → List (Nat × List Char) → List Found
  | _, [] => []
  | inSection, (position, line) :: rest =>
    let trimmed := trim line
    if isHeading trimmed then sectionMentionsFrom weights (opensSection trimmed) rest
    else
      let here := if inSection then (itemMention? weights trimmed).map (Found.mk position) else none
      here.toList ++ sectionMentionsFrom weights inSection rest

def sectionMentions (text : List Char) (weights : Weights) : List Found :=
  sectionMentionsFrom weights false (positionedLines text)

/-! ## All rules -/

/-- What the rules find, rule by rule. -/
def foundByRules (text : List Char) (weights : Weights) : List Found :=
  callSignatures text weights ++ boldBullets text weights ++ codeBlocks text weights
    ++ sectionMentions text weights

/-- The specifications of a document. -/
def extract (text : String) (weights : Weights) : List Specification :=
  (sorted (fun a b => a.position ≤ b.position) (foundByRules text.toList weights)).map
    Found.specification

end SpecCoverage.Specifications
