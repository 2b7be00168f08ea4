/-!
# Specifications

A specification is a statement of a document about the program.  It may be mapped to a function, with a
confidence in percent, and it keeps what kind of mark it was read from.
-/

namespace SpecCoverage.Specifications

/-- The marks that show a specification in a document. -/
inductive Evidence where
  | callSignature
  | boldBullet
  | codeBlock
  | sectionMention
deriving DecidableEq, Repr

namespace Evidence

def all : List Evidence := [callSignature, boldBullet, codeBlock, sectionMention]

def name : Evidence → String
  | callSignature => "call_signature"
  | boldBullet => "bold_bullet"
  | codeBlock => "code_block"
  | sectionMention => "section_mention"

def ofName? (name : String) : Option Evidence := all.find? fun e => e.name = name

theorem ofName?_name (e : Evidence) : ofName? e.name = some e := by
  cases e <;> decide +kernel

end Evidence

/-- No confidence is higher. -/
def maxConfidence : Nat := 100

/-- The confidence that each kind of evidence gives. -/
structure Weights where
  callSignature : Nat := 90
  boldBullet : Nat := 85
  codeBlock : Nat := 80
  sectionMention : Nat := 70
deriving DecidableEq, Repr

def Weights.weight (w : Weights) : Evidence → Nat
  | .callSignature => w.callSignature
  | .boldBullet => w.boldBullet
  | .codeBlock => w.codeBlock
  | .sectionMention => w.sectionMention

structure Specification where
  description : String
  function : Option String := none
  confidence : Option Nat := none
  evidence : Option Evidence := none
deriving DecidableEq, Repr

namespace Specification

def ofEvidence (description function : String) (evidence : Evidence) (weights : Weights) :
    Specification :=
  { description
    function := some function
    confidence := some (min (weights.weight evidence) maxConfidence)
    evidence := some evidence }

/-- The specification mapped to a function. -/
def mappedTo (s : Specification) (function : String) (confidence : Nat) : Specification :=
  { s with function := some function, confidence := some (min confidence maxConfidence) }

def unmapped (s : Specification) : Specification :=
  { s with function := none, confidence := none }

end Specification

end SpecCoverage.Specifications
