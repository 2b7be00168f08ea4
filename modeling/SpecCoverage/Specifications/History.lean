import SpecCoverage.Specifications.Matching

/-!
# Histories of specifications

A list of specifications grows and is matched again and again while the program and its documents
change.  A step changes the list or the names of the functions; a run gives the list after every step.
-/

namespace SpecCoverage.Specifications

inductive Step where
  | extract (text : String) (weights : Weights)
  | state (description : String)
  | record (description function : String) (evidence : Evidence) (weights : Weights)
  | assign (index : Nat) (function : String) (confidence : Nat)
  | release (index : Nat)
  | rename (names : List String)
  | rematch (policy : Policy)
deriving DecidableEq, Repr

/-- The specifications, and the names of the functions that there are. -/
structure Record where
  specifications : List Specification := []
  names : List String := []
deriving DecidableEq, Repr

namespace Record

def next (r : Record) : Step → Record
  | .extract text weights =>
    { r with specifications := r.specifications ++ Specifications.extract text weights }
  | .state description => { r with specifications := r.specifications ++ [{ description }] }
  | .record description function evidence weights =>
    { r with specifications := r.specifications ++ [.ofEvidence description function evidence weights] }
  | .assign index function confidence =>
    { r with specifications := r.specifications.modify index fun s => s.mappedTo function confidence }
  | .release index =>
    { r with specifications := r.specifications.modify index Specification.unmapped }
  | .rename names => { r with names }
  | .rematch policy => { r with specifications := matchAll r.specifications r.names policy }

/-- The records after each of some steps. -/
def run (r : Record) : List Step → List Record
  | [] => []
  | step :: steps => r.next step :: run (r.next step) steps

end Record

end SpecCoverage.Specifications
