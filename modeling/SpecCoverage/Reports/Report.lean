import SpecCoverage.Functions.Discovery
import SpecCoverage.Specifications.Specification

/-!
# Reports

What an analysis tells: the functions, the specifications with the functions that they are mapped to, how
many functions have a specification, and the files that could not be read as programs.
-/

namespace SpecCoverage.Reports

open Functions Specifications

/-- A function as a report lists it. -/
structure FunctionEntry where
  name : String
  parameters : List Parameter
  result : Option String
  fileName : String
  code : String
  complexity : Nat
  line : Nat
  hasSpecification : Bool
deriving DecidableEq, Repr

/-- The entry of a function that no specification is known for. -/
def FunctionEntry.ofFunction (f : Function) : FunctionEntry :=
  { name := f.name
    parameters := f.parameters
    result := f.result
    fileName := f.fileName
    code := f.code
    complexity := f.complexity
    line := f.span.line
    hasSpecification := false }

structure Coverage where
  matched : Nat
  total : Nat
deriving DecidableEq, Repr

namespace Coverage

def ofEntries (entries : List FunctionEntry) : Coverage :=
  ⟨(entries.filter FunctionEntry.hasSpecification).length, entries.length⟩

theorem matched_ofEntries (entries : List FunctionEntry) :
    (ofEntries entries).matched = entries.countP FunctionEntry.hasSpecification :=
  List.countP_eq_length_filter.symm

/-- The part of the functions with a specification, in percent; none of none is zero. -/
def percent (c : Coverage) : Float :=
  if c.total = 0 then 0 else Float.ofNat c.matched * 100 / Float.ofNat c.total

end Coverage

structure Report where
  functions : List FunctionEntry
  specifications : List Specification
  coverage : Coverage
  skippedFiles : List String
deriving DecidableEq, Repr

end SpecCoverage.Reports
