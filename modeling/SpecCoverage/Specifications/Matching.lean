import SpecCoverage.Specifications.Extraction
import SpecCoverage.Text.Lowercase

/-!
# Matching specifications with functions

A specification that names a function firmly keeps it.  Any other is matched by the name at the start of
its description: with the function of that name, else with the first function whose name differs in
case only, else with the one function whose name contains it or is contained in it.  `resolve` says
which of these applies, and `matchOne` carries it out.
-/

namespace SpecCoverage.Specifications

open Text

/-- The confidence of each kind of match, and the confidence above which a mapping is kept. -/
structure Policy where
  carryThreshold : Nat := 80
  exact : Nat := 95
  caseInsensitive : Nat := 90
  fuzzy : Nat := 75
deriving DecidableEq, Repr

/-- What can be wrong with a policy. -/
inductive PolicyError where
  | above (field : String) (value : Nat)
  | exactBelowCaseInsensitive (exact caseInsensitive : Nat)
  | caseInsensitiveBelowFuzzy (caseInsensitive fuzzy : Nat)
  | caseInsensitiveNotAboveCarry (caseInsensitive carryThreshold : Nat)
deriving DecidableEq, Repr

def PolicyError.message : PolicyError → String
  | above field value =>
    "matching." ++ field ++ " must be at most " ++ Nat.repr maxConfidence ++ " (got " ++ Nat.repr value
      ++ ")"
  | exactBelowCaseInsensitive exact caseInsensitive =>
    "matching.exact (" ++ Nat.repr exact ++ ") must be at least matching.case_insensitive ("
      ++ Nat.repr caseInsensitive ++ ")"
  | caseInsensitiveBelowFuzzy caseInsensitive fuzzy =>
    "matching.case_insensitive (" ++ Nat.repr caseInsensitive
      ++ ") must be at least matching.fuzzy (" ++ Nat.repr fuzzy ++ ")"
  | caseInsensitiveNotAboveCarry caseInsensitive carryThreshold =>
    "matching.case_insensitive (" ++ Nat.repr caseInsensitive
      ++ ") must be greater than matching.carry_threshold (" ++ Nat.repr carryThreshold ++ ")"

namespace Policy

/-- The values of a policy under the names that a configuration gives them. -/
def fields (p : Policy) : List (String × Nat) :=
  [("carry_threshold", p.carryThreshold), ("exact", p.exact),
   ("case_insensitive", p.caseInsensitive), ("fuzzy", p.fuzzy)]

/-- The first thing that is wrong with a policy, if anything is. -/
def error? (p : Policy) : Option PolicyError :=
  match p.fields.find? fun (_, value) => maxConfidence < value with
  | some (field, value) => some (.above field value)
  | none =>
    if p.exact < p.caseInsensitive then
      some (.exactBelowCaseInsensitive p.exact p.caseInsensitive)
    else if p.caseInsensitive < p.fuzzy then
      some (.caseInsensitiveBelowFuzzy p.caseInsensitive p.fuzzy)
    else if p.caseInsensitive ≤ p.carryThreshold then
      some (.caseInsensitiveNotAboveCarry p.caseInsensitive p.carryThreshold)
    else none

end Policy

/-! ## The steps of the cascade -/

/-- Whether a specification keeps the function that it is mapped to. -/
def carriesOver (names : List String) (policy : Policy) (s : Specification) : Bool :=
  match s.function, s.confidence with
  | some name, some confidence => policy.carryThreshold < confidence && names.contains name
  | _, _ => false

/-- The name at the start of a description, in front of a parenthesis or a colon. -/
def candidate? (description : String) : Option String :=
  match run? isNameChar description.toList with
  | some (name, '(' :: _) => some (String.ofList name)
  | some (name, ':' :: _) => some (String.ofList name)
  | _ => none

/-- Whether one of two names contains the other. -/
def areRelated (a b : String) : Bool := occursIn a.toList b.toList || occursIn b.toList a.toList

/-- The only element of a list up to repetition. -/
def onlyOne? : List String → Option String
  | [] => none
  | name :: rest => if rest.all (· = name) then some name else none

/-- How the function of a specification is found. -/
inductive Resolution where
  | carried
  | exact (name : String)
  | caseInsensitive (name : String)
  | fuzzy (name : String)
  | none
deriving DecidableEq, Repr

def resolveCandidate (names : List String) (candidate : String) : Resolution :=
  if names.contains candidate then .exact candidate
  else match names.find? fun name => lowercase name = lowercase candidate with
    | some name => .caseInsensitive name
    | none =>
      match onlyOne? (names.filter fun name => areRelated name candidate) with
      | some name => .fuzzy name
      | none => .none

def resolve (names : List String) (policy : Policy) (s : Specification) : Resolution :=
  if carriesOver names policy s then .carried
  else match candidate? s.description with
    | some candidate => resolveCandidate names candidate
    | none => .none

/-- A specification after a resolution. -/
def Resolution.apply (policy : Policy) (s : Specification) : Resolution → Specification
  | carried => s
  | exact name => s.mappedTo name policy.exact
  | caseInsensitive name => s.mappedTo name policy.caseInsensitive
  | fuzzy name => s.mappedTo name policy.fuzzy
  | none => s.unmapped

def matchOne (names : List String) (policy : Policy) (s : Specification) : Specification :=
  (resolve names policy s).apply policy s

/-- Matches every specification with the functions of the given names. -/
def matchAll (specifications : List Specification) (names : List String) (policy : Policy) :
    List Specification :=
  specifications.map (matchOne names policy)

end SpecCoverage.Specifications
