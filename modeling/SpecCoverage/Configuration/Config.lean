import SpecCoverage.Json.Reader
import SpecCoverage.Specifications.Matching

/-!
# Configurations

A configuration as a file states it: what it leaves out is taken from the defaults later.  Each of its
parts is an object, whose members must be known and must not repeat, or an array of the same values in
their order.
-/

namespace SpecCoverage.Configuration

open Json Specifications

structure WeightOverrides where
  callSignature : Option Nat := none
  boldBullet : Option Nat := none
  codeBlock : Option Nat := none
  sectionMention : Option Nat := none
deriving DecidableEq, Repr

structure PolicyOverrides where
  carryThreshold : Option Nat := none
  exact : Option Nat := none
  caseInsensitive : Option Nat := none
  fuzzy : Option Nat := none
deriving DecidableEq, Repr

structure Config where
  includes : List String := []
  excludes : List String := []
  documentationExtensions : List String := []
  evidence : Option WeightOverrides := none
  matching : Option PolicyOverrides := none
  parallel : Option Bool := none
deriving DecidableEq, Repr

/-! ## Reading -/

/-- Whether the names of the members are known and differ from each other. -/
def areFields (known : List String) : List (String × Value) → Bool
  | [] => true
  | (name, _) :: rest =>
    known.contains name && !(rest.any fun other => other.1 = name) && areFields known rest

def field? (name : String) (members : List (String × Value)) : Option Value :=
  (members.find? fun member => member.1 = name).map Prod.snd

/-- The values of the fields of the given names, from an object or from an array of at least `least`
values. -/
def fieldValues? (names : List String) (least : Nat) : Value → Option (List (Option Value))
  | .object members =>
    if areFields names members then some (names.map fun name => field? name members) else none
  | .array items =>
    if least ≤ items.length && items.length ≤ names.length then
      some (items.map some ++ List.replicate (names.length - items.length) none)
    else none
  | _ => none

/-- A number from 0 to 255. -/
def level? (value : Value) : Option Nat := value.natural?.filter fun n => n ≤ 255

def weightNames : List String := Evidence.all.map Evidence.name

def policyNames : List String := ["carry_threshold", "exact", "case_insensitive", "fuzzy"]

def configNames : List String :=
  ["include", "exclude", "documentation_extensions", "evidence", "matching", "parallel"]

def WeightOverrides.ofJson? (value : Value) : Option WeightOverrides := do
  match ← (← fieldValues? weightNames 4 value).mapM (Value.optional? level?) with
  | [callSignature, boldBullet, codeBlock, sectionMention] =>
    return { callSignature, boldBullet, codeBlock, sectionMention }
  | _ => none

def PolicyOverrides.ofJson? (value : Value) : Option PolicyOverrides := do
  match ← (← fieldValues? policyNames 4 value).mapM (Value.optional? level?) with
  | [carryThreshold, exact, caseInsensitive, fuzzy] =>
    return { carryThreshold, exact, caseInsensitive, fuzzy }
  | _ => none

/-- The strings of a field; a missing field has none. -/
def strings? : Option Value → Option (List String)
  | none => some []
  | some value => Value.arrayOf? Value.string? value

def Config.ofJson? (value : Value) : Option Config := do
  match ← fieldValues? configNames 0 value with
  | [includes, excludes, extensions, evidence, matching, parallel] =>
    return { includes := ← strings? includes
             excludes := ← strings? excludes
             documentationExtensions := ← strings? extensions
             evidence := ← Value.optional? WeightOverrides.ofJson? evidence
             matching := ← Value.optional? PolicyOverrides.ofJson? matching
             parallel := ← Value.optional? Value.bool? parallel }
  | _ => none

/-- The configuration that a text states. -/
def Config.read? (text : String) : Option Config := (Json.read? text).bind Config.ofJson?

/-! ## Writing -/

def orNull {α : Type} (write : α → Value) : Option α → Value
  | some a => write a
  | none => .null

def levels (names : List String) (values : List (Option Nat)) : Value :=
  .object (names.zip (values.map (orNull .natural)))

def WeightOverrides.toJson (w : WeightOverrides) : Value :=
  levels weightNames [w.callSignature, w.boldBullet, w.codeBlock, w.sectionMention]

def PolicyOverrides.toJson (p : PolicyOverrides) : Value :=
  levels policyNames [p.carryThreshold, p.exact, p.caseInsensitive, p.fuzzy]

def strings (items : List String) : Value := .array (items.map .string)

/-- A configuration with all its members, those that are not set as null. -/
def Config.toJson (c : Config) : Value :=
  .object
    [("include", strings c.includes), ("exclude", strings c.excludes),
     ("documentation_extensions", strings c.documentationExtensions),
     ("evidence", orNull WeightOverrides.toJson c.evidence),
     ("matching", orNull PolicyOverrides.toJson c.matching),
     ("parallel", orNull .bool c.parallel)]

end SpecCoverage.Configuration
