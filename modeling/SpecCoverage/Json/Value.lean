/-!
# JSON values

A number is a natural number if its text consists of digits only; any other number keeps its text.  An
object keeps all its members in their order, also those that share a name.
-/

namespace SpecCoverage.Json

inductive Value where
  | null
  | bool (b : Bool)
  | natural (n : Nat)
  | decimal (text : String)
  | string (s : String)
  | array (items : List Value)
  | object (members : List (String × Value))
deriving Inhabited, Repr

namespace Value

/-- The last of the members that share a name. -/
def lastNamed? (name : String) (members : List (String × Value)) : Option Value :=
  (members.reverse.find? fun member => member.1 = name).map Prod.snd

/-- The value of a member of an object, the last one of that name. -/
def member? (name : String) : Value → Option Value
  | object members => lastNamed? name members
  | _ => none

def string? : Value → Option String
  | string s => some s
  | _ => none

def bool? : Value → Option Bool
  | bool b => some b
  | _ => none

def natural? : Value → Option Nat
  | natural n => some n
  | _ => none

/-- A natural number below a bound. -/
def below? (bound : Nat) (value : Value) : Option Nat := value.natural?.filter fun n => n < bound

/-- The items of an array, each read by a function that may refuse it. -/
def arrayOf? {α : Type} (read : Value → Option α) : Value → Option (List α)
  | array items => items.mapM read
  | _ => none

/-- What a member that may be missing or null holds, read by a function that may refuse it. -/
def optional? {α : Type} (read : Value → Option α) : Option Value → Option (Option α)
  | none => some none
  | some null => some none
  | some value => (read value).map some

/-- An object of the fields that have a value. -/
def record (fields : List (String × Option Value)) : Value :=
  object (fields.filterMap fun field => field.2.map fun value => (field.1, value))

/-- The values of the fields of the given names.  An object may have other members as well, but no field
twice; an array holds the fields in their order and may end before the last ones. -/
def fields? (names : List String) : Value → Option (List (Option Value))
  | object members =>
    if names.all fun name => members.countP (fun member => member.1 = name) ≤ 1 then
      some (names.map fun name => lastNamed? name members)
    else none
  | array items =>
    if items.length ≤ names.length then
      some (items.map some ++ List.replicate (names.length - items.length) none)
    else none
  | _ => none

end Value

/-- The members after which no other has the same name. -/
def lastOfEach : List (String × Value) → List (String × Value)
  | [] => []
  | member :: rest =>
    if rest.any fun other => other.1 = member.1 then lastOfEach rest
    else member :: lastOfEach rest

mutual

/-- A value in which, of the members of an object that share a name, only the last one is left. -/
def collapsed : Value → Value
  | .array items => .array (collapsedItems items)
  | .object members => .object (lastOfEach (collapsedMembers members))
  | value => value

def collapsedItems : List Value → List Value
  | [] => []
  | item :: items => collapsed item :: collapsedItems items

def collapsedMembers : List (String × Value) → List (String × Value)
  | [] => []
  | (name, value) :: members => (name, collapsed value) :: collapsedMembers members

end

end SpecCoverage.Json
