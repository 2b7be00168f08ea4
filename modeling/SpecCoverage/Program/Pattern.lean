import SpecCoverage.Program.Grammar

/-!
# Patterns

The targets of declarations, parameters and assignments.  A declared pattern is read as one; the target
of an assignment and the parameters of an arrow are first read as an expression, and `toTarget` and
`toParameter` turn that expression into the pattern that it spells.  A member `name = value` of an
object has a meaning in such a pattern only: `shorthandDefault` does not outlive the reading.
-/

namespace SpecCoverage.Program

/-! ## Keys of properties -/

/-- The key of a member.  Its name is known when it is an identifier or a string. -/
structure PropertyKey where
  tree : Tree
  name : Option String
  isIdentifier : Bool
  start : Nat

/-- A number or a string that strict code may not contain. -/
def refuseLegacy (cx : Context) (legacy : Bool) : Parse Unit := refuseIf (legacy && cx.strict)

def propertyKey (g : Grammar) (cx : Context) : Parse PropertyKey := do
  let start ← here
  match ← kind with
  | .name name _ =>
    advance
    return ⟨← finish start .key [], some name, true, start⟩
  | .string value legacy =>
    refuseLegacy cx legacy
    advance
    return ⟨← finish start .key [], some value, false, start⟩
  | .number legacy =>
    refuseLegacy cx legacy
    advance
    return ⟨← finish start .key [], none, false, start⟩
  | .bigint =>
    advance
    return ⟨← finish start .key [], none, false, start⟩
  | _ =>
    expectSymbol "["
    let expression ← g.assignment cx.bracketed
    expectSymbol "]"
    return ⟨← finish start .key [expression], none, false, start⟩

/-! ## Declared patterns -/

/-- The default value behind a pattern, if there is one. -/
def withDefault (g : Grammar) (cx : Context) (start : Nat) (pattern : Tree) : Parse Tree := do
  if ← eatSymbol "=" then
    let value ← g.assignment cx.bracketed
    finish start .assignmentPattern [pattern, value]
  else return pattern

def boundVariable (cx : Context) : Parse Tree := do
  let start ← here
  let name ← boundName cx
  finish start (.binding name) []

def arrayElement (g : Grammar) (cx : Context) : Parse Tree := do
  let start ← here
  if ← atSymbol "," then return .node .hole ⟨start, start⟩ []
  if ← eatSymbol "..." then
    let target ← g.binding cx
    refuseIf (!(← atSymbol "]"))
    finish start .restPattern [target]
  else
    let target ← g.binding cx
    withDefault g cx start target

def objectElement (g : Grammar) (cx : Context) : Parse Tree := do
  let start ← here
  if ← eatSymbol "..." then
    let target ← boundVariable cx
    refuseIf (!(← atSymbol "\x7d"))
    finish start .restPattern [target]
  else
    let named ← current
    let key ← propertyKey g cx
    if ← eatSymbol ":" then
      let valueStart ← here
      let target ← g.binding cx
      let value ← withDefault g cx valueStart target
      finish start .keyValue [key.tree, value]
    else match key.name, key.isIdentifier with
      | some name, true =>
        refuseAtIf named.startOffset (!isVariableName cx name
          || (cx.strict && (name == "eval" || name == "arguments")))
        withDefault g cx start (.node (.binding name) key.tree.extent [])
      | _, _ => refuse

/-- A variable or a pattern of variables. -/
def bindingTarget (g : Grammar) (cx : Context) : Parse Tree := do
  let start ← here
  if ← eatSymbol "[" then
    let (elements, _) ← listedUntil "]" (arrayElement g cx)
    finish start .arrayPattern elements
  else if ← eatSymbol "\x7b" then
    let (elements, _) ← listedUntil "\x7d" (objectElement g cx)
    finish start .objectPattern elements
  else boundVariable cx

/-- Adds an ascription to a pattern. -/
def ascribed (pattern ascription : Tree) : Tree :=
  match pattern with
  | .node k e cs => .node k ⟨e.start, ascription.stop⟩ (cs ++ [ascription])

/-- `: type` behind a pattern, if types may be written. -/
def ascription? (g : Grammar) (cx : Context) : Parse (Option Tree) := do
  if ← eatSymbolIf cx.typescript ":" then
    let type ← g.type { cx.bracketed with noConditionalType := false }
    return some (.node .ascription type.extent [type])
  else return none

def withAscription (g : Grammar) (cx : Context) (pattern : Tree) : Parse Tree := do
  match ← ascription? g cx with
  | some ascription => return ascribed pattern ascription
  | none => return pattern

/-! ## Patterns that were read as expressions -/

/-- Where a pattern stands that was read as an expression. -/
inductive TargetUse where
  | assigned
  | parameter
deriving DecidableEq

def refusedName (strict : Bool) (name : String) : Bool :=
  strict && (name == "eval" || name == "arguments")

/-- What may be assigned to besides a pattern, with or without parentheses. -/
def isSimpleTarget (strict : Bool) : Tree → Bool
  | .node (.identifier name) _ _ => !refusedName strict name
  | .node .member _ _ => true
  | .node .parenthesized _ [inner] => isSimpleTarget strict inner
  | .node .typed _ (inner :: _) => isSimpleTarget strict inner
  | _ => false

mutual

/-- Whether a pattern consists of variables only. -/
def isDeclarable : Tree → Bool
  | .node (.binding _) _ _ => true
  | .node .hole _ _ => true
  | .node .arrayPattern _ cs => areDeclarable cs
  | .node .objectPattern _ cs => areDeclarable cs
  | .node .restPattern _ (target :: _) => isDeclarable target
  | .node .assignmentPattern _ (target :: _) => isDeclarable target
  | .node .keyValue _ [_, target] => isDeclarable target
  | .node .ascription _ _ => true
  | _ => false

def areDeclarable : List Tree → Bool
  | [] => true
  | t :: rest => isDeclarable t && areDeclarable rest

end

def refusal (t : Tree) : Except Failure Tree := .error ⟨t.start⟩

mutual

/-- The pattern that an expression spells. -/
def toPattern (strict : Bool) (use : TargetUse) : Tree → Except Failure Tree
  | .node (.identifier name) e cs =>
    if refusedName strict name then .error ⟨e.start⟩ else .ok (.node (.binding name) e cs)
  | .node .array e cs => do .ok (.node .arrayPattern e (← toElements strict use cs))
  | .node .object e cs => do .ok (.node .objectPattern e (← toProperties strict use cs))
  | .node (.binding name) e cs =>
    if refusedName strict name then .error ⟨e.start⟩ else .ok (.node (.binding name) e cs)
  | .node .arrayPattern e cs =>
    if use = .assigned || areDeclarable cs then .ok (.node .arrayPattern e cs) else .error ⟨e.start⟩
  | .node .objectPattern e cs =>
    if use = .assigned || areDeclarable cs then .ok (.node .objectPattern e cs) else .error ⟨e.start⟩
  | t => if use = .assigned && isSimpleTarget strict t then .ok t else refusal t

/-- The elements of an array as elements of a pattern. -/
def toElements (strict : Bool) (use : TargetUse) : List Tree → Except Failure (List Tree)
  | [] => .ok []
  | .node .hole e cs :: rest => do .ok (.node .hole e cs :: (← toElements strict use rest))
  | .node .spread e [inner] :: rest => do
    if rest.isEmpty then .ok [.node .restPattern e [← toPattern strict use inner]]
    else .error ⟨e.start⟩
  | .node (.assignment true) e [left, right] :: rest => do
    let target ← toPattern strict use left
    .ok (.node .assignmentPattern e [target, right] :: (← toElements strict use rest))
  | t :: rest => do .ok ((← toPattern strict use t) :: (← toElements strict use rest))

/-- The members of an object as members of a pattern. -/
def toProperties (strict : Bool) (use : TargetUse) : List Tree → Except Failure (List Tree)
  | [] => .ok []
  | .node (.shorthand name) e _ :: rest => do
    if refusedName strict name then .error ⟨e.start⟩
    else .ok (.node (.binding name) e [] :: (← toProperties strict use rest))
  | .node (.shorthandDefault name) e [key, value] :: rest => do
    if refusedName strict name then .error ⟨e.start⟩
    else .ok (.node .assignmentPattern e [.node (.binding name) key.extent [], value]
      :: (← toProperties strict use rest))
  | .node .keyValue e [key, .node (.assignment true) e' [left, right]] :: rest => do
    let target ← toPattern strict use left
    .ok (.node .keyValue e [key, .node .assignmentPattern e' [target, right]]
      :: (← toProperties strict use rest))
  | .node .keyValue e [key, value] :: rest => do
    let target ← toPattern strict use value
    .ok (.node .keyValue e [key, target] :: (← toProperties strict use rest))
  | .node .spread e [inner] :: rest => do
    let target ← toPattern strict use inner
    match target.kind, rest with
    | .objectPattern, _ | .arrayPattern, _ => .error ⟨e.start⟩
    | _, [] => .ok [.node .restPattern e [target]]
    | _, _ => .error ⟨e.start⟩
  | t :: _ => .error ⟨t.start⟩

end

/-- The target of an assignment. -/
def toTarget (strict : Bool) (t : Tree) : Parse Tree := toPattern strict .assigned t

/-- A parameter of an arrow, possibly with a default value. -/
def toParameter (strict : Bool) (t : Tree) : Parse Tree :=
  match t with
  | .node (.assignment true) e [left, right] => do
    let target ← toPattern strict .parameter left
    return .node .assignmentPattern e [target, right]
  | .node .assignmentPattern e cs => return .node .assignmentPattern e cs
  | .node .restPattern e cs => return .node .restPattern e cs
  | .node .spread e [inner] => do return .node .restPattern e [← toPattern strict .parameter inner]
  | t => toPattern strict .parameter t

end SpecCoverage.Program
