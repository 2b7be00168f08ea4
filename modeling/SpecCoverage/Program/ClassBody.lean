import SpecCoverage.Program.Function

/-!
# Classes

The members of a class.  A class is strict code.  A member starts at its first decorator or modifier;
the member whose key is `constructor`, as a name or as a string, is the constructor.
-/

namespace SpecCoverage.Program

/-- The words before the key of a member. -/
structure Modifiers where
  words : List String := []

namespace Modifiers

def has (m : Modifiers) (word : String) : Bool := m.words.contains word

end Modifiers

def scriptModifiers : List String := ["static", "async", "get", "set"]

def typedModifiers : List String :=
  ["public", "private", "protected", "declare", "abstract", "override", "readonly", "accessor"]

/-- Whether a token can start the key of a member. -/
def startsMemberKey (t : Token) : Bool :=
  match t.kind with
  | .name .. | .string .. | .number _ | .bigint | .privateName _ => true
  | .symbol text => text == "["
  | _ => false

/-- Whether a word is a modifier before the next token and not the key itself. -/
def modifies (word : String) (next : Token) : Bool :=
  let sameLine := word == "static" || word == "get" || word == "set" || !next.onNewLine
  let follows := startsMemberKey next
    || (next.kind == .symbol "*" && word != "get" && word != "set")
  sameLine && follows

def modifiers (cx : Context) : Parse Modifiers := do
  let known := if cx.typescript then scriptModifiers ++ typedModifiers else scriptModifiers
  let words ← loop ([] : List String) fun words => do
    match ← kind with
    | .name word false =>
      if known.contains word && !words.contains word && (← peekIs (modifies word)) then
        advance
        return (word :: words, !(["async", "get", "set"].contains word))
      else return (words, false)
    | _ => return (words, false)
  return ⟨words⟩

/-- The key of a member, where `none` stands for a private name.  `#constructor` is not one. -/
def memberKey (g : Grammar) (cx : Context) : Parse (Option PropertyKey) := do
  match ← kind with
  | .privateName name =>
    refuseIf (name == "constructor")
    advance
    return none
  | _ => return some (← propertyKey g cx)

def staticBlock (g : Grammar) (cx : Context) (start : Nat) : Parse Tree := do
  expectWord "static"
  expectSymbol "\x7b"
  let statements ← statementsUntilBrace g { cx with
    inStaticBlock := true
    inAsync := false
    inBreakable := false
    inLoop := false
    labels := [] }
  finish start .staticBlock statements

def fieldRest (g : Grammar) (cx : Context) (start : Nat) (before : List Tree) :
    Parse Tree := do
  let ascription ← ascription? g cx
  let inner := { cx.bracketed with inField := true, inParameters := false }
  let value ← if ← eatSymbol "=" then pure [← g.assignment inner] else pure []
  expectSemicolon
  finish start .field (before ++ ascription.toList ++ value)

/-- What a key and the words before it make of a member with parameters. -/
def memberForm (isConstructor isAccessor : Bool) (key : Option PropertyKey) : FunctionForm :=
  if isConstructor then .constructor
  else if isAccessor then .accessor
  else .method (key.bind PropertyKey.name)

def memberRest (g : Grammar) (cx : Context) (start : Nat) (decorators : List Tree)
    (m : Modifiers) : Parse Tree := do
  let isGenerator ← eatSymbol "*"
  let keyStart ← here
  let key ← memberKey g cx
  if cx.typescript then
    if !(← eatSymbol "?") then
      if (← atSymbol "!") && !(← onNewLine) then advance
  let before := decorators ++ (key.map PropertyKey.tree).toList
  let named (name : String) : Bool := key.any fun k => k.name == some name
  let isAccessor := m.has "get" || m.has "set"
  let special := isAccessor || m.has "async" || isGenerator
  if ← atAnySymbol ["(", "<"] then
    let isConstructor := named "constructor" && !m.has "static"
    refuseAtIf keyStart (isConstructor && special)
    refuseAtIf keyStart (named "prototype" && m.has "static")
    let function ← functionRest g cx start (memberForm isConstructor isAccessor key)
      (m.has "async") isGenerator before
    if isAccessor then refuseAccessor (m.has "get") function
    return function
  else
    refuseIf special
    refuseAtIf keyStart (named "constructor" || (named "prototype" && m.has "static"))
    fieldRest g { cx with ambient := false } start before

def member (g : Grammar) (cx : Context) : Parse Tree := do
  let start ← here
  let decorators ← decorators g cx
  if (← atWord "static") && (← peekSymbol "\x7b") then staticBlock g cx start
  else
    let m ← modifiers cx
    if cx.typescript && (← atSymbol "[") then
      match ← indexSignature g cx with
      | some parts =>
        expectSemicolon
        finish start .field (decorators ++ parts)
      | none => memberRest g cx start decorators m
    else memberRest g cx start decorators m

def isConstructorWithBody (t : Tree) : Bool :=
  t.kind = .function .constructor && t.children.any fun c => c.kind = .block

/-- The name of a class is left out where the class goes on without one. -/
def className (cx : Context) : Parse Unit := do
  let named ← atVariable { cx with strict := true }
  let heritage := cx.typescript && (← atWord "implements")
  if named && !heritage then
    let _ ← boundName { cx with strict := true }
  else refuseIf ((← atAnyName) && !(← atWord "extends") && !heritage)

/-- A class from its keyword on; what stands before it is given. -/
def classRest (g : Grammar) (cx : Context) (start : Nat) (decorators : List Tree)
    (nameOptional : Bool) : Parse Tree := do
  expectWord "class"
  let cx := { cx with strict := true }
  refuseIf (!nameOptional && !(← atVariable cx))
  className cx
  let generics ← typeParameters? g cx
  let base ← if ← eatWord "extends" then
      let base ← g.leftHand cx.bracketed true
      let arguments ← if cx.typescript then typeArguments? g cx else pure []
      pure (base :: arguments)
    else pure []
  let interfaces ← if ← eatWordIf cx.typescript "implements" then
      let first ← g.type cx
      let more ← repeated do
        if ← eatSymbol "," then return some (← g.type cx) else return none
      pure (first :: more)
    else pure []
  let inner := { cx.bracketed with inClass := true, allowSuper := true, inField := false }
  expectSymbol "\x7b"
  let members ← repeated do
    let _ ← repeated do
      if ← eatSymbol ";" then return some () else return none
    if ← atSymbol "\x7d" then return none
    return some (← member g inner)
  expectSymbol "\x7d"
  refuseAtIf start ((members.filter isConstructorWithBody).length > 1)
  finish start .classLike (decorators ++ generics ++ base ++ interfaces ++ members)

end SpecCoverage.Program
