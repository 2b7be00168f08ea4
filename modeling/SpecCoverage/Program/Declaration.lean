import SpecCoverage.Program.ClassBody

/-!
# Declarations

Variables, functions and classes, and the declarations of a typed program: interfaces, aliases,
enumerations, namespaces, and any of these behind `declare`, where nothing has a body.
-/

namespace SpecCoverage.Program

/-! ## Variables -/

/-- One variable or pattern with its initial value.  A pattern and a constant need a value, unless a loop
gives them one or the declaration is ambient. -/
def declarator (g : Grammar) (cx : Context) (word : String) (inHead : Bool) : Parse Tree := do
  let start ← here
  let namedLet := (← kind) matches .name "let" _
  refuseIf (word != "var" && namedLet)
  let target ← g.binding cx
  if cx.typescript && isPlainBinding target && (← atSymbol "!") && !(← onNewLine) then advance
  let target ← withAscription g cx target
  if ← eatSymbol "=" then
    let value ← g.assignment cx
    finish start .declarator [target, value]
  else
    let given := cx.ambient || (inHead && (← atAnyWord ["in", "of"]))
    refuseIf (!given && ((word == "const" && !inHead) || !isPlainBinding target))
    finish start .declarator [target]

def declarators (g : Grammar) (cx : Context) (inHead : Bool) : Parse (List Tree) := do
  let word ← anyName
  let first ← declarator g cx word inHead
  let more ← repeated do
    if ← eatSymbol "," then return some (← declarator g cx word inHead) else return none
  return first :: more

/-- A declaration of variables with its semicolon. -/
def variableStatement (g : Grammar) (cx : Context) (start : Nat) : Parse Tree := do
  let found ← declarators g cx false
  expectSemicolon
  finish start .variableDeclaration found

/-- The variables in the head of a loop. -/
def headVariables (g : Grammar) (cx : Context) : Parse Tree := do
  let start ← here
  finish start .variableDeclaration (← declarators g cx true)

def canFollowLet (t : Token) : Bool :=
  match t.kind with
  | .name name _ => !reservedWords.contains name
  | .symbol text => text == "[" || text == "\x7b"
  | _ => false

/-- Whether `let` is a keyword here and not a variable. -/
def atLet : Parse Bool := do
  return (← atWord "let") && (← peekIs canFollowLet)

/-! ## Declarations of types -/

def reservedTypes : List String :=
  ["string", "null", "number", "object", "any", "unknown", "boolean", "bigint", "symbol", "void",
   "never", "intrinsic"]

/-- The name of a declared type, with its parameters. -/
def typeName (g : Grammar) (cx : Context) : Parse (List Tree) := do
  refuseIf (!(← atVariable cx))
  advance
  typeParameters? g cx

def interfaceDeclaration (g : Grammar) (cx : Context) (start : Nat) : Parse Tree := do
  expectWord "interface"
  refuseIf (← atAnyWord reservedTypes)
  let generics ← typeName g cx
  let bases ← if ← eatWord "extends" then
      let first ← g.type cx
      let more ← repeated do
        if ← eatSymbol "," then return some (← g.type cx) else return none
      pure (first :: more)
    else pure []
  let members ← typeMembers g cx
  finish start .statement (generics ++ bases ++ members)

def aliasDeclaration (g : Grammar) (cx : Context) (start : Nat) : Parse Tree := do
  expectWord "type"
  let generics ← typeName g cx
  expectSymbol "="
  let type ← g.type cx
  expectSemicolon
  finish start .statement (generics ++ [type])

def enumMember (g : Grammar) (cx : Context) : Parse Tree := do
  let start ← here
  let key ← propertyKey g cx
  refuseAtIf start key.name.isNone
  let value ← if ← eatSymbol "=" then pure [← g.assignment cx.bracketed] else pure []
  finish start .field (key.tree :: value)

def enumDeclaration (g : Grammar) (cx : Context) (start : Nat) : Parse Tree := do
  let _ ← eatWord "const"
  expectWord "enum"
  let _ ← boundName cx
  expectSymbol "\x7b"
  let (members, _) ← listedUntil "\x7d" (enumMember g cx)
  finish start .statement members

/-! ## Namespaces -/

def namespaceBody (g : Grammar) (cx : Context) : Parse (List Tree) := do
  let cx := { cx with inNamespace := true, mustDeclare := false }
  expectSymbol "\x7b"
  let items ← repeated do
    if (← atSymbol "\x7d") || (← atEnd) then return none
    return some (← g.moduleItem cx)
  expectSymbol "\x7d"
  return items

/-- `namespace A.B`, `module A.B`, `module "name"` or `global`, with the items of the namespace; those
of a named module may be left out. -/
def namespaceDeclaration (g : Grammar) (cx : Context) (start : Nat) : Parse Tree := do
  if ← eatWord "global" then finish start .statement (← namespaceBody g cx)
  else
    advance
    if (← current).isString then
      advance
      let items ← if ← atSymbol "\x7b" then namespaceBody g cx else do expectSemicolon; pure []
      finish start .statement items
    else
      let _ ← boundName cx
      loop () fun _ => do
        if ← eatSymbol "." then
          let _ ← anyName
          return ((), true)
        else return ((), false)
      finish start .statement (← namespaceBody g cx)

/-! ## Declarations -/

def isDeclaredName (t : Token) : Bool :=
  match t.kind with
  | .name name _ => !t.onNewLine && !reservedWords.contains name
  | _ => false

def isWordOnLine (words : List String) (t : Token) : Bool :=
  match t.kind with
  | .name name false => !t.onNewLine && words.contains name
  | _ => false

/-- A declaration that only a typed program has, if one stands here. -/
def typedDeclaration? (g : Grammar) (cx : Context) (start : Nat) : Parse (Option Tree) := do
  let refuseBare := refuseIf cx.mustDeclare
  if (← atWord "interface") && (← peekIs isDeclaredName) then
    return some (← interfaceDeclaration g cx start)
  else if (← atWord "type") && (← peekIs isDeclaredName) then
    return some (← aliasDeclaration g cx start)
  else if (← atWord "enum") || ((← atWord "const") && (← peekIs (isWordOnLine ["enum"]))) then
    refuseBare
    return some (← enumDeclaration g cx start)
  else if (← atWord "abstract") && (← peekIs (isWordOnLine ["class"])) then
    refuseBare
    advance
    return some (← classRest g cx start [] false)
  else if ((← atAnyWord ["namespace", "module"]) && (← peekIs isDeclaredName))
      || ((← atWord "module") && (← peekIs fun t => t.isString && !t.onNewLine))
      || ((← atWord "global") && (← peekIs fun t => t.kind == .symbol "\x7b" && !t.onNewLine)) then
    refuseBare
    return some (← namespaceDeclaration g cx start)
  else return none

def declaredWords : List String :=
  ["function", "class", "const", "let", "var", "enum", "interface", "type", "namespace", "module",
   "global", "abstract"]

/-- A declaration without `declare`, which begins at `start`. -/
def bareDeclaration? (g : Grammar) (cx : Context) (start : Nat) : Parse (Option Tree) := do
  let typed ← if cx.typescript then typedDeclaration? g cx start else pure none
  if typed.isSome then return typed
  let refuseBare := refuseIf cx.mustDeclare
  if ← atWord "function" then
    refuseBare
    return some (← functionFromKeyword g cx start false false false)
  else if (← atWord "async") && (← peekIs (isWordOnLine ["function"])) then
    refuseBare
    advance
    return some (← functionFromKeyword g cx start true false false)
  else if (← atWord "class") || (← atSymbol "@") then
    refuseBare
    let decorators ← decorators g cx
    if cx.typescript && (← atWord "abstract") then advance
    return some (← classRest g cx start decorators false)
  else if (← atAnyWord ["const", "var"]) || (← atLet) then
    refuseBare
    return some (← variableStatement g cx start)
  else return none

/-- A declaration, if one stands here. -/
def declaration? (g : Grammar) (cx : Context) : Parse (Option Tree) := do
  let start ← here
  if cx.typescript && (← atWord "declare") && (← peekIs (isWordOnLine declaredWords)) then
    advance
    bareDeclaration? g { cx with ambient := true, mustDeclare := false } start
  else bareDeclaration? g cx start

end SpecCoverage.Program
