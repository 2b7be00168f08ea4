import SpecCoverage.Program.Pattern

/-!
# Types

What stands behind the colon of an ascription.  A leading `|` or `&` and parentheses belong to the type.
-/

namespace SpecCoverage.Program

/-! ## Names and lists of types -/

/-- A name with further names behind dots. -/
def qualifiedName : Parse Unit := do
  let _ ← anyName
  loop () fun _ => do
    if ← eatSymbol "." then
      let _ ← anyName
      return ((), true)
    else return ((), false)

def typesUntilAngle (g : Grammar) (cx : Context) : Parse (List Tree) := do
  let cx := { cx.bracketed with noConditionalType := false }
  let first ← g.type cx
  let more ← repeated do
    if ← eatSymbol "," then return some (← g.type cx) else return none
  return first :: more

def typeArguments (g : Grammar) (cx : Context) : Parse (List Tree) := do
  expectOpeningAngle
  let types ← typesUntilAngle g cx
  expectClosingAngle
  return types

def atOpeningAngle : Parse Bool := atAnySymbol ["<", "<<"]

/-- Type arguments on the same line, if there are any. -/
def typeArguments? (g : Grammar) (cx : Context) : Parse (List Tree) := do
  if (← atOpeningAngle) && !(← onNewLine) then typeArguments g cx else return []

/-- One parameter of a type: its modifiers, name, constraint and default. -/
def typeParameter (g : Grammar) (cx : Context) : Parse Tree := do
  let start ← here
  let cx := { cx.bracketed with noConditionalType := false }
  let _ ← repeated do
    if (← atAnyWord ["const", "in", "out"]) && (← peekIs Token.isName) then
      advance
      return some ()
    else return none
  refuseIf (!(← atVariable { cx with strict := false }))
  advance
  let constraint ← if ← eatWord "extends" then pure [← g.type cx] else pure []
  let default ← if ← eatSymbol "=" then pure [← g.type cx] else pure []
  finish start .type (constraint ++ default)

/-- The parameters between angle brackets, and whether a comma or a constraint stands there, which
tells them from the start of an element. -/
def typeParameters (g : Grammar) (cx : Context) : Parse (List Tree × Bool) := do
  expectSymbol "<"
  let first ← typeParameter g cx
  let (more, comma) ← loop (([], false) : List Tree × Bool) fun (found, comma) => do
    if ← eatSymbol "," then
      if ← atClosingAngle then return ((found, true), false)
      return ((found ++ [← typeParameter g cx], true), true)
    else return ((found, comma), false)
  expectClosingAngle
  return (first :: more, comma || !first.children.isEmpty)

def typeParameters? (g : Grammar) (cx : Context) : Parse (List Tree) := do
  if cx.typescript && (← atSymbol "<") then return (← typeParameters g cx).1 else return []

/-! ## Functions -/

/-- A type, or what a function asserts of a parameter: `x is T`, `asserts x` or `asserts x is T`. -/
def typeOrPredicate (g : Grammar) (cx : Context) : Parse Tree := do
  let start ← here
  let cx := { cx.bracketed with noConditionalType := false }
  let predicate ← attempt do
    let asserting := (← atWord "asserts") && (← peekIs fun t => t.isName && !t.onNewLine)
    let named ← attempt do
      if asserting then advance
      refuseIf (!((← atWord "this") || (← atVariable { cx with strict := false })))
      advance
      refuseIf (!(← atWord "is") || (← onNewLine))
      advance
      g.type cx
    match named with
    | some type => finish start .type [type]
    | none =>
      refuseIf (!asserting)
      advance
      refuseIf (!((← atWord "this") || (← atVariable { cx with strict := false })))
      advance
      finish start .type []
  match predicate with
  | some type => return type
  | none => g.type cx

/-- The ascription of a result behind its colon or arrow. -/
def resultType (g : Grammar) (cx : Context) : Parse Tree := do
  let type ← typeOrPredicate g cx
  return .node .ascription type.extent [type]

def resultAscription? (g : Grammar) (cx : Context) : Parse (List Tree) := do
  if ← eatSymbolIf cx.typescript ":" then return [← resultType g cx] else return []

/-- One parameter of a function type. -/
def signatureParameter (g : Grammar) (cx : Context) : Parse Tree := do
  let start ← here
  let rest ← eatSymbol "..."
  let targetStart ← here
  let target ← if ← eatWord "this" then finish targetStart (.binding "this") [] else g.binding cx
  if !rest then
    let _ ← eatSymbol "?"
  let target ← withAscription g cx target
  if rest then finish start .restPattern [target] else return target

def signatureParameters (g : Grammar) (cx : Context) : Parse (List Tree) := do
  expectSymbol "("
  return (← listedUntil ")" (signatureParameter g cx)).1

/-- Parameters and result of a member, without its key. -/
def signature (g : Grammar) (cx : Context) : Parse (List Tree) := do
  let generics ← typeParameters? g cx
  let parameters ← signatureParameters g cx
  let result ← resultAscription? g cx
  return generics ++ parameters ++ result

def functionType (g : Grammar) (cx : Context) (start : Nat) : Parse Tree := do
  let generics ← typeParameters? g cx
  let parameters ← signatureParameters g cx
  expectSymbol "=>"
  let result ← typeOrPredicate g cx
  finish start .type (generics ++ parameters ++ [result])

/-- Skips tokens up to the bracket that closes the current one. -/
def skipBrackets : Parse Unit := do
  let _ ← loop 0 fun depth => do
    if ← atEnd then refuse
    let depth ←
      if ← atAnySymbol ["\x7b", "[", "("] then pure (depth + 1)
      else if ← atAnySymbol ["\x7d", "]", ")"] then pure (depth - 1)
      else pure depth
    advance
    return (depth, depth > 0)

/-- Whether a parenthesis opens the parameters of a function type. -/
def startsFunctionType : Parse Bool := do
  let answer ← glance do
    expectSymbol "("
    if ← atAnySymbol [")", "..."] then return true
    if ← atAnySymbol ["\x7b", "["] then skipBrackets
    else
      let _ ← anyName
    if ← atAnySymbol [":", ",", "?", "="] then return true
    if ← eatSymbol ")" then atSymbol "=>" else return false
  return answer.getD false

/-! ## Members -/

def startsKey (t : Token) : Bool :=
  t.isName || t.isString || t.kind == .symbol "[" || t.kind matches .number _

/-- `[name: key]: value`. -/
def atIndexSignature : Parse Bool := do
  let answer ← glance do
    expectSymbol "["
    let _ ← anyName
    atSymbol ":"
  return answer.getD false

def indexSignature (g : Grammar) (cx : Context) : Parse (Option (List Tree)) := do
  if ← atIndexSignature then
    expectSymbol "["
    let _ ← anyName
    expectSymbol ":"
    let key ← g.type cx
    expectSymbol "]"
    let value ← ascription? g cx
    return some (key :: value.toList)
  else return none

def memberEnd : Parse Unit := do
  if ← eatSymbol "," then return ()
  expectSemicolon

def typeMember (g : Grammar) (cx : Context) : Parse Tree := do
  let start ← here
  let parts ←
    if ← atAnySymbol ["(", "<"] then signature g cx
    else if (← atWord "new") && (← peekIs fun t => t.kind == .symbol "(" || t.kind == .symbol "<") then
      advance
      signature g cx
    else
      if (← atWord "readonly") && (← peekIs startsKey) then advance
      match ← indexSignature g cx with
      | some parts => pure parts
      | none =>
        if (← atAnyWord ["get", "set"]) && (← peekIs startsKey) then advance
        let key ← propertyKey g cx
        let _ ← eatSymbol "?"
        if ← atAnySymbol ["(", "<"] then pure (key.tree :: (← signature g cx))
        else pure (key.tree :: (← ascription? g cx).toList)
  memberEnd
  finish start .type parts

/-- The members between braces, of an interface or of a type. -/
def typeMembers (g : Grammar) (cx : Context) : Parse (List Tree) := do
  expectSymbol "\x7b"
  let members ← repeated do
    if ← atSymbol "\x7d" then return none
    return some (← typeMember g { cx.bracketed with noConditionalType := false })
  expectSymbol "\x7d"
  return members

def eatModifier (word : String) : Parse Unit := do
  if ← atAnySymbol ["+", "-"] then
    advance
    expectWord word
  else
    let _ ← eatWord word

def atMappedType : Parse Bool := do
  let answer ← glance do
    expectSymbol "\x7b"
    eatModifier "readonly"
    expectSymbol "["
    let _ ← anyName
    atWord "in"
  return answer.getD false

def mappedType (g : Grammar) (cx : Context) (start : Nat) : Parse Tree := do
  expectSymbol "\x7b"
  eatModifier "readonly"
  expectSymbol "["
  let _ ← anyName
  expectWord "in"
  let keys ← g.type cx
  let renamed ← if ← eatWord "as" then pure [← g.type cx] else pure []
  expectSymbol "]"
  if ← atAnySymbol ["+", "-"] then
    advance
    expectSymbol "?"
  else
    let _ ← eatSymbol "?"
  let value ← ascription? g cx
  expectSemicolon
  expectSymbol "\x7d"
  finish start .type (keys :: renamed ++ value.toList)

def tupleElement (g : Grammar) (cx : Context) : Parse Tree := do
  let start ← here
  let _ ← eatSymbol "..."
  let label ← attempt do
    let _ ← anyName
    let _ ← eatSymbol "?"
    expectSymbol ":"
  match label with
  | some _ => finish start .type [← g.type cx]
  | none =>
    let type ← g.type cx
    let _ ← eatSymbol "?"
    finish start .type [type]

/-! ## Types -/

/-- The types between the pieces of a template. -/
def templateTypes (g : Grammar) (cx : Context) : Parse (List Tree) := do
  let token ← current
  loop (([], token.stop) : List Tree × Cursor) (fun (types, cursor) => do
    let (ending, valid, stop) ← readTemplate cursor
    refuseIf (!valid)
    resume stop
    match ending with
    | .closed => return ((types, stop), false)
    | .substitution =>
      let type ← g.type cx
      refuseIf (!(← atSymbol "\x7d"))
      return ((types ++ [type], (← current).stop), true))
    >>= fun (types, _) => return types

def importType (g : Grammar) (cx : Context) : Parse (List Tree) := do
  expectWord "import"
  expectSymbol "("
  refuseIf (!(← current).isString)
  advance
  let options ← if ← eatSymbol "," then
      if ← atSymbol ")" then pure [] else pure [← g.assignment cx.bracketed]
    else pure []
  let _ ← eatSymbol ","
  expectSymbol ")"
  if ← eatSymbol "." then qualifiedName
  return options ++ (← typeArguments? g cx)

def primaryType (g : Grammar) (cx : Context) : Parse Tree := do
  let start ← here
  let inner := { cx.bracketed with noConditionalType := false }
  match ← kind with
  | .name name _ =>
    if name == "this" then
      advance
      if (← atWord "is") && !(← onNewLine) then
        advance
        finish start .type [← g.type inner]
      else finish start .type []
    else if name == "typeof" then
      advance
      if ← atWord "import" then finish start .type (← importType g cx)
      else
        qualifiedName
        finish start .type (← typeArguments? g cx)
    else if name == "import" then finish start .type (← importType g cx)
    else if ["void", "null", "true", "false"].contains name then
      advance
      finish start .type []
    else
      refuseIf (reservedWords.contains name)
      qualifiedName
      finish start .type (← typeArguments? g cx)
  | .string .. | .number _ | .bigint =>
    advance
    finish start .type []
  | .backquote => finish start .type (← templateTypes g inner)
  | .symbol "-" =>
    advance
    match ← kind with
    | .number _ | .bigint => advance; finish start .type []
    | _ => refuse
  | .symbol "\x7b" =>
    if ← atMappedType then mappedType g inner start
    else finish start .type (← typeMembers g cx)
  | .symbol "[" =>
    advance
    let (elements, _) ← listedUntil "]" (tupleElement g inner)
    finish start .type elements
  | .symbol "(" =>
    advance
    let type ← g.type inner
    expectSymbol ")"
    finish start .type [type]
  | _ => refuse

/-- `[]` and `[key]` behind a type. -/
def postfixType (g : Grammar) (cx : Context) : Parse Tree := do
  let start ← here
  let first ← primaryType g cx
  loop first fun type => do
    if (← atSymbol "[") && !(← onNewLine) then
      advance
      if ← eatSymbol "]" then return (← finish start .type [type], true)
      let key ← g.type { cx.bracketed with noConditionalType := false }
      expectSymbol "]"
      return (← finish start .type [type, key], true)
    else return (type, false)

def inferredType (g : Grammar) (cx : Context) (start : Nat) : Parse Tree := do
  expectWord "infer"
  let _ ← anyName
  let constraint ← attempt do
    expectWord "extends"
    let type ← g.type { cx.bracketed with noConditionalType := true }
    refuseIf (!cx.noConditionalType && (← atSymbol "?"))
    return type
  finish start .type constraint.toList

/-- The operators before a type, innermost last. -/
def operatorType (g : Grammar) (cx : Context) : Parse Tree := do
  let starts ← repeated do
    if ← atAnyWord ["keyof", "unique", "readonly"] then
      let start ← here
      advance
      return some start
    else return none
  let start ← here
  let operand ←
    if ← atWord "infer" then inferredType g cx start
    else postfixType g cx
  return starts.foldr (fun start type => .node .type ⟨start, type.stop⟩ [type]) operand

/-- Types with an operator between any two of them, and possibly one in front. -/
def chainedType (symbol : String) (part : Parse Tree) : Parse Tree := do
  let start ← here
  let leading ← eatSymbol symbol
  let first ← part
  let more ← repeated do
    if ← eatSymbol symbol then return some (← part) else return none
  if leading || !more.isEmpty then finish start .type (first :: more) else return first

def unionType (g : Grammar) (cx : Context) : Parse Tree :=
  chainedType "|" (chainedType "&" (operatorType g cx))

def typeExpression (g : Grammar) (cx : Context) : Parse Tree := do
  let start ← here
  let inner := { cx with noConditionalType := false }
  if ← atSymbol "<" then functionType g inner start
  else if (← atSymbol "(") && (← startsFunctionType) then functionType g inner start
  else if ← atWord "new" then
    advance
    functionType g inner start
  else if (← atWord "abstract") && (← peekIs (·.kind == .name "new" false)) then
    advance
    advance
    functionType g inner start
  else
    let checked ← unionType g cx
    if !cx.noConditionalType && (← atWord "extends") && !(← onNewLine) then
      advance
      let bound ← g.type { inner with noConditionalType := true }
      expectSymbol "?"
      let whenTrue ← g.type inner
      expectSymbol ":"
      let whenFalse ← g.type inner
      finish start .type [checked, bound, whenTrue, whenFalse]
    else return checked

end SpecCoverage.Program
