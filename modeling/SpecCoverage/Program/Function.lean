import SpecCoverage.Program.Type

/-!
# Functions

Parameters, bodies and arguments, for every form of function.
-/

namespace SpecCoverage.Program

/-! ## Arguments and decorators -/

def argument (g : Grammar) (cx : Context) : Parse Tree := do
  let start ← here
  if ← eatSymbol "..." then finish start .spread [← g.assignment cx.bracketed]
  else g.assignment cx.bracketed

def callArguments (g : Grammar) (cx : Context) : Parse (List Tree) := do
  expectSymbol "("
  return (← listedUntil ")" (argument g cx)).1

/-- `@name.name(arguments)` or `@(expression)`. -/
def decorator (g : Grammar) (cx : Context) : Parse Tree := do
  let start ← here
  expectSymbol "@"
  let target ←
    if ← eatSymbol "(" then
      let expression ← g.expression cx.bracketed
      expectSymbol ")"
      pure expression
    else
      let nameStart ← here
      let name ← variableName cx
      loop (.node (.identifier name) ⟨nameStart, ← lastStop⟩ []) fun object => do
        if ← eatSymbol "." then
          if ← atPrivateName then advance
          else
            let _ ← anyName
          return (← finish nameStart .member [object], true)
        else return (object, false)
  let generics ← if cx.typescript then typeArguments? g cx else pure []
  let arguments ← if ← atSymbol "(" then callArguments g cx else pure []
  finish start .decorator (target :: generics ++ arguments)

def decorators (g : Grammar) (cx : Context) : Parse (List Tree) :=
  repeated do
    if ← atSymbol "@" then return some (← decorator g cx) else return none

/-! ## Parameters -/

def isPlainBinding : Tree → Bool
  | .node (.binding _) _ _ => true
  | _ => false

/-- Whether all parameters are plain variables. -/
def areSimple (parameters : List Tree) : Bool :=
  parameters.all fun p => p.children.getLast?.any isPlainBinding

def startsBinding (t : Token) : Bool :=
  t.isName || t.kind == .symbol "\x7b" || t.kind == .symbol "["

/-- Words before a parameter of a constructor that make it a field. -/
def fieldModifiers (ofConstructor : Bool) : Parse Unit := do
  let _ ← repeated do
    if ← atAnyWord ["public", "private", "protected", "readonly", "override"] then
      if ← peekIs startsBinding then
        refuseIf (!ofConstructor)
        advance
        return some ()
    return none

def parameterPattern (g : Grammar) (cx : Context) : Parse Tree := do
  let start ← here
  if ← eatSymbol "..." then
    let target ← g.binding cx
    let rest ← finish start .restPattern [target]
    let rest ← withAscription g cx rest
    refuseIf (!(← atSymbol ")"))
    return rest
  else
    let target ←
      if ← eatWordIf cx.typescript "this" then finish start (.binding "this") []
      else g.binding cx
    let optional ← eatSymbolIf cx.typescript "?"
    let target ← withAscription g cx target
    refuseIf ((optional || cx.ambient) && (← atSymbol "="))
    withDefault g cx start target

def parameter (g : Grammar) (cx : Context) (ofConstructor : Bool) : Parse Tree := do
  let start ← here
  let decorators ← decorators g cx
  if cx.typescript then fieldModifiers ofConstructor
  let pattern ← parameterPattern g cx
  finish start .parameter (decorators ++ [pattern])

def parameters (g : Grammar) (cx : Context) (ofConstructor : Bool) : Parse (List Tree) := do
  expectSymbol "("
  let (found, _) ← listedUntil ")" (parameter g { cx with inParameters := true } ofConstructor)
  return found

/-! ## Bodies -/

/-- Whether the strings at the start of a body ask for strict code. -/
def asksForStrict : Parse Bool := do
  let answer ← glance (loop false fun found => do
    let token ← current
    if !token.isString then return (found, false)
    advance
    match ← attempt expectSemicolon with
    | none => return (found, false)
    | some () =>
      let length := token.stopOffset - token.startOffset
      let asks := match token.kind with
        | .string value _ => value == "use strict" && length == 12
        | _ => false
      return (found || asks, true))
  return answer.getD false

def statementsUntilBrace (g : Grammar) (cx : Context) : Parse (List Tree) := do
  let statements ← repeated do
    if (← atSymbol "\x7d") || (← atEnd) then return none
    return some (← g.listed cx)
  expectSymbol "\x7d"
  return statements

/-- A block that asks for strict code belongs to a function with simple parameters. -/
def functionBody (g : Grammar) (cx : Context) (simple : Bool) : Parse Tree := do
  let start ← here
  expectSymbol "\x7b"
  let strict ← asksForStrict
  refuseIf (strict && !simple)
  let statements ← statementsUntilBrace g { cx with strict := cx.strict || strict }
  finish start .block statements

/-- A function from its parameters on.  The children before them are given, and so is whether the
function is written with a body. -/
def functionRest (g : Grammar) (cx : Context) (start : Nat) (form : FunctionForm)
    (isAsync isGenerator : Bool) (before : List Tree) : Parse Tree := do
  let inner := cx.function false isAsync isGenerator
  let generics ← typeParameters? g inner
  let parameters ← parameters g inner (form = .constructor)
  let result ← resultAscription? g inner
  let body ←
    if ← atSymbol "\x7b" then
      refuseIf (cx.ambient && cx.typescript)
      pure [← functionBody g inner (areSimple parameters)]
    else
      refuseIf (!cx.typescript)
      expectSemicolon
      pure []
  finish start (.function form) (before ++ generics ++ parameters ++ result ++ body)

/-- A getter has no parameter and a setter has exactly one; `this` does not count. -/
def refuseAccessor (isGetter : Bool) (function : Tree) : Parse Unit := do
  let patterns := function.children.filterMap fun t =>
    if t.kind = .parameter then t.children.getLast? else none
  let counted := patterns.filter fun p => p.kind ≠ .binding "this"
  let plain := counted.all fun p => p.kind ≠ .restPattern
  refuseAtIf function.start (!(if isGetter then counted.isEmpty else counted.length == 1 && plain))

/-- `function` and what follows, after a possible `async`. -/
def functionFromKeyword (g : Grammar) (cx : Context) (start : Nat) (isAsync isExpression : Bool)
    (nameOptional : Bool) : Parse Tree := do
  expectWord "function"
  let isGenerator ← eatSymbol "*"
  let nameContext :=
    if isExpression then { cx with inGenerator := isGenerator, inAsync := isAsync, inStaticBlock := false }
    else cx
  let name ←
    if nameOptional && (← atAnySymbol ["(", "<"]) then pure none
    else pure (some (← boundName nameContext))
  let form := if isExpression then .expression else .declaration name
  functionRest g cx start form isAsync isGenerator []

/-! ## Arrows -/

/-- Whether an expression is an arrow without parentheses around it; nothing may follow it. -/
def isArrow (t : Tree) : Bool := t.kind = .function .arrow

def asParameter (pattern : Tree) : Tree := .node .parameter pattern.extent [pattern]

/-- An arrow from its `=>` on, which stands on the line where the parameters end. -/
def arrowRest (g : Grammar) (cx : Context) (start : Nat) (isAsync : Bool)
    (generics patterns result : List Tree) : Parse Tree := do
  refuseIf (← onNewLine)
  expectSymbol "=>"
  let parameters := patterns.map asParameter
  let inner := cx.function true isAsync false
  let body ←
    if ← atSymbol "\x7b" then functionBody g inner (areSimple parameters)
    else g.assignment { inner with
      allowIn := cx.allowIn
      inConditional := cx.inConditional
      colonExpected := cx.colonExpected }
  finish start (.function .arrow) (generics ++ parameters ++ result ++ [body])

end SpecCoverage.Program
