import SpecCoverage.Program.ClassBody
import SpecCoverage.Program.Element

/-!
# Expressions

From the operands outward: primary expressions, members and calls, unary and binary operators,
conditionals, assignments.  What may be the parameters of an arrow is read as an expression first and
turned into patterns when the arrow shows up.
-/

namespace SpecCoverage.Program

/-! ## Templates -/

/-- The expressions of a template, and whether all its escapes have a meaning. -/
def templateParts (g : Grammar) (cx : Context) : Parse (List Tree × Bool) := do
  let token ← current
  let (parts, valid, _) ← loop (([], true, token.stop) : List Tree × Bool × Cursor)
    fun (parts, valid, cursor) => do
      let (ending, here, stop) ← readTemplate cursor
      resume stop
      match ending with
      | .closed => return ((parts, valid && here, stop), false)
      | .substitution =>
        let part ← g.expression cx.bracketed
        refuseIf (!(← atSymbol "\x7d"))
        return ((parts ++ [part], valid && here, (← current).stop), true)
  return (parts, valid)

def template (g : Grammar) (cx : Context) : Parse Tree := do
  let start ← here
  let (parts, valid) ← templateParts g cx
  refuseAtIf start (!valid)
  finish start .expression parts

/-! ## Arrays and objects -/

/-- A comma behind a spread is kept as a hole in front of the bracket: it makes no pattern. -/
def arrayLiteral (g : Grammar) (cx : Context) (start : Nat) : Parse Tree := do
  expectSymbol "["
  let element : Parse Tree := do
    let start ← here
    if ← atSymbol "," then return .node .hole ⟨start, start⟩ []
    if ← eatSymbol "..." then finish start .spread [← g.assignment cx.bracketed]
    else g.assignment cx.bracketed
  let (elements, trailing) ← listedUntil "]" element
  let stop ← lastStop
  let closing := if trailing && elements.getLast?.any (·.kind = .spread) then
    [.node .hole ⟨stop - 1, stop - 1⟩ []] else []
  finish start .array (elements ++ closing)

def startsObjectKey (t : Token) : Bool :=
  match t.kind with
  | .name .. | .string .. | .number _ | .bigint => true
  | .symbol text => text == "["
  | _ => false

/-- A method of an object, from its key on. -/
def objectMethod (g : Grammar) (cx : Context) (start : Nat) (isAsync isGenerator : Bool) :
    Parse Tree := do
  let key ← propertyKey g cx
  functionRest g { cx with allowSuper := true, ambient := false } start .objectMethod
    isAsync isGenerator [key.tree]

def objectAccessor (g : Grammar) (cx : Context) (start : Nat) : Parse Tree := do
  let isGetter ← atWord "get"
  advance
  let key ← propertyKey g cx
  let function ← functionRest g { cx with allowSuper := true, ambient := false } start .accessor
    false false [key.tree]
  refuseAccessor isGetter function
  return function

/-- A member that begins with its key. -/
def keyedMember (g : Grammar) (cx : Context) (start : Nat) : Parse Tree := do
  let token ← current
  let key ← propertyKey g cx
  if ← atAnySymbol ["(", "<"] then
    functionRest g { cx with allowSuper := true, ambient := false } start .objectMethod
      false false [key.tree]
  else if ← eatSymbol ":" then
    finish start .keyValue [key.tree, ← g.assignment cx.bracketed]
  else match key.name, key.isIdentifier with
    | some name, true =>
      refuseAtIf token.startOffset (!isVariableName cx name || (name == "arguments" && cx.inField))
      if ← eatSymbol "=" then
        finish start (.shorthandDefault name) [key.tree, ← g.assignment cx.bracketed]
      else return .node (.shorthand name) key.tree.extent []
    | _, _ => refuse

def objectMember (g : Grammar) (cx : Context) : Parse Tree := do
  let start ← here
  if ← eatSymbol "..." then finish start .spread [← g.assignment cx.bracketed]
  else if ← eatSymbol "*" then objectMethod g cx start false true
  else if (← atWord "async")
      && (← peekIs fun t => !t.onNewLine && (startsObjectKey t || t.kind == .symbol "*")) then
    advance
    let isGenerator ← eatSymbol "*"
    objectMethod g cx start true isGenerator
  else if (← atAnyWord ["get", "set"]) && (← peekIs startsObjectKey) then objectAccessor g cx start
  else keyedMember g cx start

def objectLiteral (g : Grammar) (cx : Context) (start : Nat) : Parse Tree := do
  expectSymbol "\x7b"
  let (members, trailing) ← listedUntil "\x7d" (objectMember g cx)
  let stop ← lastStop
  let closing := if trailing && members.getLast?.any (·.kind = .spread) then
    [.node .hole ⟨stop - 1, stop - 1⟩ []] else []
  finish start .object (members ++ closing)

/-! ## Parentheses and arrows -/

/-- An item between parentheses, and whether it can only be a parameter. -/
structure Item where
  tree : Tree
  onlyParameter : Bool

def assignmentOperators : List String :=
  ["=", "+=", "-=", "*=", "/=", "%=", "**=", "<<=", ">>=", ">>>=", "&=", "|=", "^=", "&&=", "||=",
   "??="]

/-- The rest of an assignment whose target has been read. -/
def assignmentRest (g : Grammar) (cx : Context) (left : Tree) : Parse Tree := do
  match ← kind with
  | .symbol operator =>
    if isArrow left || !assignmentOperators.contains operator then return left
    let cx := { cx with arrowStart := none }
    if operator == "=" then
      let target ← toTarget cx.strict left
      advance
      finish left.start (.assignment true) [target, ← g.assignment cx]
    else
      refuseAtIf left.start (!isSimpleTarget cx.strict left)
      advance
      finish left.start (.assignment false) [left, ← g.assignment cx]
  | _ => return left

/-- `? value : value` behind a test, if it is there. -/
def conditionalRest (g : Grammar) (cx : Context) (test : Tree) : Parse Tree := do
  if isArrow test || !(← atSymbol "?") then return test
  advance
  let whenTrue ← g.assignment { cx with
    allowIn := true, inConditional := true, colonExpected := true, arrowStart := none }
  expectSymbol ":"
  let whenFalse ← g.assignment { cx with
    inConditional := true, arrowStart := none }
  finish test.start .conditional [test, whenTrue, whenFalse]

def asSpread (start : Nat) (spread : Bool) (tree : Tree) : Tree :=
  if spread then .node .spread ⟨start, tree.stop⟩ [tree] else tree

/-- Whether the token behind a question mark shows that the mark belongs to a parameter. -/
def endsOptional (t : Token) : Bool :=
  match t.kind with
  | .symbol text => [",", ":", ")", "="].contains text
  | _ => false

/-- An item where types may be written: it may be a parameter with an ascription. -/
def typedItem (g : Grammar) (cx : Context) : Parse Item := do
  let start ← here
  let spread ← eatSymbol "..."
  let cx := { cx.bracketed with arrowStart := some (← here) }
  let tree ←
    if ← atVariable cx then
      let left ← g.binary cx
      if spread then pure left else assignmentRest g cx left
    else g.assignment cx
  let optional ←
    if ← atSymbol "?" then
      if ← peekIs endsOptional then
        refuseAtIf tree.start (spread || !(tree.kind matches .identifier _))
        advance
        pure true
      else pure false
    else pure false
  let tree ← if spread || optional then pure tree else conditionalRest g cx tree
  if optional || (← atSymbol ":") then
    let target ← toParameter cx.strict (asSpread start spread tree)
    let target ← withAscription g cx target
    return ⟨← withDefault g cx start target, true⟩
  else return ⟨asSpread start spread tree, false⟩

def plainItem (g : Grammar) (cx : Context) : Parse Item := do
  let start ← here
  if ← eatSymbol "..." then
    let tree ← g.assignment cx.bracketed
    return ⟨asSpread start true tree, false⟩
  else return ⟨← g.assignment cx.bracketed, false⟩

def isRest (t : Tree) : Bool := t.kind = .spread || t.kind = .restPattern

/-- The parameters that a list of items spells.  A rest comes last and no comma follows it. -/
def itemsToParameters (strict : Bool) (items : List Item) (trailing : Bool) :
    Parse (List Tree) := do
  let trees := items.map Item.tree
  refuseIf ((trees.dropLast.any isRest) || (trailing && trees.getLast?.any isRest))
  trees.mapM (toParameter strict)

/-- The ascription of the result of an arrow, which has to follow it. -/
def arrowResult? (g : Grammar) (cx : Context) : Parse (Option (List Tree)) :=
  attempt do
    let result ← resultAscription? g cx
    refuseIf (!(← atSymbol "=>") || (← onNewLine))
    return result

/-- An arrow whose result is ascribed, within a conditional whose colon is still to come. -/
def conditionalArrow? (g : Grammar) (cx : Context) (start : Nat) (isAsync : Bool)
    (items : List Item) (trailing : Bool) : Parse (Option Tree) :=
  attempt do
    let result ← resultAscription? g cx
    let parameters ← itemsToParameters cx.strict items trailing
    let arrow ← arrowRest g cx start isAsync [] parameters result
    refuseIf (cx.colonExpected && !(← atSymbol ":"))
    return arrow

def parenthesizedExpression (start : Nat) (items : List Item) (trailing : Bool) :
    Parse Tree := do
  refuseAtIf start (items.isEmpty || trailing || items.any fun item => isRest item.tree)
  match items with
  | [item] => finish start .parenthesized [item.tree]
  | _ =>
    let stop ← lastStop
    finish start .parenthesized [.node .expression ⟨start + 1, stop - 1⟩ (items.map Item.tree)]

/-- A parenthesized expression, the arguments of a call of `async`, or an arrow. -/
def parenthesized (g : Grammar) (cx : Context)
    (start : Nat) (asyncCallee : Option Tree) : Parse Tree := do
  let canBeArrow := cx.arrowStart = some start
  let isAsync := asyncCallee.isSome
  expectSymbol "("
  let item := if cx.typescript then typedItem g cx else plainItem g cx
  let (items, trailing) ← listedUntil ")" item
  let ascribed := cx.typescript && (← atSymbol ":")
  let early ← if ascribed && cx.inConditional && canBeArrow
    then conditionalArrow? g cx start isAsync items trailing else pure none
  match early with
  | some arrow => return arrow
  | none =>
    let result ← if ascribed && !cx.colonExpected then arrowResult? g cx else pure none
    if result.isSome || items.any Item.onlyParameter || (← atSymbol "=>") then
      refuseIf (!canBeArrow)
      let parameters ← itemsToParameters cx.strict items trailing
      arrowRest g cx start isAsync [] parameters (result.getD [])
    else match asyncCallee with
      | some callee => finish start .expression (callee :: items.map Item.tree)
      | none => parenthesizedExpression start items trailing

/-- An arrow with type parameters.  Where elements may stand too, a comma or a constraint tells the
parameters from an element. -/
def genericArrow? (g : Grammar) (cx : Context) (start : Nat) (isAsync : Bool) :
    Parse (Option Tree) :=
  attempt do
    let (generics, distinct) ← typeParameters g cx
    refuseIf (cx.jsx && !isAsync && !distinct)
    refuseIf (!(← atSymbol "("))
    let arrow ← if isAsync then
        parenthesized g { cx with arrowStart := some start } start
          (some (.node (.identifier "async") ⟨start, start⟩ []))
      else g.assignment cx
    refuseIf (!isArrow arrow)
    match arrow with
    | .node k e cs => return .node k ⟨start, e.stop⟩ (generics ++ cs)

/-! ## Primary expressions -/

def literal (l : Literal) : Parse Tree := do
  let start ← here
  advance
  finish start (.literal l) []

def regex : Parse Tree := do
  let token ← current
  resume (← readRegex token.start)
  finish token.startOffset (.literal .regex) []

/-- A variable, or an arrow with a single parameter. -/
def variableOrArrow (g : Grammar) (cx : Context) (start : Nat) (isAsync : Bool) : Parse Tree := do
  let nameStart ← here
  let name ← variableName cx
  let tree ← finish nameStart (.identifier name) []
  if cx.arrowStart = some start && (← atSymbol "=>") && !(← onNewLine) then
    let parameter ← toParameter cx.strict tree
    arrowRest g cx start isAsync [] [parameter] []
  else if isAsync then refuse
  else return tree

/-- What `async` begins: a function, an arrow, a call, or a variable of that name. -/
def asyncExpression (g : Grammar) (cx : Context) : Parse Tree := do
  let start ← here
  let next ← peek
  let canBeArrow := cx.arrowStart = some start
  match next with
  | none => variableOrArrow g cx start false
  | some next =>
    if next.onNewLine then variableOrArrow g cx start false
    else if next.kind == .name "function" false then
      advance
      functionFromKeyword g cx start true true true
    else if canBeArrow && next.kind == .symbol "(" then
      advance
      parenthesized g cx start (some (.node (.identifier "async") ⟨start, start + 5⟩ []))
    else if canBeArrow && cx.typescript && next.kind == .symbol "<" then
      let arrow ← attempt do
        advance
        match ← genericArrow? g cx start true with
        | some arrow => return arrow
        | none => refuse
      match arrow with
      | some arrow => return arrow
      | none => variableOrArrow g cx start false
    else if canBeArrow && next.isName then
      let arrow ← attempt do
        advance
        variableOrArrow g cx start true
      match arrow with
      | some arrow => return arrow
      | none => variableOrArrow g cx start false
    else variableOrArrow g cx start false

/-- `import(specifier, options)` or `import.meta`. -/
def importExpression (g : Grammar) (cx : Context) (calls : Bool) : Parse Tree := do
  let start ← here
  expectWord "import"
  if ← eatSymbol "." then
    refuseAtIf start (!cx.isModule || !(← atWord "meta"))
    advance
    finish start .expression []
  else
    refuseIf (!calls)
    let specifiers ← callArguments g cx
    refuseAtIf start (specifiers.isEmpty || specifiers.length > 2
      || specifiers.any fun t => t.kind = .spread)
    finish start .expression specifiers

/-- `new.target` belongs to a function or a class; within parameters, to one that is no arrow. -/
def allowsTarget (cx : Context) : Bool :=
  cx.inClass || (if cx.inParameters then cx.inOwnFunction else cx.inFunction)

def newExpression (g : Grammar) (cx : Context) : Parse Tree := do
  let start ← here
  expectWord "new"
  if ← eatSymbol "." then
    refuseIf (!(← atWord "target"))
    refuseAtIf start (!allowsTarget cx)
    advance
    finish start .expression []
  else
    refuseIf (← atWord "import")
    let callee ← g.leftHand cx false
    refuseIf (← atSymbol "?.")
    let generics ← if cx.typescript && (← atAnySymbol ["<", "<<"]) then
        pure ((← attempt (typeArguments g cx)).getD [])
      else pure []
    let arguments ← if ← atSymbol "(" then callArguments g cx else pure []
    finish start .expression (callee :: generics ++ arguments)

def superExpression (cx : Context) : Parse Tree := do
  let start ← here
  expectWord "super"
  refuseIf (!(← atAnySymbol [".", "[", "("]))
  refuseAtIf start (!cx.allowSuper && !(← atSymbol "("))
  finish start .superRef []

def primaryName (g : Grammar) (cx : Context) (calls : Bool) (name : String) :
    Parse Tree := do
  let start ← here
  if name == "this" then
    advance
    finish start .expression []
  else if name == "null" then literal .null
  else if name == "true" || name == "false" then literal .boolean
  else if name == "function" then functionFromKeyword g cx start false true true
  else if name == "class" then classRest g cx start [] true
  else if name == "new" then newExpression g cx
  else if name == "super" then superExpression cx
  else if name == "import" then importExpression g cx calls
  else if name == "async" then asyncExpression g cx
  else variableOrArrow g cx start false

def primary (g : Grammar) (cx : Context) (calls : Bool) : Parse Tree := do
  let start ← here
  match ← kind with
  | .name name escaped =>
    if escaped then variableOrArrow g cx start false else primaryName g cx calls name
  | .number legacy =>
    refuseLegacy cx legacy
    literal .number
  | .string _ legacy =>
    refuseLegacy cx legacy
    literal .string
  | .bigint => literal .bigint
  | .backquote => template g cx
  | .symbol text =>
    if text == "(" then parenthesized g cx start none
    else if text == "[" then arrayLiteral g cx start
    else if text == "\x7b" then objectLiteral g cx start
    else if text == "/" || text == "/=" then regex
    else if text == "@" then
      let decorators ← decorators g cx
      classRest g cx start decorators true
    else if cx.jsx && (← current).start.head? == some '<' then
      let (element, stop) ← g.element cx (← current).start
      resume stop
      return element
    else refuse
  | _ => refuse

/-! ## Members and calls -/

/-- An expression that members and calls extend, and whether it holds an optional link. -/
structure Chain where
  tree : Tree
  optional : Bool

def Chain.kind (c : Chain) (k : Kind) : Kind := if c.optional then .optionalChain else k

def memberName : Parse Unit := do
  if ← atPrivateName then advance
  else
    let _ ← anyName

/-- Whether type arguments may end before the current token, so that no comparison was meant. -/
def mayFollowTypeArguments : Parse Bool := do
  let token ← current
  match token.kind with
  | .backquote | .endOfText => return true
  | .symbol text =>
    if text == "(" then return true
    if ["<", ">", "+", "-"].contains text then return false
    if ["[", "\x7b", "/", "/=", "!", "~", "++", "--", "@"].contains text then return token.onNewLine
    return true
  | .name name false =>
    return token.onNewLine || ["in", "instanceof", "as", "satisfies", "of"].contains name
  | _ => return token.onNewLine

def instantiated (g : Grammar) (cx : Context) (chain : Chain) (calls : Bool) :
    Parse (Option Chain) :=
  attempt do
    let generics ← typeArguments g cx
    if calls && (← atSymbol "(") then
      let arguments ← callArguments g cx
      let tree ← finish chain.tree.start (chain.kind .expression)
        (chain.tree :: generics ++ arguments)
      return ⟨tree, chain.optional⟩
    else if (← kind) == .backquote then
      refuseIf chain.optional
      let (parts, _) ← templateParts g cx
      return ⟨← finish chain.tree.start .expression (chain.tree :: generics ++ parts), false⟩
    else
      refuseIf (!calls && (← atSymbol "("))
      refuseIf (!(← mayFollowTypeArguments))
      return ⟨← finish chain.tree.start .expression (chain.tree :: generics), false⟩

def optionalLink (g : Grammar) (cx : Context) (chain : Chain) : Parse Chain := do
  let start := chain.tree.start
  expectSymbol "?."
  if ← atSymbol "(" then
    let arguments ← callArguments g cx
    return ⟨← finish start .optionalChain (chain.tree :: arguments), true⟩
  else if ← eatSymbol "[" then
    let index ← g.expression cx.bracketed
    expectSymbol "]"
    return ⟨← finish start .optionalChain [chain.tree, index], true⟩
  else if cx.typescript && (← atAnySymbol ["<", "<<"]) then
    let generics ← typeArguments g cx
    let arguments ← callArguments g cx
    return ⟨← finish start .optionalChain (chain.tree :: generics ++ arguments), true⟩
  else
    memberName
    return ⟨← finish start .optionalChain [chain.tree], true⟩

/-- One link behind an expression, if there is one. -/
def link (g : Grammar) (cx : Context) (calls : Bool) (chain : Chain) :
    Parse (Option Chain) := do
  let start := chain.tree.start
  match ← kind with
  | .symbol "!" =>
    if cx.typescript && !(← onNewLine) then
      advance
      return some ⟨← finish start .typed [chain.tree], chain.optional⟩
    else return none
  | .symbol "?." =>
    refuseIf (!calls)
    return some (← optionalLink g cx chain)
  | .symbol "." =>
    advance
    memberName
    return some ⟨← finish start (chain.kind .member) [chain.tree], chain.optional⟩
  | .symbol "[" =>
    advance
    let index ← g.expression cx.bracketed
    expectSymbol "]"
    return some ⟨← finish start (chain.kind .member) [chain.tree, index], chain.optional⟩
  | .symbol "(" =>
    if !calls then return none
    let arguments ← callArguments g cx
    return some ⟨← finish start (chain.kind .expression) (chain.tree :: arguments), chain.optional⟩
  | .backquote =>
    refuseIf chain.optional
    let (parts, _) ← templateParts g cx
    return some ⟨← finish start .expression (chain.tree :: parts), false⟩
  | .symbol text =>
    if cx.typescript && (text == "<" || text == "<<") then instantiated g cx chain calls
    else return none
  | _ => return none

def leftHandExpression (g : Grammar) (cx : Context) (calls : Bool) : Parse Tree := do
  let first ← primary g cx calls
  if isArrow first then return first
  let chain ← loop (⟨first, false⟩ : Chain) fun chain => do
    match ← link g cx calls chain with
    | some longer => return (longer, true)
    | none => return (chain, false)
  return chain.tree

/-! ## Unary operators -/

/-- Whether an expression names a property, with or without parentheses. -/
def isProperty : Tree → Bool
  | .node .member _ (object :: _) => object.kind ≠ .superRef
  | .node .optionalChain _ _ => true
  | .node .parenthesized _ [inner] => isProperty inner
  | _ => false

/-- In strict code `delete` takes no variable, and with types it takes properties only. -/
def prefixed (g : Grammar) (cx : Context) : Parse Tree := do
  let start ← here
  let deleting ← atWord "delete"
  advance
  let operand ← g.unary cx
  refuseAtIf start (deleting && cx.strict && operand.kind matches .identifier _)
  refuseAtIf operand.start (deleting && cx.typescript && !isProperty operand)
  finish start .unary [operand]

/-- `await` waits within asynchronous functions and at the top of a module. -/
def awaitExpression (g : Grammar) (cx : Context) : Parse Tree := do
  let start ← here
  refuseIf (cx.inStaticBlock || cx.inParameters || (cx.inFunction && !cx.inAsync))
  advance
  finish start .unary [← g.unary cx]

def updated (g : Grammar) (cx : Context) : Parse Tree := do
  let start ← here
  advance
  let operand ← g.unary cx
  refuseAtIf operand.start (!isSimpleTarget cx.strict operand)
  finish start .expression [operand]

def typeAssertion (g : Grammar) (cx : Context) : Parse Tree := do
  let start ← here
  expectSymbol "<"
  let type ← if ← atWord "const" then
      let typeStart ← here
      advance
      finish typeStart .type []
    else g.type cx.bracketed
  expectClosingAngle
  let operand ← g.unary cx
  finish start .typed [operand, type]

def postfixed (g : Grammar) (cx : Context) : Parse Tree := do
  let operand ← leftHandExpression g cx true
  if (← atAnySymbol ["++", "--"]) && !(← onNewLine) then
    refuseAtIf operand.start (!isSimpleTarget cx.strict operand)
    advance
    finish operand.start .expression [operand]
  else return operand

def unaryExpression (g : Grammar) (cx : Context) : Parse Tree := do
  match ← kind with
  | .symbol text =>
    if ["+", "-", "!", "~"].contains text then prefixed g cx
    else if text == "++" || text == "--" then updated g cx
    else if text == "<" && cx.typescript && !cx.jsx then typeAssertion g cx
    else postfixed g cx
  | .name name false =>
    if ["typeof", "void", "delete"].contains name then prefixed g cx
    else if name == "await" && (cx.inAsync || cx.isModule) then awaitExpression g cx
    else postfixed g cx
  | _ => postfixed g cx

/-! ## Binary operators -/

/-- The strength and the kind of a binary operator. -/
def operatorOf (cx : Context) (kind : TokenKind) : Option (Nat × Operator) :=
  match kind with
  | .symbol text =>
    if text == "??" then some (1, .coalesce)
    else if text == "||" then some (1, .logicalOr)
    else if text == "&&" then some (2, .logicalAnd)
    else if text == "|" then some (3, .arithmetic)
    else if text == "^" then some (4, .arithmetic)
    else if text == "&" then some (5, .arithmetic)
    else if ["==", "!=", "===", "!=="].contains text then some (6, .comparison)
    else if ["<", ">", "<=", ">="].contains text then some (7, .comparison)
    else if ["<<", ">>", ">>>"].contains text then some (8, .arithmetic)
    else if text == "+" || text == "-" then some (9, .arithmetic)
    else if ["*", "/", "%"].contains text then some (10, .arithmetic)
    else if text == "**" then some (11, .arithmetic)
    else none
  | .name "instanceof" false => some (7, .comparison)
  | .name "in" false => if cx.allowIn then some (7, .comparison) else none
  | _ => none

/-- `??` does not mix with `&&` and `||` unless parentheses show what is meant. -/
def mixes (op : Operator) (operand : Tree) : Bool :=
  match op, operand.kind with
  | .coalesce, .binary .logicalAnd | .coalesce, .binary .logicalOr => true
  | .logicalAnd, .binary .coalesce | .logicalOr, .binary .coalesce => true
  | _, _ => false

/-- `value as type` and `value satisfies type`. -/
def converted (g : Grammar) (cx : Context) (value : Tree) : Parse Tree := do
  advance
  let type ← if ← atWord "const" then
      let start ← here
      advance
      finish start .type []
    else g.type { cx with noConditionalType := false }
  finish value.start .typed [value, type]

/-- Extends an operand by the operators that bind stronger than `floor`. -/
def binaryRest (g : Grammar) (cx : Context) : Nat → Nat → Tree → Parse Tree
  | 0, _, left => return left
  | fuel + 1, floor, left => do
    if isArrow left then return left
    if cx.typescript && floor < 7 && (← atAnyWord ["as", "satisfies"]) && !(← onNewLine) then
      binaryRest g cx fuel floor (← converted g cx left)
    else match operatorOf cx (← kind) with
      | none => return left
      | some (strength, op) =>
        if strength ≤ floor then return left
        refuseIf (strength = 11 && left.kind = .unary)
        advance
        let operand ← g.unary { cx with arrowStart := none }
        let right ← binaryRest g cx fuel (if strength = 11 then 10 else strength) operand
        refuseAtIf left.start (mixes op left || mixes op right)
        let tree ← finish left.start (.binary op) [left, right]
        binaryRest g cx fuel floor tree

/-- A private name stands on the left of `in` only. -/
def privateOperand (cx : Context) : Parse Tree := do
  let start ← here
  advance
  refuseIf (!cx.allowIn || !(← atWord "in"))
  finish start .expression []

def binaryExpression (g : Grammar) (cx : Context) : Parse Tree := do
  let left ← if ← atPrivateName then privateOperand cx else unaryExpression g cx
  binaryRest g cx (← rounds) 0 left

/-! ## Assignments and sequences -/

def yieldExpression (g : Grammar) (cx : Context) : Parse Tree := do
  let start ← here
  refuseIf cx.inParameters
  advance
  if ← eatSymbolIf (!(← onNewLine)) "*" then finish start .expression [← g.assignment cx]
  else if (← onNewLine) || (← atEnd) || (← atAnySymbol [")", "]", "\x7d", ",", ";", ":", "?"])
      || (← atAnyWord ["in", "of"]) then
    finish start .expression []
  else finish start .expression [← g.assignment cx]

def assignmentExpression (g : Grammar) (cx : Context) : Parse Tree := do
  let start ← here
  if cx.inGenerator && (← atWord "yield") then yieldExpression g cx
  else
    let generic ← if cx.typescript && (← atSymbol "<") then genericArrow? g cx start false
      else pure none
    match generic with
    | some arrow => return arrow
    | none =>
      let cx := { cx with arrowStart := some start }
      let test ← binaryExpression g cx
      assignmentRest g cx (← conditionalRest g cx test)

/-- One or more assignments with commas between them. -/
def commaExpression (g : Grammar) (cx : Context) : Parse Tree := do
  let first ← g.assignment cx
  if ← atSymbol "," then
    let more ← repeated do
      if ← eatSymbol "," then return some (← g.assignment cx) else return none
    finish first.start .expression (first :: more)
  else return first

end SpecCoverage.Program
