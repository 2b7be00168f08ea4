import SpecCoverage.Program.Lexer
import SpecCoverage.Program.Tree
import SpecCoverage.Source.Language

/-!
# The grammar

A reader of a construct is a function of the state to the tree of the construct and the state behind
it, or to the place where the text stops being a program.  The state holds one token ahead.

The rules of the language refer to each other in a circle.  `Grammar` is the record of the rules that
close the circle; each rule is written as a function of a `Grammar`, and `Program.Reader` ties the knot.
What a rule may do depends on where it stands; `Context` says so.
-/

namespace SpecCoverage.Program

open Source

structure State where
  token : Token
  /-- Where the token before the current one ends. -/
  lastStop : Nat
  /-- The bytes of the whole text. -/
  size : Nat
  classic : Bool

abbrev Parse := StateT State (Except Failure)

/-- What the place of a construct allows. -/
structure Context where
  dialect : Dialect
  strict : Bool
  /-- Whether `in` is an operator here; it is not in the head of a loop. -/
  allowIn : Bool := true
  inFunction : Bool := false
  /-- Whether a function that is not an arrow stands around. -/
  inOwnFunction : Bool := false
  inAsync : Bool := false
  inGenerator : Bool := false
  inParameters : Bool := false
  inClass : Bool := false
  /-- Whether `super.name` may be written. -/
  allowSuper : Bool := false
  inField : Bool := false
  inStaticBlock : Bool := false
  ambient : Bool := false
  inNamespace : Bool := false
  /-- Whether a declaration has to begin with `declare` or `export`, as at the top of a declaration
  file. -/
  mustDeclare : Bool := false
  /-- Whether `break` and `continue` without a label have a target. -/
  inBreakable : Bool := false
  inLoop : Bool := false
  /-- The labels around. -/
  labels : List String := []
  /-- Within a conditional expression, and whether its colon is still to come. -/
  inConditional : Bool := false
  colonExpected : Bool := false
  noConditionalType : Bool := false
  /-- Where an arrow function may start: at the start of an assignment only. -/
  arrowStart : Option Nat := none

namespace Context

def typescript (cx : Context) : Bool := cx.dialect.typescript

def jsx (cx : Context) : Bool := cx.dialect.jsx

def isModule (cx : Context) : Bool := cx.dialect.goal = .module

/-- The context of the body or the parameters of a function. -/
def function (cx : Context) (isArrow isAsync isGenerator : Bool) : Context :=
  { cx with
    allowIn := true
    inFunction := true
    inOwnFunction := cx.inOwnFunction || !isArrow
    inAsync := isAsync
    inGenerator := isGenerator
    inParameters := false
    inField := cx.inField && isArrow
    inStaticBlock := false
    inBreakable := false
    inLoop := false
    labels := []
    inConditional := false
    colonExpected := false
    noConditionalType := false
    arrowStart := none }

/-- The context between brackets, where nothing of a head or a conditional matters. -/
def bracketed (cx : Context) : Context :=
  { cx with allowIn := true, colonExpected := false, arrowStart := none }

end Context

/-- The rules that other rules refer to before they are defined. -/
structure Grammar where
  assignment : Context → Parse Tree
  expression : Context → Parse Tree
  binary : Context → Parse Tree
  unary : Context → Parse Tree
  /-- Members and, if the flag says so, calls. -/
  leftHand : Context → Bool → Parse Tree
  binding : Context → Parse Tree
  statement : Context → Parse Tree
  /-- A statement of a list, where declarations may stand too. -/
  listed : Context → Parse Tree
  moduleItem : Context → Parse Tree
  type : Context → Parse Tree
  /-- An element from its angle bracket on, with the cursor behind it. -/
  element : Context → Cursor → Parse (Tree × Cursor)

/-! ## Looking at tokens -/

def current : Parse Token := do return (← get).token

def kind : Parse TokenKind := do return (← get).token.kind

/-- The byte position of the current token. -/
def here : Parse Nat := do return (← get).token.startOffset

def lastStop : Parse Nat := do return (← get).lastStop

def onNewLine : Parse Bool := do return (← get).token.onNewLine

def refuse {α : Type} : Parse α := do throw ⟨← here⟩

def refuseAt {α : Type} (offset : Nat) : Parse α := throw ⟨offset⟩

def refuseIf (condition : Bool) : Parse Unit := if condition then refuse else pure ()

def refuseAtIf (offset : Nat) (condition : Bool) : Parse Unit :=
  if condition then refuseAt offset else pure ()

def atSymbol (text : String) : Parse Bool := do return (← kind) == .symbol text

def atAnySymbol (texts : List String) : Parse Bool := do
  match ← kind with
  | .symbol text => return texts.contains text
  | _ => return false

/-- Whether the current token is this keyword, spelled without escapes. -/
def atWord (text : String) : Parse Bool := do return (← kind) == .name text false

def atAnyWord (texts : List String) : Parse Bool := do
  match ← kind with
  | .name text false => return texts.contains text
  | _ => return false

def atAnyName : Parse Bool := do
  match ← kind with
  | .name .. => return true
  | _ => return false

def atPrivateName : Parse Bool := do
  match ← kind with
  | .privateName _ => return true
  | _ => return false

def atEnd : Parse Bool := do return (← kind) == .endOfText

/-! ## Moving on -/

def advance : Parse Unit := do
  let s ← get
  let token ← readToken s.classic s.token.stop
  set { s with token, lastStop := s.token.stopOffset }

/-- Goes on with the token behind a cursor, which ends something read by other means. -/
def resume (c : Cursor) : Parse Unit := do
  let s ← get
  let token ← readToken s.classic c
  set { s with token, lastStop := c.offset }

/-- Takes the first character of the current symbol as a symbol of its own. -/
def advanceByOne : Parse Unit := do
  let s ← get
  let behind := s.token.start.skip 1
  let token ← readTokenAt false behind
  set { s with token, lastStop := behind.offset }

def eatSymbol (text : String) : Parse Bool := do
  if ← atSymbol text then advance; return true else return false

def eatWord (text : String) : Parse Bool := do
  if ← atWord text then advance; return true else return false

/-- Takes a symbol where the condition allows it. -/
def eatSymbolIf (condition : Bool) (text : String) : Parse Bool :=
  if condition then eatSymbol text else return false

/-- Takes a word where the condition allows it. -/
def eatWordIf (condition : Bool) (text : String) : Parse Bool :=
  if condition then eatWord text else return false

def expectSymbol (text : String) : Parse Unit := do
  if ← atSymbol text then advance else refuse

def expectWord (text : String) : Parse Unit := do
  if ← atWord text then advance else refuse

/-- The token behind the current one, if there is one. -/
def peek : Parse (Option Token) := do
  let s ← get
  match readToken s.classic s.token.stop with
  | .ok token => return some token
  | .error _ => return none

def peekIs (p : Token → Bool) : Parse Bool := do return (← peek).any p

def peekSymbol (text : String) : Parse Bool := peekIs (·.kind == .symbol text)

def Token.isName (t : Token) : Bool :=
  match t.kind with
  | .name .. => true
  | _ => false

def Token.isString (t : Token) : Bool :=
  match t.kind with
  | .string .. => true
  | _ => false

/-! ## Choice and repetition -/

/-- Tries a rule and stays where it was if the rule does not apply. -/
def attempt {α : Type} (rule : Parse α) : Parse (Option α) := fun s =>
  match rule s with
  | .ok (a, s') => .ok (some a, s')
  | .error _ => .ok (none, s)

/-- Asks a rule for an answer and stays where it was. -/
def glance {α : Type} (rule : Parse α) : Parse (Option α) := fun s =>
  match rule s with
  | .ok (a, _) => .ok (some a, s)
  | .error _ => .ok (none, s)

/-- More rounds than a loop can make that reads a token in each. -/
def rounds : Parse Nat := do
  let s ← get
  return s.size + 2 - s.token.startOffset

def repeatFor {α : Type} (step : Parse (Option α)) : Nat → Parse (List α)
  | 0 => return []
  | n + 1 => do
    match ← step with
    | some a => return a :: (← repeatFor step n)
    | none => return []

/-- The answers of a rule up to the first time that it gives none. -/
def repeated {α : Type} (step : Parse (Option α)) : Parse (List α) := do
  repeatFor step (← rounds)

def loopFor {σ : Type} (step : σ → Parse (σ × Bool)) : Nat → σ → Parse σ
  | 0, s => return s
  | n + 1, s => do
    let (next, more) ← step s
    if more then loopFor step n next else return next

/-- Changes a value step by step as long as the step says so. -/
def loop {σ : Type} (start : σ) (step : σ → Parse (σ × Bool)) : Parse σ := do
  loopFor step (← rounds) start

/-- Items with commas between them, up to a closing symbol, which is read too.  A comma may stand
before the closing symbol; the flag says whether one does. -/
def listedUntil {α : Type} (close : String) (item : Parse α) : Parse (List α × Bool) := do
  let (items, trailing) ← loop (([], false) : List α × Bool) fun (items, trailing) => do
    if ← atSymbol close then return ((items, trailing), false)
    let a ← item
    if ← atSymbol close then return ((a :: items, false), false)
    expectSymbol ","
    return ((a :: items, true), true)
  expectSymbol close
  return (items.reverse, trailing)

/-- Ends a construct that began at `start`. -/
def finish (start : Nat) (kind : Kind) (children : List Tree) : Parse Tree := do
  return .node kind ⟨start, ← lastStop⟩ children

/-- A semicolon, or a place where one may be left out. -/
def atSemicolon : Parse Bool := do
  return (← atAnySymbol [";", "\x7d"]) || (← atEnd) || (← onNewLine)

def expectSemicolon : Parse Unit := do
  if ← eatSymbol ";" then return ()
  if ← atSemicolon then return ()
  refuse

/-! ## Names -/

def reservedWords : List String :=
  ["break", "case", "catch", "class", "const", "continue", "debugger", "default", "delete", "do",
   "else", "enum", "export", "extends", "false", "finally", "for", "function", "if", "import", "in",
   "instanceof", "new", "null", "return", "super", "switch", "this", "throw", "true", "try", "typeof",
   "var", "void", "while", "with"]

def strictWords : List String :=
  ["implements", "interface", "let", "package", "private", "protected", "public", "static", "yield"]

/-- Whether a name may stand for a variable. -/
def isVariableName (cx : Context) (name : String) : Bool :=
  !(reservedWords.contains name || (cx.strict && strictWords.contains name)
    || (name == "yield" && cx.inGenerator)
    || (name == "await" && (cx.isModule || cx.inAsync || cx.inStaticBlock)))

def atVariable (cx : Context) : Parse Bool := do
  match ← kind with
  | .name name _ => return isVariableName cx name
  | _ => return false

/-- The name of a variable that is used. -/
def variableName (cx : Context) : Parse String := do
  match ← kind with
  | .name name _ =>
    refuseIf (!isVariableName cx name || (name == "arguments" && cx.inField))
    advance
    return name
  | _ => refuse

/-- The name of a variable that is declared. -/
def boundName (cx : Context) : Parse String := do
  match ← kind with
  | .name name _ =>
    refuseIf (!isVariableName cx name || (cx.strict && (name == "eval" || name == "arguments")))
    advance
    return name
  | _ => refuse

/-- Any name, keywords included. -/
def anyName : Parse String := do
  match ← kind with
  | .name name _ => advance; return name
  | _ => refuse

/-- A closing angle bracket, which may be the first character of a longer symbol. -/
def expectClosingAngle : Parse Unit := do
  let token ← current
  match token.kind with
  | .symbol text =>
    if text == ">" then advance
    else if token.start.head? == some '>' then advanceByOne
    else refuse
  | _ => refuse

def atClosingAngle : Parse Bool := do
  let token ← current
  match token.kind with
  | .symbol _ => return token.start.head? == some '>'
  | _ => return false

/-- An opening angle bracket, which may be the first character of a longer symbol. -/
def expectOpeningAngle : Parse Unit := do
  let token ← current
  match token.kind with
  | .symbol text =>
    if text == "<" then advance
    else if text == "<<" then advanceByOne
    else refuse
  | _ => refuse

end SpecCoverage.Program
