import SpecCoverage.Program.Declaration

/-!
# Statements

A statement stands on its own or in a list; only in a list may it be a declaration.
-/

namespace SpecCoverage.Program

/-! ## Parts of statements -/

def blockStatement (g : Grammar) (cx : Context) : Parse Tree := do
  let start ← here
  expectSymbol "\x7b"
  finish start .block (← statementsUntilBrace g cx)

def condition (g : Grammar) (cx : Context) : Parse Tree := do
  expectSymbol "("
  let test ← g.expression cx
  expectSymbol ")"
  return test

def loopBody (g : Grammar) (cx : Context) : Parse Tree :=
  g.statement { cx with inLoop := true, inBreakable := true }

/-! ## Loops -/

def expressionUntil (g : Grammar) (cx : Context) (close : String) : Parse (List Tree) := do
  let found ← if ← atSymbol close then pure [] else pure [← g.expression cx]
  expectSymbol close
  return found

/-- The rest of a counting loop, from behind its first part on. -/
def countingRest (g : Grammar) (cx : Context) (start : Nat) (first : List Tree) :
    Parse Tree := do
  expectSymbol ";"
  let test ← expressionUntil g cx ";"
  let update ← expressionUntil g cx ")"
  let body ← loopBody g cx
  finish start (.loop .counting) (first ++ test ++ update ++ [body])

def isAscribed (target : Tree) : Bool :=
  target.children.any fun t => t.kind = .ascription

/-- The variables of a loop over a collection are one declarator.  It has no type and no value, except
that a plain variable of a loop over keys may have one outside of strict code. -/
def refuseIterated (cx : Context) (overKeys isVar : Bool) (declared : Tree) : Parse Unit :=
  match declared.children with
  | [.node .declarator _ (target :: value)] =>
    let valueAllowed := overKeys && isVar && !cx.strict && isPlainBinding target
    refuseAtIf target.start (isAscribed target || (!value.isEmpty && !valueAllowed))
  | _ => refuseAt declared.start

def loopOver (g : Grammar) (cx : Context) (start : Nat) (target : Tree) : Parse Tree := do
  let overKeys ← atWord "in"
  advance
  let subject ← if overKeys then g.expression cx else g.assignment cx
  expectSymbol ")"
  let body ← loopBody g cx
  finish start (.loop (if overKeys then .overKeys else .overValues)) [target, subject, body]

def awaitsHere (cx : Context) : Bool :=
  cx.inAsync || (cx.isModule && !cx.inFunction && !cx.inStaticBlock)

def forStatement (g : Grammar) (cx : Context) : Parse Tree := do
  let start ← here
  expectWord "for"
  refuseIf ((← atWord "await") && !awaitsHere cx)
  let awaited ← eatWord "await"
  expectSymbol "("
  let head := { cx with allowIn := false }
  if (← atSymbol ";") && !awaited then countingRest g cx start []
  else
    let first ← current
    let declares := (← atAnyWord ["var", "const"]) || (← atLet)
    let initial ← if declares then headVariables g head else g.expression head
    if ← atAnyWord ["in", "of"] then
      let overKeys ← atWord "in"
      refuseIf (overKeys && awaited)
      if declares then
        refuseIterated cx overKeys (first.kind == .name "var" false) initial
        loopOver g cx start initial
      else
        refuseAtIf first.startOffset (!overKeys && !awaited && first.kind == .name "async" false
          && initial.kind = .identifier "async")
        loopOver g cx start (← toTarget cx.strict initial)
    else
      refuseIf awaited
      countingRest g cx start [initial]

def whileStatement (g : Grammar) (cx : Context) : Parse Tree := do
  let start ← here
  expectWord "while"
  let test ← condition g cx
  finish start (.loop .whileTrue) [test, ← loopBody g cx]

/-- A semicolon may follow the condition but need not. -/
def doStatement (g : Grammar) (cx : Context) : Parse Tree := do
  let start ← here
  expectWord "do"
  let body ← loopBody g cx
  expectWord "while"
  let test ← condition g cx
  let _ ← eatSymbol ";"
  finish start (.loop .doWhile) [body, test]

/-! ## Branches -/

/-- A branch of an `if`, which may be a plain function outside of strict code. -/
def branch (g : Grammar) (cx : Context) : Parse Tree := do
  if !cx.strict && (← atWord "function") then
    functionFromKeyword g cx (← here) false false false
  else g.statement cx

def ifStatement (g : Grammar) (cx : Context) : Parse Tree := do
  let start ← here
  expectWord "if"
  let test ← condition g cx
  let whenTrue ← branch g cx
  let whenFalse ← if ← eatWord "else" then pure [← branch g cx] else pure []
  finish start .ifStatement (test :: whenTrue :: whenFalse)

/-- One case of a `switch`, and whether it is the default. -/
def switchCase (g : Grammar) (cx : Context) : Parse (Tree × Bool) := do
  let start ← here
  let isDefault ← eatWord "default"
  let test ← if isDefault then pure [] else do
    expectWord "case"
    pure [← g.expression cx]
  expectSymbol ":"
  let body ← repeated do
    if (← atAnyWord ["case", "default"]) || (← atSymbol "\x7d") || (← atEnd) then return none
    return some (← g.listed cx)
  return (← finish start .switchCase (test ++ body), isDefault)

def switchStatement (g : Grammar) (cx : Context) : Parse Tree := do
  let start ← here
  expectWord "switch"
  let subject ← condition g cx
  expectSymbol "\x7b"
  let cases ← repeated do
    if (← atSymbol "\x7d") || (← atEnd) then return none
    return some (← switchCase g { cx with inBreakable := true })
  refuseIf ((cases.filter Prod.snd).length > 1)
  expectSymbol "\x7d"
  finish start .statement (subject :: cases.map Prod.fst)

def catchClause (g : Grammar) (cx : Context) : Parse (List Tree) := do
  let parameter ← if ← eatSymbol "(" then
      let target ← g.binding cx
      let target ← withAscription g cx target
      expectSymbol ")"
      pure [target]
    else pure []
  return parameter ++ [← blockStatement g cx]

def tryStatement (g : Grammar) (cx : Context) : Parse Tree := do
  let start ← here
  expectWord "try"
  let block ← blockStatement g cx
  let handler ← if ← eatWord "catch" then catchClause g cx else pure []
  let finalizer ← if ← eatWord "finally" then pure [← blockStatement g cx] else pure []
  refuseIf (handler.isEmpty && finalizer.isEmpty)
  finish start .statement (block :: handler ++ finalizer)

/-! ## Jumps and labels -/

/-- `break` or `continue`.  A label has to stand around it. -/
def jumpStatement (cx : Context) : Parse Tree := do
  let start ← here
  let continues ← atWord "continue"
  advance
  let target ← if (← atAnyName) && !(← onNewLine) then pure (some (← variableName cx)) else pure none
  expectSemicolon
  let known := target.all cx.labels.contains
  refuseAtIf start (!known || !(if continues then cx.inLoop else cx.inBreakable))
  finish start .statement []

def returnStatement (g : Grammar) (cx : Context) : Parse Tree := do
  let start ← here
  refuseIf (!cx.inFunction)
  expectWord "return"
  let value ← if ← atSemicolon then pure [] else pure [← g.expression cx]
  expectSemicolon
  finish start .returnStatement value

def throwStatement (g : Grammar) (cx : Context) : Parse Tree := do
  let start ← here
  expectWord "throw"
  refuseIf (← onNewLine)
  let value ← g.expression cx
  expectSemicolon
  finish start .statement [value]

def withStatement (g : Grammar) (cx : Context) : Parse Tree := do
  let start ← here
  refuseIf cx.strict
  expectWord "with"
  let subject ← condition g cx
  finish start .statement [subject, ← g.statement cx]

/-- A labelled statement, which may be a plain function outside of strict code. -/
def labelledStatement (g : Grammar) (cx : Context) : Parse Tree := do
  let start ← here
  let label ← variableName cx
  expectSymbol ":"
  refuseAtIf start (cx.labels.contains label)
  let inner := { cx with labels := label :: cx.labels, inBreakable := true }
  let body ← if (← atWord "function") && !cx.strict then do
      refuseIf (← peekSymbol "*")
      functionFromKeyword g inner (← here) false false false
    else g.statement inner
  finish start .statement [body]

def expressionStatement (g : Grammar) (cx : Context) : Parse Tree := do
  let start ← here
  refuseIf ((← atAnyWord ["function", "class"]) || ((← atWord "let") && (← peekSymbol "[")))
  refuseIf ((← atWord "async")
    && (← peekIs fun t => t.kind == .name "function" false && !t.onNewLine))
  let value ← g.expression cx
  expectSemicolon
  finish start .statement [value]

/-! ## Statements -/

def wordStatement (g : Grammar) (cx : Context) (word : String) : Parse Tree := do
  if word == "var" then variableStatement g cx (← here)
  else if word == "if" then ifStatement g cx
  else if word == "for" then forStatement g cx
  else if word == "while" then whileStatement g cx
  else if word == "do" then doStatement g cx
  else if word == "switch" then switchStatement g cx
  else if word == "try" then tryStatement g cx
  else if word == "break" || word == "continue" then jumpStatement cx
  else if word == "return" then returnStatement g cx
  else if word == "throw" then throwStatement g cx
  else if word == "with" then withStatement g cx
  else if word == "debugger" then
    let start ← here
    advance
    expectSemicolon
    finish start .statement []
  else expressionStatement g cx

/-- A statement that stands on its own. -/
def statement (g : Grammar) (cx : Context) : Parse Tree := do
  match ← kind with
  | .symbol text =>
    if text == "\x7b" then blockStatement g cx
    else if text == ";" then
      let start ← here
      advance
      finish start .statement []
    else expressionStatement g cx
  | .name word escaped =>
    if isVariableName cx word && (← peekSymbol ":") then labelledStatement g cx
    else if escaped then expressionStatement g cx
    else wordStatement g cx word
  | _ => expressionStatement g cx

/-- A statement or a declaration. -/
def listedStatement (g : Grammar) (cx : Context) : Parse Tree := do
  match ← declaration? g cx with
  | some tree => return tree
  | none => statement g cx

end SpecCoverage.Program
