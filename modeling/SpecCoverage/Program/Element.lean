import SpecCoverage.Program.Function

/-!
# Elements

Elements `<name attributes>children</name>` and fragments `<>children</>` as values.  Text between
elements has rules of its own, so an element is read from one cursor to another and no token behind it
is looked at.
-/

namespace SpecCoverage.Program

/-- The cursor at the next token behind a cursor. -/
def skipBlanks (c : Cursor) : Parse Cursor := do
  let (stop, _) ← skipTrivia (← get).classic .blank c.rest c.offset false
  return stop

/-- The characters between two cursors. -/
def textBetween (start stop : Cursor) : List Char :=
  start.rest.take (start.rest.length - stop.rest.length)

/-- One name, which may contain hyphens. -/
def hyphenatedName : Parse (List Char) := do
  let token ← current
  match token.kind with
  | .name .. =>
    let stop := readElementName token.start
    resume stop
    return textBetween token.start stop
  | _ => refuse

/-- The name of an element: plain, with a namespace, or with members; its pieces. -/
def elementName : Parse (List (List Char)) := do
  let first ← hyphenatedName
  if ← eatSymbol ":" then return [first, [':'], ← hyphenatedName]
  loop [first] fun pieces => do
    if ← eatSymbol "." then return (pieces ++ [['.'], ← hyphenatedName], true)
    else return (pieces, false)

/-- The cursor behind a closing angle bracket, where the element or its tag ends. -/
def behindAngle : Parse Cursor := do
  if ← atClosingAngle then return (← current).start.skip 1 else refuse

/-- `{expression}`, from the opening brace on to the closing one, which stays the current token. -/
def braced (g : Grammar) (cx : Context) (allowEmpty : Bool) : Parse (List Tree) := do
  expectSymbol "\x7b"
  let start ← here
  if ← atSymbol "\x7d" then
    refuseIf (!allowEmpty)
    return []
  else if ← eatSymbol "..." then
    refuseIf (!allowEmpty)
    let spread ← finish start .spread [← g.assignment cx.bracketed]
    refuseIf (!(← atSymbol "\x7d"))
    return [spread]
  else
    let expression ← g.expression cx.bracketed
    refuseIf (!(← atSymbol "\x7d"))
    return [expression]

/-- The value of an attribute, from the equals sign on. -/
def attributeValue (g : Grammar) (cx : Context) : Parse (List Tree) := do
  let start ← skipBlanks (← current).stop
  match start.head? with
  | some '"' | some '\'' =>
    resume (← readElementString start)
    return []
  | some '<' =>
    let (element, stop) ← g.element cx start
    resume stop
    return [element]
  | _ =>
    advance
    let expression ← braced g cx false
    advance
    return expression

def elementAttribute (g : Grammar) (cx : Context) : Parse (List Tree) := do
  if ← eatSymbol "\x7b" then
    let start ← here
    expectSymbol "..."
    let spread ← finish start .spread [← g.assignment cx.bracketed]
    expectSymbol "\x7d"
    return [spread]
  else
    let _ ← hyphenatedName
    if ← eatSymbol ":" then
      let _ ← hyphenatedName
    if ← atSymbol "=" then attributeValue g cx else return []

/-- The end of an opening tag: the cursor behind it, and whether the element ends there. -/
def tagEnd : Parse (Cursor × Bool) := do
  let token ← current
  if token.start.head? == some '/' then
    let stop ← skipBlanks (token.start.skip 1)
    if stop.head? == some '>' then return (stop.skip 1, true) else refuse
  else return (← behindAngle, false)

/-- The children of an element up to its closing tag, whose name has to be the same. -/
def elementChildren (g : Grammar) (cx : Context) (name : List (List Char))
    (start : Cursor) : Parse (List Tree × Cursor) := do
  let (found, stop, _) ← loop (([], start, false) : List Tree × Cursor × Bool)
    fun (found, cursor, _) => do
      let stop ← readElementText cursor
      if stop.head? == some '{' then
        resume stop
        let inner ← braced g cx true
        return ((found ++ inner, (← current).stop, false), true)
      else
        let next ← skipBlanks (stop.skip 1)
        if next.head? == some '/' then
          resume (next.skip 1)
          let closing ← if ← atClosingAngle then pure [] else elementName
          refuseIf (closing != name)
          return ((found, ← behindAngle, true), false)
        else
          let (element, last) ← g.element cx stop
          return ((found ++ [element], last, false), true)
  return (found, stop)

/-- An element or a fragment from its angle bracket on. -/
def elementAt (g : Grammar) (cx : Context) (start : Cursor) : Parse (Tree × Cursor) := do
  let cx := { cx.bracketed with inConditional := false }
  resume (start.skip 1)
  let finishAt (parts : List Tree) (stop : Cursor) : Parse (Tree × Cursor) :=
    return (.node .expression ⟨start.offset, stop.offset⟩ parts, stop)
  if ← atClosingAngle then
    let (children, stop) ← elementChildren g cx [] (← behindAngle)
    finishAt children stop
  else
    let name ← elementName
    let generics ← if cx.typescript && (← atSymbol "<") then typeArguments g cx else pure []
    let attributes ← repeated do
      if (← atSymbol "\x7b") || (← atAnyName) then return some (← elementAttribute g cx) else return none
    let parts := generics ++ attributes.flatten
    let (stop, closed) ← tagEnd
    if closed then finishAt parts stop
    else
      let (children, last) ← elementChildren g cx name stop
      finishAt (parts ++ children) last

end SpecCoverage.Program
