import SpecCoverage.Program.Expression
import SpecCoverage.Program.Module
import SpecCoverage.Text.Bytes

/-!
# Reading programs

`rulesOfDepth` ties the rules of the grammar together, down to a depth of nested rules that no text of
the given length needs.  `readProgram` reads a whole text.
-/

namespace SpecCoverage.Program

open Source

/-- The rules of the language, where each may lead to `depth` others one within the other. -/
def rulesOfDepth : Nat → Grammar
  | 0 =>
    { assignment := fun _ => refuse
      expression := fun _ => refuse
      binary := fun _ => refuse
      unary := fun _ => refuse
      leftHand := fun _ _ => refuse
      binding := fun _ => refuse
      statement := fun _ => refuse
      listed := fun _ => refuse
      moduleItem := fun _ => refuse
      type := fun _ => refuse
      element := fun _ _ => refuse }
  | n + 1 =>
    { assignment := fun cx => assignmentExpression (rulesOfDepth n) cx
      expression := fun cx => commaExpression (rulesOfDepth n) cx
      binary := fun cx => binaryExpression (rulesOfDepth n) cx
      unary := fun cx => unaryExpression (rulesOfDepth n) cx
      leftHand := fun cx calls => leftHandExpression (rulesOfDepth n) cx calls
      binding := fun cx => bindingTarget (rulesOfDepth n) cx
      statement := fun cx => statement (rulesOfDepth n) cx
      listed := fun cx => listedStatement (rulesOfDepth n) cx
      moduleItem := fun cx => moduleItem (rulesOfDepth n) cx
      type := fun cx => typeExpression (rulesOfDepth n) cx
      element := fun cx start => elementAt (rulesOfDepth n) cx start }

mutual

/-- Whether an object with a member `name = value` has not become a pattern. -/
def hasStrayDefault : Tree → Bool
  | .node (.shorthandDefault _) _ _ => true
  | .node _ _ children => haveStrayDefault children

def haveStrayDefault : List Tree → Bool
  | [] => false
  | t :: rest => hasStrayDefault t || haveStrayDefault rest

end

def outermost (dialect : Dialect) (strict : Bool) : Context :=
  { dialect
    strict := dialect.goal = .module || strict
    ambient := dialect.declaration
    mustDeclare := dialect.declaration && dialect.typescript }

def programRule (g : Grammar) (dialect : Dialect) : Parse Tree := do
  let cx := outermost dialect (← asksForStrict)
  let items ← repeated do
    if ← atEnd then return none
    return some (← g.moduleItem cx)
  if !(← atEnd) then refuse
  return .node .program ⟨0, (← get).size⟩ items

/-- The tree of a program, or the place where the text stops being one. -/
def readProgram (dialect : Dialect) (text : List Char) : Except Failure Tree := do
  let classic := dialect.goal = .script
  let token ← readFirstToken classic ⟨text, 0⟩
  let size := Text.byteLength text
  let (tree, _) ← programRule (rulesOfDepth (16 * (size + 1))) dialect ⟨token, 0, size, classic⟩
  if hasStrayDefault tree then throw ⟨0⟩ else return tree

end SpecCoverage.Program
