import SpecCoverage.Functions.DocComment
import SpecCoverage.Program.Tree

/-!
# Labels

What the report calls the parameters of a function, and the types it gives for them and for the result.
A type is taken from the ascription, else from the doc comment, else from what the code shows: the
default value of a parameter, or what the function's own `return` statements give.
-/

namespace SpecCoverage.Functions

open Program Text

/-! ## Parameters -/

/-- The name of a parameter.  A pattern has a stand-in that shows its brackets. -/
def parameterName : Tree → String
  | .node (.binding name) _ _ => name
  | .node .assignmentPattern _ (target :: _) => parameterName target
  | .node .restPattern _ (.node (.binding name) _ _ :: _) => "..." ++ name
  | .node .objectPattern _ _ => "\x7b...\x7d"
  | .node .arrayPattern _ _ => "[...]"
  | _ => "param"

/-- The ascription among the parts of a pattern. -/
def ownAscription? (children : List Tree) : Option Tree :=
  children.find? fun t => t.kind = .ascription

def parameterAscription? : Tree → Option Tree
  | .node (.binding _) _ children => ownAscription? children
  | .node .assignmentPattern _ (target :: _) => parameterAscription? target
  | .node .restPattern _ (target :: rest) => (ownAscription? rest).or (parameterAscription? target)
  | .node .objectPattern _ children => ownAscription? children
  | .node .arrayPattern _ children => ownAscription? children
  | _ => none

/-- The text of an ascription in its source, unless it is blank. -/
def ascriptionText? (source : List Char) (ascription : Tree) : Option String :=
  (slice? source ascription.start ascription.stop).bind fun text =>
    let trimmed := trim text
    if trimmed.isEmpty then none else some (String.ofList trimmed)

/-- The type that a default value shows. -/
def defaultType? : Tree → Option String
  | .node .parenthesized _ [inner] => defaultType? inner
  | .node (.literal .string) _ _ => some "string"
  | .node (.literal .number) _ _ => some "number"
  | .node (.literal .boolean) _ _ => some "boolean"
  | .node .array _ _ => some "Array"
  | .node .object _ _ => some "Object"
  | _ => none

def shownParameterType? : Tree → Option String
  | .node .assignmentPattern _ [_, value] => defaultType? value
  | _ => none

def parameterType? (source : List Char) (doc : Option DocComment) (pattern : Tree) : Option String :=
  ((parameterAscription? pattern).bind (ascriptionText? source)).or <|
    (doc.bind fun d => d.parameterType? (parameterName pattern)).or (shownParameterType? pattern)

/-! ## Results -/

def literalType : Literal → String
  | .string => "string"
  | .number => "number"
  | .boolean => "boolean"
  | .bigint => "bigint"
  | .null => "object"
  | .regex => "object"

/-- The type of the result of an operator; that of `&&`, `||` and `??` is one of their operands'. -/
def operatorType? : Operator → Option String
  | .comparison => some "boolean"
  | .arithmetic => some "number"
  | .logicalAnd => none
  | .logicalOr => none
  | .coalesce => none

/-- The type that an expression shows. -/
def expressionType? : Tree → Option String
  | .node .parenthesized _ [inner] => expressionType? inner
  | .node (.literal l) _ _ => some (literalType l)
  | .node .array _ _ => some "Array"
  | .node .object _ _ => some "Object"
  | .node (.binary op) _ _ => operatorType? op
  | _ => none

mutual

/-- The `return` statements in a tree that lie in no function within it, each with its argument. -/
def ownReturns : Tree → List (Option Tree)
  | .node (.function _) _ _ => []
  | .node .returnStatement _ children => [children.head?]
  | .node _ _ children => ownReturnsOfAll children

def ownReturnsOfAll : List Tree → List (Option Tree)
  | [] => []
  | t :: rest => ownReturns t ++ ownReturnsOfAll rest

end

/-- What is known of a result after one more `return`: a type that shows replaces what was known, and
a `return` without a value only fills a gap. -/
def observe (known : Option String) : Option Tree → Option String
  | none => known.or (some "void")
  | some argument => (expressionType? argument).or known

/-- The type that the body of a function shows for the result. -/
def shownResultType? (function : Tree) : Option String :=
  match function.children.getLast? with
  | some body =>
    if body.kind = .block then (ownReturns body).foldl observe none
    else if function.kind = .function .arrow then expressionType? body
    else none
  | none => none

def resultType? (source : List Char) (doc : Option DocComment) (function : Tree) : Option String :=
  ((ownAscription? function.children).bind (ascriptionText? source)).or <|
    (doc.bind DocComment.resultType?).or (shownResultType? function)

end SpecCoverage.Functions
