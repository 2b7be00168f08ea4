import SpecCoverage.Functions.Complexity
import SpecCoverage.Functions.Label
import SpecCoverage.Sorting
import SpecCoverage.Source.Span

/-!
# Discovery of functions

The named functions of a program: declarations, variables that hold a function, and methods.  Functions
without a body, without a name, with a computed or private key, accessors and constructors are not
listed.  `occurrences` finds them in a tree; `discover` describes each of them, in the order in which
their code begins.
-/

namespace SpecCoverage.Functions

open Program Sorting Source Text

inductive FunctionKind where
  | declaration
  | exported
  | binding
  | method
deriving DecidableEq, Repr

/-- A named function in a tree.  The extent is that of its code: a variable that holds a function
stands with its whole declaration. -/
structure Occurrence where
  name : String
  kind : FunctionKind
  extent : Extent
  function : Tree

structure Parameter where
  name : String
  type : Option String
deriving DecidableEq, Repr

structure Function where
  name : String
  parameters : List Parameter
  result : Option String
  kind : FunctionKind
  span : Span
  /-- The text of the span in the source. -/
  code : String
  fileName : String
  complexity : Nat
deriving DecidableEq, Repr

/-! ## Occurrences -/

def hasBody (children : List Tree) : Bool :=
  children.getLast?.any fun t => t.kind = .block

/-- The function that a value is, parentheses removed. -/
def functionValue? : Tree → Option Tree
  | .node .parenthesized _ [inner] => functionValue? inner
  | .node (.function .expression) e children => some (.node (.function .expression) e children)
  | .node (.function .arrow) e children => some (.node (.function .arrow) e children)
  | _ => none

/-- The occurrence that one declarator makes, as part of a declaration. -/
def bindingOccurrence? (extent : Extent) : Tree → Option Occurrence
  | .node .declarator _ [.node (.binding name) _ _, value] =>
    (functionValue? value).map fun function => ⟨name, .binding, extent, function⟩
  | _ => none

/-- The occurrences that a node makes by itself; the flag says whether it is what an export exports. -/
def nodeOccurrences (isExported : Bool) : Tree → List Occurrence
  | .node .variableDeclaration extent children => children.filterMap (bindingOccurrence? extent)
  | .node (.function (.declaration (some name))) extent children =>
    if hasBody children then
      [⟨name, if isExported then .exported else .declaration, extent,
        .node (.function (.declaration (some name))) extent children⟩]
    else []
  | .node (.function (.method (some name))) extent children =>
    if hasBody children && name ≠ "" then
      [⟨name, .method, extent, .node (.function (.method (some name))) extent children⟩]
    else []
  | _ => []

mutual

/-- The named functions of a tree, each before those within it. -/
def occurrences (isExported : Bool) : Tree → List Occurrence
  | .node kind extent children =>
    nodeOccurrences isExported (.node kind extent children)
      ++ occurrencesOfAll (kind = .exported) children

def occurrencesOfAll (isExported : Bool) : List Tree → List Occurrence
  | [] => []
  | t :: rest => occurrences isExported t ++ occurrencesOfAll isExported rest

end

/-- The occurrences in the order in which they start. -/
def orderedOccurrences (tree : Tree) : List Occurrence :=
  sorted (fun a b => a.extent.start ≤ b.extent.start) (occurrences false tree)

/-! ## Description -/

/-- The patterns of the parameters of a function. -/
def parameterPatterns (function : Tree) : List Tree :=
  function.children.filterMap fun t => if t.kind = .parameter then t.children.getLast? else none

/-- Describes an occurrence.  Positions count from behind a byte order mark, as the reader of the
program counts them; code and labels are cut out of the source as it is given. -/
def describe (source : List Char) (fileName : String) (o : Occurrence) : Function :=
  let span := Span.ofExtent (withoutMark source) o.extent.start o.extent.stop
  let doc := DocComment.preceding? source span.start
  { name := o.name
    parameters := (parameterPatterns o.function).map fun pattern =>
      ⟨parameterName pattern, parameterType? source doc pattern⟩
    result := resultType? source doc o.function
    kind := o.kind
    span
    code := String.ofList ((slice? source span.start span.stop).getD [])
    fileName
    complexity := complexity o.function }

/-- The named functions of a program in a source file. -/
def discover (tree : Tree) (source : List Char) (fileName : String) : List Function :=
  (orderedOccurrences tree).map (describe source fileName)

end SpecCoverage.Functions
