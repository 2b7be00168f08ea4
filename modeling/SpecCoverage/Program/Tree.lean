/-!
# Syntax trees

A program is a tree of labelled nodes.  The label says what construct the node is and carries the facts
that later readers ask for: names, operators, the form of a function.  The extent is the part of the
text that the construct takes, from the byte `start` up to the byte `stop`, and the children stand in
the order in which they are written.

Conventions on children:

* a function holds its decorators, its computed key if it has one, its parameters, the ascription of
  its result and last its body: a `block`, or for an arrow possibly an expression; a function without a
  body ends in one of the others;
* a `parameter` holds its decorators and last its pattern;
* an `ascription` has the extent of the type that it states, and holds it;
* a `binding`, an `arrayPattern`, an `objectPattern` and a `restPattern` end in their ascription if they
  have one; an `assignmentPattern` holds the pattern and the default value;
* a `variableDeclaration` holds its declarators, a `declarator` its target and then its initial value;
* `exported` holds the declaration that is exported.
-/

namespace SpecCoverage.Program

structure Extent where
  start : Nat
  stop : Nat
deriving DecidableEq, Repr, Inhabited

inductive Literal where
  | string
  | number
  | boolean
  | bigint
  | null
  | regex
deriving DecidableEq, Repr

/-- Binary operators, apart as far as they differ in the type of their result or in control flow. -/
inductive Operator where
  | comparison
  | logicalAnd
  | logicalOr
  | coalesce
  | arithmetic
deriving DecidableEq, Repr

inductive Loop where
  | counting
  | overKeys
  | overValues
  | whileTrue
  | doWhile
deriving DecidableEq, Repr

/-- A method is named when its key is an identifier or a string. -/
inductive FunctionForm where
  | declaration (name : Option String)
  | expression
  | arrow
  | method (name : Option String)
  | constructor
  | accessor
  | objectMethod
deriving DecidableEq, Repr

inductive Kind where
  | program
  -- declarations
  | exported
  | function (form : FunctionForm)
  | parameter
  | ascription
  | variableDeclaration
  | declarator
  | classLike
  | field
  | staticBlock
  | decorator
  -- patterns
  | binding (name : String)
  | arrayPattern
  | objectPattern
  | assignmentPattern
  | restPattern
  -- expressions
  | identifier (name : String)
  | literal (literal : Literal)
  | array
  | hole
  | object
  | keyValue
  | shorthand (name : String)
  | shorthandDefault (name : String)
  | spread
  | key
  | parenthesized
  | unary
  | binary (op : Operator)
  | conditional
  | assignment (plain : Bool)
  | member
  | optionalChain
  | superRef
  | typed
  | expression
  -- statements
  | block
  | ifStatement
  | loop (loop : Loop)
  | switchCase
  | returnStatement
  | statement
  -- types
  | type
deriving DecidableEq, Repr

inductive Tree where
  | node (kind : Kind) (extent : Extent) (children : List Tree)
deriving Repr

namespace Tree

def kind : Tree → Kind
  | node k _ _ => k

def extent : Tree → Extent
  | node _ e _ => e

def children : Tree → List Tree
  | node _ _ cs => cs

def start (t : Tree) : Nat := t.extent.start

def stop (t : Tree) : Nat := t.extent.stop

end Tree

end SpecCoverage.Program
