import SpecCoverage.Program.Tree

/-!
# Complexity

The cyclomatic complexity of a function is one more than the number of branches in it: conditions,
loops, cases and short-circuit operators, those of nested functions included.
-/

namespace SpecCoverage.Functions

open Program

/-- Whether control can go two ways at a node of this kind. -/
def isBranch : Kind → Bool
  | .ifStatement => true
  | .loop _ => true
  | .switchCase => true
  | .conditional => true
  | .binary .logicalAnd => true
  | .binary .logicalOr => true
  | _ => false

mutual

def branches : Tree → Nat
  | .node kind _ children => (if isBranch kind then 1 else 0) + branchesOfAll children

def branchesOfAll : List Tree → Nat
  | [] => 0
  | t :: rest => branches t + branchesOfAll rest

end

def complexity (function : Tree) : Nat := 1 + branches function

end SpecCoverage.Functions
