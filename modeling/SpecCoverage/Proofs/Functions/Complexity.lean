import Mathlib.Algebra.GroupWithZero.Nat
import SpecCoverage.Proofs.Functions.Unplaced
import SpecCoverage.Proofs.Program.Places

/-!
# Complexity of nested functions

The branches of a tree are those in its own nodes and those of the trees at which it is cut, wherever that is done
(`branches_eq_placesUpTo`).  Cut at the functions in it, a function has one more than its own branches, and what each
of its outermost nested functions has above one (`IsCompositional`).
-/

namespace SpecCoverage.Program

def Kind.isFunction : Kind → Bool
  | .function _ => true
  | _ => false

mutual

/-- The tree without parentheses around expressions. -/
def Tree.withoutParentheses : Tree → Tree
  | .node .parenthesized _ [inner] => inner.withoutParentheses
  | .node kind extent children => .node kind extent (withoutParenthesesAll children)

def Tree.withoutParenthesesAll : List Tree → List Tree
  | [] => []
  | t :: rest => t.withoutParentheses :: withoutParenthesesAll rest

end

end SpecCoverage.Program

namespace SpecCoverage.Functions

open Program

/-- The nodes at which control can go two ways. -/
def branchKinds : List Kind :=
  [.ifStatement, .loop .counting, .loop .overKeys, .loop .overValues, .loop .whileTrue, .loop .doWhile, .switchCase,
    .conditional, .binary .logicalAnd, .binary .logicalOr]

private theorem isBranch_eq (kind : Kind) : isBranch kind = decide (kind ∈ branchKinds) := by
  cases kind with
  | loop l => cases l <;> rfl
  | binary op => cases op <;> rfl
  | _ => rfl

/-! ## Branches of parts -/

mutual

/-- Where a tree is cut, the branches above the cuts add up with those of the trees below them. -/
theorem branches_eq_placesUpTo (stops : Kind → Bool) (t : Tree) :
    branches t = (placesUpTo stops t).countP (fun p => !stops p.2.kind && isBranch p.2.kind)
      + (((placesUpTo stops t).filter fun p => stops p.2.kind).map fun p => branches p.2).sum := by
  obtain ⟨kind, extent, children⟩ := t
  cases stop : stops kind with
  | true => simp [placesUpTo, stop]
  | false =>
    have below := branchesOfAll_eq_placesInAll stops children 0
    simp only [placesUpTo, branches, stop, Bool.false_eq_true, if_false, List.countP_cons, Tree.kind_node,
      List.filter_cons, Bool.not_false, Bool.true_and]
    omega

private theorem branchesOfAll_eq_placesInAll (stops : Kind → Bool) (ts : List Tree) (number : Nat) :
    branchesOfAll ts = (placesInAll stops number ts).countP (fun p => !stops p.2.kind && isBranch p.2.kind)
      + (((placesInAll stops number ts).filter fun p => stops p.2.kind).map fun p => branches p.2).sum := by
  cases ts with
  | nil => rfl
  | cons t ts =>
    have first := branches_eq_placesUpTo stops t
    have others := branchesOfAll_eq_placesInAll stops ts (number + 1)
    simp only [placesInAll, branchesOfAll, List.countP_append, List.filter_append, List.map_append, List.sum_append,
      List.countP_map, List.filter_map, List.map_map, Function.comp_def]
    omega

end

private theorem branches_le_of_mem {t : Tree} {ts : List Tree} (mem : t ∈ ts) : branches t ≤ branchesOfAll ts := by
  induction ts with
  | nil => cases mem
  | cons u ts ih =>
    rw [branchesOfAll]
    rcases List.mem_cons.1 mem with rfl | mem
    · omega
    · have := ih mem
      omega

/-- What stands in a tree has no more branches than the tree. -/
private theorem branches_le_of_standsIn {t u : Tree} (h : StandsIn u t) : branches u ≤ branches t := by
  induction h with
  | root => exact Nat.le_refl _
  | child mem _ ih =>
    have := branches_le_of_mem mem
    rw [branches]
    omega

mutual

private theorem branches_withoutParentheses (t : Tree) : branches t.withoutParentheses = branches t := by
  fun_cases Tree.withoutParentheses t with
  | case1 extent inner => simp [branches, branchesOfAll, isBranch, branches_withoutParentheses inner]
  | case2 kind extent children => rw [branches, branches, branchesOfAll_withoutParenthesesAll children]

private theorem branchesOfAll_withoutParenthesesAll (ts : List Tree) :
    branchesOfAll (Tree.withoutParenthesesAll ts) = branchesOfAll ts := by
  cases ts with
  | nil => rfl
  | cons t ts =>
    rw [Tree.withoutParenthesesAll, branchesOfAll, branchesOfAll, branches_withoutParentheses t,
      branchesOfAll_withoutParenthesesAll ts]

end

/-! ## Functions in functions -/

/-- The complexity of a function is made up of what stands in no nested function, and of the nested functions. -/
structure IsCompositional (function : Tree) : Prop where
  /-- The places below the function, down to the outermost functions nested in it. -/
  own_add_nested : ∃ places : List (List Nat × Tree),
    places.Pairwise (fun a b => a.1 < b.1) ∧
      (∀ path u, (path, u) ∈ places ↔ ∃ i rest child, path = i :: rest ∧ function.children[i]? = some child ∧
        child.StandsAt Kind.isFunction rest u) ∧
      complexity function = 1 + places.countP (fun p => p.2.kind ∈ branchKinds)
        + ((places.filter fun p => p.2.kind.isFunction).map fun p => complexity p.2 - 1).sum
  one_le : 1 ≤ complexity function
  nested_le : ∀ nested, StandsIn nested function → nested.kind.isFunction = true →
    complexity nested ≤ complexity function
  parentheses : ∀ other : Tree, other.withoutParentheses.unplaced = function.withoutParentheses.unplaced →
    complexity other = complexity function

private theorem complexity_sub_one (t : Tree) : complexity t - 1 = branches t := Nat.add_sub_cancel_left 1 _

private theorem not_isFunction_of_isBranch {kind : Kind} (h : isBranch kind = true) : kind.isFunction = false := by
  cases kind with
  | function form => cases h
  | _ => rfl

theorem isCompositional_function (form : FunctionForm) (extent : Extent) (children : List Tree) :
    IsCompositional (.node (.function form) extent children) where
  own_add_nested := by
    refine ⟨placesInAll Kind.isFunction 0 children, pairwise_placesInAll children 0, fun path u => ?_, ?_⟩
    · simp only [mem_placesInAll, Nat.zero_add]
      rfl
    · have own (p : List Nat × Tree) : decide (p.2.kind ∈ branchKinds) = (!p.2.kind.isFunction && isBranch p.2.kind) := by
        rw [← isBranch_eq]
        cases branch : isBranch p.2.kind with
        | false => rw [Bool.and_false]
        | true => rw [not_isFunction_of_isBranch branch]; rfl
      have parts := branchesOfAll_eq_placesInAll Kind.isFunction children 0
      simp only [own, complexity_sub_one]
      rw [complexity, branches, parts]
      simp [isBranch, Nat.add_assoc]
  one_le := Nat.le_add_right 1 _
  nested_le nested stands _ := Nat.add_le_add_left (branches_le_of_standsIn stands) 1
  parentheses other same := by
    have complexity_eq (t : Tree) : complexity t.withoutParentheses.unplaced = complexity t := by
      rw [complexity_unplaced, complexity, branches_withoutParentheses, complexity]
    rw [← complexity_eq other, same, complexity_eq]

end SpecCoverage.Functions
