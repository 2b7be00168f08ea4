/-!
# Sorting

`sorted` puts the elements of a list in an order, by insertion.  Elements that may precede one another keep their places.
-/

namespace SpecCoverage.Sorting

/-- Puts an element into a list, in front of the first element that it may precede. -/
def insertSorted {α : Type} (le : α → α → Bool) (x : α) : List α → List α
  | [] => [x]
  | y :: ys => if le x y then x :: y :: ys else y :: insertSorted le x ys

/-- The elements of a list in order, where `le x y` says that `x` may precede `y`. -/
def sorted {α : Type} (le : α → α → Bool) : List α → List α
  | [] => []
  | x :: xs => insertSorted le x (sorted le xs)

end SpecCoverage.Sorting
