import Mathlib.Data.List.Forall2
import Mathlib.Data.List.Sort
import SpecCoverage.Sorting

/-!
# Sorted lists

`sorted` is insertion sort (`sorted_eq_insertionSort`), so that its result has the same elements (`sorted_perm`), stands
in order (`sorted_pairwise`), and is the list itself if that stands in order already (`sorted_eq_self`).

Elements that must all precede the others are sorted apart from them (`sorted_eq_append`), a part of a sorted list is
the part sorted (`filter_sorted`), a function that keeps the order of any two elements keeps that of a sorted list
(`sorted_map`), and so does a relation (`forall₂_sorted`).  Two elements change places only if the later one must precede
the earlier one (`pairwise_sorted`).
-/

namespace SpecCoverage.Sorting

variable {α β : Type}

private theorem insertSorted_eq_orderedInsert (le : α → α → Bool) (x : α) (l : List α) :
    insertSorted le x l = l.orderedInsert (fun y z => le y z = true) x := by
  induction l with
  | nil => rfl
  | cons y ys ih => rw [insertSorted, ih, List.orderedInsert_cons]

theorem sorted_eq_insertionSort (le : α → α → Bool) (l : List α) :
    sorted le l = l.insertionSort fun x y => le x y = true := by
  induction l with
  | nil => rfl
  | cons x xs ih => rw [sorted, ih, insertSorted_eq_orderedInsert, List.insertionSort_cons]

theorem sorted_perm (le : α → α → Bool) (l : List α) : (sorted le l).Perm l := by
  rw [sorted_eq_insertionSort]
  exact List.perm_insertionSort _ l

theorem sorted_pairwise {le : α → α → Bool} (total : ∀ x y, le x y = true ∨ le y x = true)
    (trans : ∀ x y z, le x y = true → le y z = true → le x z = true) (l : List α) :
    (sorted le l).Pairwise fun x y => le x y = true := by
  have : Std.Total fun x y => le x y = true := ⟨total⟩
  have : IsTrans α fun x y => le x y = true := ⟨trans⟩
  rw [sorted_eq_insertionSort]
  exact List.pairwise_insertionSort _ l

theorem sorted_eq_self {le : α → α → Bool} {l : List α} (h : l.Pairwise fun x y => le x y = true) :
    sorted le l = l := by
  rw [sorted_eq_insertionSort]
  exact h.insertionSort_eq

theorem sorted_map {le : α → α → Bool} {le' : β → β → Bool} {f : α → β} (h : ∀ x y, le' (f x) (f y) = le x y)
    (l : List α) : sorted le' (l.map f) = (sorted le l).map f := by
  rw [sorted_eq_insertionSort, sorted_eq_insertionSort]
  exact (List.map_insertionSort _ _ f l fun x _ y _ => by rw [h]).symm

/-! ## Sorting in parts -/

private theorem insertSorted_append_left {le : α → α → Bool} {x : α} {b : List α} (h : ∀ y ∈ b, le x y = true)
    (a : List α) : insertSorted le x (a ++ b) = insertSorted le x a ++ b := by
  induction a with
  | nil =>
    cases b with
    | nil => rfl
    | cons y ys =>
      show insertSorted le x (y :: ys) = x :: y :: ys
      rw [insertSorted, if_pos (h y List.mem_cons_self)]
  | cons y ys ih =>
    simp only [List.cons_append, insertSorted, ih]
    split <;> rfl

private theorem insertSorted_append_right {le : α → α → Bool} {x : α} {a : List α} (h : ∀ y ∈ a, le x y = false)
    (b : List α) : insertSorted le x (a ++ b) = a ++ insertSorted le x b := by
  induction a with
  | nil => rfl
  | cons y ys ih =>
    have hy : le x y = false := h y List.mem_cons_self
    rw [List.cons_append, insertSorted, hy, if_neg (by simp), ih fun z hz => h z (List.mem_cons_of_mem _ hz)]
    rfl

/-- If every element of a kind has to precede every other one, the two kinds are sorted apart. -/
theorem sorted_eq_append {le : α → α → Bool} {p : α → Bool}
    (h : ∀ x y, p x = true → p y = false → le x y = true ∧ le y x = false) (l : List α) :
    sorted le l = sorted le (l.filter p) ++ sorted le (l.filter fun x => !p x) := by
  induction l with
  | nil => rfl
  | cons x xs ih =>
    rw [sorted, ih]
    cases hx : p x with
    | true =>
      have others : ∀ y ∈ sorted le (xs.filter fun y => !p y), le x y = true := by
        intro y hy
        have hy := (List.mem_filter.1 ((sorted_perm le _).mem_iff.1 hy)).2
        exact (h x y hx (by simpa using hy)).1
      rw [insertSorted_append_left others, List.filter_cons_of_pos hx, List.filter_cons_of_neg (by simp [hx]),
        sorted]
    | false =>
      have others : ∀ y ∈ sorted le (xs.filter p), le x y = false := by
        intro y hy
        exact (h y x (List.mem_filter.1 ((sorted_perm le _).mem_iff.1 hy)).2 hx).2
      rw [insertSorted_append_right others, List.filter_cons_of_neg (by simp [hx]),
        List.filter_cons_of_pos (by simp [hx]), sorted]

private theorem filter_insertSorted {le : α → α → Bool}
    (trans : ∀ x y z, le x y = true → le y z = true → le x z = true) (p : α → Bool) (x : α) {l : List α}
    (h : l.Pairwise fun y z => le y z = true) :
    (insertSorted le x l).filter p = if p x then insertSorted le x (l.filter p) else l.filter p := by
  induction l with
  | nil => cases hx : p x <;> simp [insertSorted, hx]
  | cons y ys ih =>
    obtain ⟨hy, hys⟩ := List.pairwise_cons.1 h
    rw [insertSorted]
    split
    · next hxy =>
      -- `x` precedes all that follow, so it does so still when some are left out
      have first : ∀ z ∈ (y :: ys).filter p, le x z = true := by
        intro z hz
        rcases List.mem_cons.1 (List.mem_filter.1 hz).1 with rfl | hz
        · exact hxy
        · exact trans x y z hxy (hy z hz)
      have inFront : insertSorted le x ((y :: ys).filter p) = x :: (y :: ys).filter p :=
        insertSorted_append_left first []
      rw [inFront, List.filter_cons]
    · next hxy =>
      rw [List.filter_cons, ih hys]
      cases hpy : p y <;> cases hpx : p x <;> simp [insertSorted, hpy, hxy]

/-- Sorting a part of a list gives the part of the sorted list. -/
theorem filter_sorted {le : α → α → Bool} (total : ∀ x y, le x y = true ∨ le y x = true)
    (trans : ∀ x y z, le x y = true → le y z = true → le x z = true) (p : α → Bool) (l : List α) :
    (sorted le l).filter p = sorted le (l.filter p) := by
  induction l with
  | nil => rfl
  | cons x xs ih =>
    rw [sorted, filter_insertSorted trans p x (sorted_pairwise total trans xs), ih]
    cases hx : p x <;> simp [sorted, hx]

/-! ## Relations -/

section

variable {S : α → α → Prop} {le : α → α → Bool}

private theorem pairwise_insertSorted {x : α} {l : List α} (h : l.Pairwise fun y z => S y z ∨ S z y ∧ le z y = false)
    (hx : ∀ y ∈ l, S x y) : (insertSorted le x l).Pairwise fun y z => S y z ∨ S z y ∧ le z y = false := by
  induction l with
  | nil => exact List.pairwise_singleton _ _
  | cons y ys ih =>
    obtain ⟨hy, hys⟩ := List.pairwise_cons.1 h
    obtain ⟨first, others⟩ := List.forall_mem_cons.1 hx
    rw [insertSorted]
    split
    · exact List.pairwise_cons.2 ⟨fun z hz => .inl (hx z hz), h⟩
    · next notBefore =>
      refine List.pairwise_cons.2 ⟨fun z hz => ?_, ih hys others⟩
      rw [insertSorted_eq_orderedInsert] at hz
      rcases (List.mem_orderedInsert _).1 hz with rfl | hz
      · exact .inr ⟨first, by simpa using notBefore⟩
      · exact hy z hz

/-- Sorting keeps the order of two elements, unless the later one must precede the earlier one. -/
theorem pairwise_sorted {l : List α} (h : l.Pairwise S) :
    (sorted le l).Pairwise fun x y => S x y ∨ S y x ∧ le y x = false := by
  induction l with
  | nil => exact .nil
  | cons x xs ih =>
    obtain ⟨hx, hxs⟩ := List.pairwise_cons.1 h
    exact pairwise_insertSorted (ih hxs) fun y hy => hx y ((sorted_perm le xs).mem_iff.1 hy)

end

section

variable {R : α → β → Prop} {le : α → α → Bool} {le' : β → β → Bool}

private theorem forall₂_insertSorted (same : ∀ x y x' y', R x x' → R y y' → le x y = le' x' y') {x : α} {x' : β}
    (hx : R x x') {l : List α} {l' : List β} (h : List.Forall₂ R l l') :
    List.Forall₂ R (insertSorted le x l) (insertSorted le' x' l') := by
  induction h with
  | nil => exact .cons hx .nil
  | cons hy hys ih =>
    rw [insertSorted, insertSorted, same _ _ _ _ hx hy]
    split
    · exact .cons hx (.cons hy hys)
    · exact .cons hy ih

/-- Two lists that are related element by element are so when they are sorted, if the orders agree. -/
theorem forall₂_sorted (same : ∀ x y x' y', R x x' → R y y' → le x y = le' x' y') {l : List α} {l' : List β}
    (h : List.Forall₂ R l l') : List.Forall₂ R (sorted le l) (sorted le' l') := by
  induction h with
  | nil => exact .nil
  | cons hx _ ih => exact forall₂_insertSorted same hx ih

end

end SpecCoverage.Sorting
