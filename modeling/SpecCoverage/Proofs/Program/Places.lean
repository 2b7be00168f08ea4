import SpecCoverage.Program.Tree

/-!
# Places up to some nodes

A place in a tree is the list of the numbers of the children on the way to it.  `placesUpTo stops` lists the places of a
tree, with the nodes there, but goes no further than to the nodes of the kinds that stop it.  These are the nodes whose
way goes through no such node (`mem_placesUpTo`), in the order in which they are written (`pairwise_placesUpTo`).
-/

namespace SpecCoverage.Program

/-- The node stands at a place of a tree, and no node above it is of a kind that stops the way. -/
def Tree.StandsAt (stops : Kind → Bool) (t : Tree) : List Nat → Tree → Prop
  | [], u => u = t
  | i :: path, u => stops t.kind = false ∧ ∃ child, t.children[i]? = some child ∧ child.StandsAt stops path u

mutual

def placesUpTo (stops : Kind → Bool) : Tree → List (List Nat × Tree)
  | .node kind extent children =>
    ([], .node kind extent children) :: if stops kind then [] else placesInAll stops 0 children

/-- The places in trees that are the children of one node, from some number on. -/
def placesInAll (stops : Kind → Bool) (number : Nat) : List Tree → List (List Nat × Tree)
  | [] => []
  | t :: rest => ((placesUpTo stops t).map fun (path, u) => (number :: path, u)) ++ placesInAll stops (number + 1) rest

end

section

variable {stops : Kind → Bool}

mutual

theorem mem_placesUpTo {path : List Nat} {u : Tree} (t : Tree) :
    (path, u) ∈ placesUpTo stops t ↔ t.StandsAt stops path u := by
  obtain ⟨kind, extent, children⟩ := t
  rw [placesUpTo, List.mem_cons, Prod.mk.injEq]
  cases path with
  | nil =>
    have deeper : ([], u) ∉ if stops kind then [] else placesInAll stops 0 children := by
      intro mem
      split at mem
      · cases mem
      · obtain ⟨i, path, child, e, -⟩ := (mem_placesInAll children).1 mem
        cases e
    simp [deeper, Tree.StandsAt]
  | cons i path =>
    simp only [reduceCtorEq, false_and, false_or]
    show _ ↔ stops kind = false ∧ ∃ child, children[i]? = some child ∧ child.StandsAt stops path u
    split
    · next stop => simp [stop]
    · next go =>
      rw [mem_placesInAll children, Bool.eq_false_iff]
      simp only [Nat.zero_add, List.cons.injEq]
      constructor
      · rintro ⟨_, _, child, ⟨rfl, rfl⟩, h⟩
        exact ⟨go, child, h⟩
      · rintro ⟨-, child, h⟩
        exact ⟨i, path, child, ⟨rfl, rfl⟩, h⟩

theorem mem_placesInAll {path : List Nat} {u : Tree} (ts : List Tree) {number : Nat} :
    (path, u) ∈ placesInAll stops number ts ↔
      ∃ i rest child, path = (number + i) :: rest ∧ ts[i]? = some child ∧ child.StandsAt stops rest u := by
  cases ts with
  | nil => simp [placesInAll]
  | cons t ts =>
    rw [placesInAll, List.mem_append, mem_placesInAll ts]
    constructor
    · rintro (first | ⟨i, rest, child, rfl, hchild, h⟩)
      · obtain ⟨⟨rest, u'⟩, inside, e⟩ := List.mem_map.1 first
        obtain ⟨rfl, rfl⟩ := Prod.mk.inj e
        exact ⟨0, rest, t, rfl, rfl, (mem_placesUpTo t).1 inside⟩
      · exact ⟨i + 1, rest, child, by rw [Nat.add_assoc, Nat.add_comm 1], hchild, h⟩
    · rintro ⟨i, rest, child, rfl, hchild, h⟩
      cases i with
      | zero =>
        obtain rfl := Option.some.inj hchild
        exact .inl (List.mem_map.2 ⟨(rest, u), (mem_placesUpTo t).2 h, rfl⟩)
      | succ i => exact .inr ⟨i, rest, child, by rw [Nat.add_assoc, Nat.add_comm 1], hchild, h⟩

end

mutual

theorem pairwise_placesUpTo (t : Tree) : (placesUpTo stops t).Pairwise fun a b => a.1 < b.1 := by
  obtain ⟨kind, extent, children⟩ := t
  rw [placesUpTo]
  split
  · exact List.pairwise_singleton _ _
  · refine List.pairwise_cons.2 ⟨?_, pairwise_placesInAll children 0⟩
    rintro ⟨path, u⟩ mem
    obtain ⟨i, rest, child, rfl, -⟩ := (mem_placesInAll children).1 mem
    exact List.nil_lt_cons _ _

theorem pairwise_placesInAll (ts : List Tree) (number : Nat) :
    (placesInAll stops number ts).Pairwise fun a b => a.1 < b.1 := by
  cases ts with
  | nil => exact .nil
  | cons t ts =>
    rw [placesInAll, List.pairwise_append]
    refine ⟨?_, pairwise_placesInAll ts (number + 1), ?_⟩
    · exact List.pairwise_map.2 ((pairwise_placesUpTo t).imp fun lt => List.cons_lt_cons_iff.2 (.inr ⟨rfl, lt⟩))
    · -- Below the first tree the paths begin with a smaller number.
      rintro _ inFirst ⟨path, u⟩ inOthers
      obtain ⟨_, -, rfl⟩ := List.mem_map.1 inFirst
      obtain ⟨i, rest, child, rfl, -⟩ := (mem_placesInAll ts).1 inOthers
      exact List.cons_lt_cons_iff.2 (.inl (by omega))

end

end

end SpecCoverage.Program
