import SpecCoverage.Proofs.Files.Tree

/-!
# Where paths lead

A path leads along a trail of directories, each of them an entry of the one before (`IsTrail`); following a piece of the
path leaves such a trail (`IsTrail.follow`).  So the names of the place that it leads to lead there from the root
(`FileTree.at?_of_find?`), whichever way the path takes; and a path that leads to a file ends with the name of the file
(`FileTree.fileName?_of_find?`).
-/

namespace SpecCoverage.Files

variable {root : Node} {trail trail' : Trail}

/-! ## Names from the root -/

private theorem Node.at?_append (front back : List String) (node : Node) :
    node.at? (front ++ back) = (node.at? front).bind (at? back) := by
  induction front generalizing node with
  | nil => rfl
  | cons name front ih =>
    show (node.entry? name).bind (at? (front ++ back)) = ((node.entry? name).bind (at? front)).bind (at? back)
    rw [Option.bind_assoc]
    congr 1
    funext next
    exact ih next

theorem Node.IsWellFormed.at? {node below : Node} (wf : node.IsWellFormed) {names : List String}
    (h : node.at? names = some below) : below.IsWellFormed := by
  induction names generalizing node with
  | nil =>
    obtain rfl := Option.some.inj h
    exact wf
  | cons name names ih =>
    obtain ⟨next, hnext, h⟩ := Option.bind_eq_some_iff.1 h
    exact ih (wf.entry hnext).2 h

/-! ## Trails -/

/-- Directories that lie within each other, the outermost in the root. -/
inductive IsTrail (root : Node) : Trail → Prop where
  | root : IsTrail root []
  | entry {trail : Trail} {name : String} {next : Node} (before : IsTrail root trail)
      (h : (locate root trail).node.entry? name = some next) : IsTrail root ((name, next) :: trail)

private theorem locate_cons (name : String) (next : Node) :
    locate root ((name, next) :: trail) = ⟨(locate root trail).names ++ [name], next⟩ := by
  simp [locate]

private theorem IsTrail.at?_locate (h : IsTrail root trail) :
    root.at? (locate root trail).names = some (locate root trail).node := by
  induction h with
  | root => rfl
  | entry _ h ih =>
    rw [locate_cons, Node.at?_append, ih, Option.bind_some]
    show (Node.entry? _ _).bind _ = _
    rw [h, Option.bind_some]
    rfl

theorem IsTrail.tail (h : IsTrail root trail) : IsTrail root trail.tail := by
  cases h with
  | root => exact .root
  | entry before _ => exact before

/-- Around a place in a directory there is a directory. -/
private theorem IsTrail.isDirectory_tail (h : IsTrail root trail)
    (directory : (locate root trail).node.isDirectory = true) :
    (locate root trail.tail).node.isDirectory = true := by
  cases h with
  | root => exact directory
  | entry _ h =>
    obtain ⟨entries, same, -⟩ := Node.exists_of_entry? h
    rw [List.tail_cons, same]
    rfl

/-- What following a piece can do: stay in a directory, leave it, or go on to an entry. -/
private theorem follow_piece {piece : String} (h : follow root trail [piece] = some trail') :
    (locate root trail).node.isDirectory = true ∧
      (trail' = trail ∨ trail' = trail.tail ∨
        ∃ next, (locate root trail).node.entry? piece = some next ∧ piece ≠ "" ∧ piece ≠ "." ∧ piece ≠ ".." ∧
          trail' = (piece, next) :: trail) := by
  rw [follow] at h
  split at h
  · cases h
  next directory =>
    refine ⟨by simpa using directory, ?_⟩
    split at h
    · exact .inl (Option.some.inj h).symm
    next noStay =>
      simp only [Bool.or_eq_true, decide_eq_true_eq, not_or] at noStay
      split at h
      · exact .inr (.inl (Option.some.inj h).symm)
      next noLeave =>
        split at h
        · next next hnext =>
          exact .inr (.inr ⟨next, hnext, noStay.1, noStay.2, noLeave, (Option.some.inj h).symm⟩)
        · cases h

private theorem IsTrail.follow_piece (h : IsTrail root trail) {piece : String}
    (hfollow : follow root trail [piece] = some trail') : IsTrail root trail' := by
  obtain ⟨-, rfl | rfl | ⟨next, hnext, -, -, -, rfl⟩⟩ := Files.follow_piece hfollow
  · exact h
  · exact h.tail
  · exact h.entry hnext

theorem IsTrail.follow (h : IsTrail root trail) {pieces : List String}
    (hfollow : follow root trail pieces = some trail') : IsTrail root trail' := by
  induction pieces generalizing trail with
  | nil =>
    obtain rfl := Option.some.inj hfollow
    exact h
  | cons piece pieces ih =>
    rw [← List.singleton_append, follow_append] at hfollow
    obtain ⟨middle, first, rest⟩ := Option.bind_eq_some_iff.1 hfollow
    exact ih (h.follow_piece first) rest

/-! ## Paths -/

namespace FileTree

variable {tree : FileTree} {path : String} {place : Located}

/-- A path leads to the end of a trail, after the piece that it ends with. -/
private theorem exists_trail_of_find? (h : tree.find? path = some place) :
    ∃ front last trail trail', pieces path.toList = front ++ [last] ∧ IsTrail tree.root trail ∧
      follow tree.root trail [String.ofList last] = some trail' ∧ place = locate tree.root trail' := by
  rw [find?_eq tree (ne_empty_of_find? h)] at h
  obtain ⟨start, hstart, h⟩ := Option.bind_eq_some_iff.1 h
  obtain ⟨trail', hfollow, rfl⟩ := Option.map_eq_some_iff.1 h
  have startTrail : IsTrail tree.root start := by
    unfold start? at hstart
    split at hstart
    · obtain rfl := Option.some.inj hstart
      exact .root
    · exact IsTrail.root.follow hstart
  obtain ⟨front, last, hpieces⟩ := (List.eq_nil_or_concat' (pieces path.toList)).resolve_left (pieces_ne_nil _)
  rw [hpieces, List.map_append, follow_append] at hfollow
  obtain ⟨trail, hfront, hlast⟩ := Option.bind_eq_some_iff.1 hfollow
  exact ⟨front, last, trail, trail', hpieces, startTrail.follow hfront, hlast, rfl⟩

/-- The names of the place that a path leads to lead there from the root. -/
theorem at?_of_find? (h : tree.find? path = some place) : tree.root.at? place.names = some place.node := by
  obtain ⟨_, _, _, _, -, before, hlast, rfl⟩ := exists_trail_of_find? h
  exact (before.follow_piece hlast).at?_locate

/-- A path that leads to a file ends with the name of the file. -/
theorem fileName?_of_find? {names : List String} {content : ByteArray}
    (h : tree.find? path = some ⟨names, .file content⟩) : fileName? path = names.getLast?.map String.toList := by
  obtain ⟨front, last, trail, trail', hpieces, before, hlast, same⟩ := exists_trail_of_find? h
  obtain ⟨directory, rfl | rfl | ⟨next, -, ne_empty, ne_current, ne_parent, rfl⟩⟩ := Files.follow_piece hlast
  · rw [← same] at directory
    cases directory
  · have around := before.isDirectory_tail directory
    rw [← same] at around
    cases around
  · rw [locate_cons] at same
    cases same
    have notEmpty : last ≠ [] := fun h => ne_empty (by rw [h])
    have notCurrent : last ≠ ['.'] := fun h => ne_current (by rw [h])
    have notParent : last ≠ ['.', '.'] := fun h => ne_parent (by rw [h])
    have hname : (components path).getLast? = some last := by
      simp [components, hpieces, List.filter_append, notEmpty, notCurrent]
    rw [fileName?, hname]
    simp [notParent]

end FileTree

end SpecCoverage.Files
