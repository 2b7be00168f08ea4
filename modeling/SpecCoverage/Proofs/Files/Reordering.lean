import SpecCoverage.Proofs.Files.Tree

/-!
# The order of entries

A directory lists its entries in no particular order.  Two trees that differ in this order only, in any of their
directories, are reorderings of each other; they have the same files at the same names (`IsReordering.at?_eq_file_iff`).
-/

namespace SpecCoverage.Files.Node

/-- The second tree is the first one with the entries of some of its directories in another order. -/
inductive IsReordering : Node → Node → Prop where
  | refl (node : Node) : IsReordering node node
  | entries {a b : List (String × Node)} (h : a.Perm b) : IsReordering (.directory a) (.directory b)
  | inside {front back : List (String × Node)} {name : String} {a b : Node} (h : IsReordering a b) :
      IsReordering (.directory (front ++ (name, a) :: back)) (.directory (front ++ (name, b) :: back))
  | trans {a b c : Node} (first : IsReordering a b) (second : IsReordering b c) : IsReordering a c

theorem IsReordering.symm {a b : Node} (h : IsReordering a b) : IsReordering b a := by
  induction h with
  | refl node => exact .refl node
  | entries h => exact .entries h.symm
  | inside _ ih => exact .inside ih
  | trans _ _ first second => exact .trans second first

theorem IsReordering.isWellFormed {a b : Node} (h : IsReordering a b) (wf : a.IsWellFormed) : b.IsWellFormed := by
  induction h with
  | refl => exact wf
  | entries h =>
    cases wf with
    | directory names distinct below =>
      exact .directory (fun entry mem => names entry (h.mem_iff.2 mem)) ((h.map Prod.fst).nodup_iff.1 distinct)
        fun entry mem => below entry (h.mem_iff.2 mem)
  | inside _ ih =>
    cases wf with
    | directory names distinct below =>
      simp only [List.forall_mem_append, List.forall_mem_cons] at names below
      refine .directory ?_ (by simpa using distinct) ?_
      · simpa only [List.forall_mem_append, List.forall_mem_cons] using names
      · simp only [List.forall_mem_append, List.forall_mem_cons]
        exact ⟨below.1, ih below.2.1, below.2.2⟩
  | trans _ _ first second => exact second (first wf)

private theorem IsReordering.eq_file {content : ByteArray} {node : Node} (h : IsReordering (.file content) node) :
    node = .file content := by
  generalize same : Node.file content = file at h
  induction h with
  | refl => rfl
  | entries => cases same
  | inside => cases same
  | trans _ _ first second => exact (second (same.trans (first same).symm)).trans (first same)

/-- Names that lead to a node lead to a reordering of it in a reordering of the tree. -/
private theorem IsReordering.exists_at? {a b : Node} (h : IsReordering a b) (wf : a.IsWellFormed) {names : List String}
    {found : Node} (hfound : a.at? names = some found) : ∃ found', b.at? names = some found' ∧ IsReordering found found' := by
  induction h generalizing names found with
  | refl => exact ⟨found, hfound, .refl found⟩
  | @entries a b h =>
    cases names with
    | nil =>
      obtain rfl : Node.directory a = found := Option.some.inj hfound
      exact ⟨_, rfl, .entries h⟩
    | cons name names =>
      have wf' := (IsReordering.entries h).isWellFormed wf
      obtain ⟨next, mem, hrest⟩ := (at?_cons_eq_some_iff wf).1 hfound
      exact ⟨found, (at?_cons_eq_some_iff wf').2 ⟨next, h.mem_iff.1 mem, hrest⟩, .refl found⟩
  | @inside front back name a b h ih =>
    have wf' := (IsReordering.inside h).isWellFormed wf
    cases names with
    | nil =>
      obtain rfl := Option.some.inj hfound
      exact ⟨_, rfl, .inside h⟩
    | cons first names =>
      obtain ⟨next, mem, hrest⟩ := (at?_cons_eq_some_iff wf).1 hfound
      have wfNext := (isWellFormed_directory_iff.1 wf).2.2 _ mem
      simp only [at?_cons_eq_some_iff wf', List.mem_append, List.mem_cons, Prod.mk.injEq] at mem ⊢
      -- only the entry that has been reordered is another one
      rcases mem with mem | ⟨rfl, rfl⟩ | mem
      · exact ⟨found, ⟨next, .inl mem, hrest⟩, .refl found⟩
      · obtain ⟨found', hfound', reordered⟩ := ih wfNext hrest
        exact ⟨found', ⟨b, .inr (.inl ⟨rfl, rfl⟩), hfound'⟩, reordered⟩
      · exact ⟨found, ⟨next, .inr (.inr mem), hrest⟩, .refl found⟩
  | trans first _ ihfirst ihsecond =>
    obtain ⟨middle, hmiddle, hfirst⟩ := ihfirst wf hfound
    obtain ⟨last, hlast, hsecond⟩ := ihsecond (first.isWellFormed wf) hmiddle
    exact ⟨last, hlast, hfirst.trans hsecond⟩

theorem IsReordering.at?_eq_file_iff {a b : Node} (h : IsReordering a b) (wf : a.IsWellFormed) {names : List String}
    {content : ByteArray} : a.at? names = some (.file content) ↔ b.at? names = some (.file content) := by
  constructor
  · intro hfound
    obtain ⟨found, hfound', reordered⟩ := h.exists_at? wf hfound
    rwa [reordered.eq_file] at hfound'
  · intro hfound
    obtain ⟨found, hfound', reordered⟩ := h.symm.exists_at? (h.isWellFormed wf) hfound
    rwa [reordered.eq_file] at hfound'

end SpecCoverage.Files.Node
