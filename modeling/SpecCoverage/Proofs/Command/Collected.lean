import SpecCoverage.Proofs.Command.Walk
import SpecCoverage.Proofs.Files.Reordering

/-!
# What a walk of a directory takes

A walk takes exactly the files that it is to take (`mem_filesBelow_iff`): those that are reached without passing over a
directory, whose names are those of source files or documents, and whose paths the patterns let through.  It takes each
of them once, since their paths have components of their own (`pairwise_filesBelow`).  Sorted by these components, the
files stand in one order only, however the directories list their entries (`collect_takes_wanted`).
-/

namespace SpecCoverage.Command

open SpecCoverage.Configuration Files Sorting Source

/-! ## Names -/

/-- A directory that a walk does not pass over. -/
structure IsEntered (name : String) : Prop where
  not_hidden : name.toList.head? ≠ some '.'
  ne_node_modules : name ≠ "node_modules"
  ne_coverage : name ≠ "coverage"
  ne_target : name ≠ "target"

private theorem isSkippedDirectory_eq_false_iff {name : String} : isSkippedDirectory name = false ↔ IsEntered name := by
  simp only [isSkippedDirectory, Bool.or_eq_false_iff, decide_eq_false_iff_not]
  constructor
  · rintro ⟨⟨⟨h1, h2⟩, h3⟩, h4⟩
    exact ⟨h1, h2, h3, h4⟩
  · rintro ⟨h1, h2, h3, h4⟩
    exact ⟨⟨⟨h1, h2⟩, h3⟩, h4⟩

/-- What a walk asks of the file of a name within directories that lie within each other. -/
structure IsWanted (settings : Settings) (path : String) (passed : List String) (name : String) : Prop where
  entered : ∀ directory ∈ passed, IsEntered directory
  supported : isSourceFile name = true ∨ isDocumentationFile name settings.documentationExtensions = true
  not_excluded : ∀ g ∈ settings.excludes, g.covers (joinAll path (passed ++ [name])) = false
  included : ∀ globs ∈ settings.includes, ∃ g ∈ globs, g.covers (joinAll path (passed ++ [name])) = true

private theorem covers_eq_true_iff {settings : Settings} {path : String} :
    settings.covers path = true ↔ (∀ g ∈ settings.excludes, g.covers path = false) ∧
      ∀ globs ∈ settings.includes, ∃ g ∈ globs, g.covers path = true := by
  rw [Settings.covers, Bool.and_eq_true, Bool.not_eq_true', List.any_eq_false]
  cases settings.includes <;> simp

private theorem isWanted_nil_iff {settings : Settings} {path name : String} :
    IsWanted settings path [] name ↔ isSupportedFile settings name = true ∧ settings.covers (join path name) = true := by
  rw [isSupportedFile, Bool.or_eq_true, covers_eq_true_iff]
  constructor
  · rintro ⟨-, supported, notExcluded, included⟩
    exact ⟨supported, notExcluded, included⟩
  · rintro ⟨supported, notExcluded, included⟩
    exact ⟨by simp, supported, notExcluded, included⟩

private theorem isWanted_cons_iff {settings : Settings} {path directory name : String} {passed : List String} :
    IsWanted settings path (directory :: passed) name ↔
      IsEntered directory ∧ IsWanted settings (join path directory) passed name := by
  constructor
  · rintro ⟨entered, supported, notExcluded, included⟩
    obtain ⟨first, rest⟩ := List.forall_mem_cons.1 entered
    exact ⟨first, rest, supported, notExcluded, included⟩
  · rintro ⟨first, rest, supported, notExcluded, included⟩
    exact ⟨List.forall_mem_cons.2 ⟨first, rest⟩, supported, notExcluded, included⟩

/-! ## Files -/

section

variable {settings : Settings} {path : String} {names : List String}

private theorem mem_filesBelow {entries : List (String × Node)} {f : FoundFile} :
    f ∈ filesBelow settings path names entries ↔
      ∃ entry ∈ entries, f ∈ filesOfNode settings (join path entry.1) (names ++ [entry.1]) entry.1 entry.2 := by
  simp only [filesBelow_eq_flatMap, List.mem_flatMap, filesOfEntry_eq]

private theorem mem_filesOfNode_file {name : String} {content : ByteArray} {f : FoundFile} :
    f ∈ filesOfNode settings path names name (.file content) ↔
      (isSupportedFile settings name = true ∧ settings.covers path = true) ∧ f = ⟨path, names, content⟩ := by
  rw [filesOfNode, ← Bool.and_eq_true]
  split
  · next taken => simp [taken]
  · next passed => simp [passed]

private theorem mem_filesOfNode_directory {name : String} {entries : List (String × Node)} {f : FoundFile} :
    f ∈ filesOfNode settings path names name (.directory entries) ↔
      IsEntered name ∧ f ∈ filesBelow settings path names entries := by
  rw [filesOfNode, ← isSkippedDirectory_eq_false_iff]
  cases isSkippedDirectory name <;> simp

/-- The files that a walk takes are those that it is to take. -/
theorem mem_filesBelow_iff {entries : List (String × Node)} (wf : (Node.directory entries).IsWellFormed)
    {f : FoundFile} :
    f ∈ filesBelow settings path names entries ↔
      ∃ passed name content, (Node.directory entries).at? (passed ++ [name]) = some (.file content) ∧
        IsWanted settings path passed name ∧
        f = ⟨joinAll path (passed ++ [name]), names ++ (passed ++ [name]), content⟩ := by
  generalize hnode : Node.directory entries = node at wf
  induction wf generalizing entries path names with
  | file => cases hnode
  | @directory _ valid distinct below ih =>
    cases hnode
    have wf := Node.IsWellFormed.directory valid distinct below
    rw [mem_filesBelow]
    constructor
    · rintro ⟨⟨first, child⟩, mem, h⟩
      cases child with
      | file content =>
        obtain ⟨taken, rfl⟩ := mem_filesOfNode_file.1 h
        exact ⟨[], first, content, (Node.at?_cons_eq_some_iff wf).2 ⟨_, mem, rfl⟩, isWanted_nil_iff.2 taken, rfl⟩
      | directory inner =>
        obtain ⟨entered, h⟩ := mem_filesOfNode_directory.1 h
        obtain ⟨passed, name, content, found, wanted, rfl⟩ := (ih _ mem rfl).1 h
        exact ⟨first :: passed, name, content, (Node.at?_cons_eq_some_iff wf).2 ⟨_, mem, found⟩,
          isWanted_cons_iff.2 ⟨entered, wanted⟩, by simp [joinAll_cons]⟩
    · rintro ⟨passed, name, content, found, wanted, rfl⟩
      cases passed with
      | nil =>
        obtain ⟨child, mem, same⟩ := (Node.at?_cons_eq_some_iff wf).1 found
        cases same
        exact ⟨_, mem, mem_filesOfNode_file.2 ⟨isWanted_nil_iff.1 wanted, by simp [joinAll_cons]; rfl⟩⟩
      | cons first passed =>
        obtain ⟨child, mem, found⟩ := (Node.at?_cons_eq_some_iff wf).1 found
        obtain ⟨entered, wanted⟩ := isWanted_cons_iff.1 wanted
        obtain ⟨inner, rfl⟩ := Node.exists_directory_of_at? (by simp) found
        exact ⟨_, mem, mem_filesOfNode_directory.2
          ⟨entered, (ih _ mem rfl).2 ⟨passed, name, content, found, wanted, by simp [joinAll_cons]⟩⟩⟩

/-- No two of the files that a walk takes have the same components. -/
theorem pairwise_filesBelow {entries : List (String × Node)} (wf : (Node.directory entries).IsWellFormed) :
    (filesBelow settings path names entries).Pairwise fun f g => components f.path ≠ components g.path := by
  generalize hnode : Node.directory entries = node at wf
  induction wf generalizing entries path names with
  | file => cases hnode
  | @directory _ valid distinct below ih =>
    cases hnode
    rw [filesBelow_eq_flatMap, List.pairwise_flatMap]
    refine ⟨fun entry mem => ?_, ?_⟩
    · rw [filesOfEntry_eq]
      obtain ⟨name, child⟩ := entry
      cases child with
      | file content =>
        rw [filesOfNode]
        split
        · exact List.pairwise_singleton _ _
        · exact .nil
      | directory inner =>
        rw [filesOfNode]
        split
        · exact .nil
        · exact ih _ mem rfl
    · -- the files of two entries lie below paths that end with different names
      refine (List.pairwise_map.1 distinct).imp_of_mem fun {a b} ha hb other f hf g hg same => other ?_
      have first := liesBelow_of_mem_filesOfEntry (valid a ha) (below a ha) hf
      have second := liesBelow_of_mem_filesOfEntry (valid b hb) (below b hb) hg
      rw [← same] at second
      have equal := (List.prefix_of_prefix_length_le first second (by simp)).eq_of_length (by simp)
      rw [List.append_cancel_left_eq, List.singleton_inj] at equal
      exact String.toList_inj.1 equal

end

/-! ## The order of files -/

private theorem isOrdered_iff {a b : List (List Char)} : isOrdered a b = true ↔ a < b ∨ a = b := by
  induction a generalizing b with
  | nil => cases b <;> simp [isOrdered]
  | cons x a ih =>
    cases b with
    | nil => simp [isOrdered]
    | cons y b =>
      rw [isOrdered, Bool.or_eq_true, Bool.and_eq_true, ih, List.cons_lt_cons_iff, List.cons.injEq, decide_eq_true_iff,
        decide_eq_true_iff]
      tauto

section

variable {settings : Settings} {path : String} {names : List String} {entries : List (String × Node)}

/-- A walk lists files in the strict order of their components. -/
theorem pairwise_collect (wf : (Node.directory entries).IsWellFormed) :
    (collect settings path ⟨names, .directory entries⟩).Pairwise fun f g => components f.path < components g.path := by
  have apart := ((sorted_perm FoundFile.precedes (filesBelow settings path names entries)).pairwise_iff
    fun {_ _} other same => other same.symm).2 (pairwise_filesBelow wf)
  have ordered := sorted_pairwise FoundFile.precedes_total FoundFile.precedes_trans
    (filesBelow settings path names entries)
  exact (apart.and ordered).imp fun {f g} ⟨other, first⟩ => (isOrdered_iff.1 first).resolve_right other

private theorem nodup_collect (wf : (Node.directory entries).IsWellFormed) :
    (collect settings path ⟨names, .directory entries⟩).Nodup := by
  refine (pairwise_collect wf).imp ?_
  rintro f _ less rfl
  exact List.lt_irrefl _ less

theorem mem_collect_iff (wf : (Node.directory entries).IsWellFormed) {f : FoundFile} :
    f ∈ collect settings path ⟨names, .directory entries⟩ ↔
      ∃ passed name content, (Node.directory entries).at? (passed ++ [name]) = some (.file content) ∧
        IsWanted settings path passed name ∧
        f = ⟨joinAll path (passed ++ [name]), names ++ (passed ++ [name]), content⟩ :=
  (sorted_perm FoundFile.precedes _).mem_iff.trans (mem_filesBelow_iff wf)

/-- A walk takes the same files in the same order from a reordering of its directory. -/
private theorem collect_eq_of_isReordering (wf : (Node.directory entries).IsWellFormed)
    {entries' : List (String × Node)}
    (h : Node.IsReordering (.directory entries) (.directory entries')) :
    collect settings path ⟨names, .directory entries'⟩ = collect settings path ⟨names, .directory entries⟩ := by
  have wf' := h.isWellFormed wf
  have same : (collect settings path ⟨names, .directory entries'⟩).Perm
      (collect settings path ⟨names, .directory entries⟩) := by
    rw [List.perm_ext_iff_of_nodup (nodup_collect wf') (nodup_collect wf)]
    intro f
    rw [mem_collect_iff wf, mem_collect_iff wf']
    simp only [h.at?_eq_file_iff wf]
  refine same.eq_of_pairwise (fun f g _ _ first second => ?_) (pairwise_collect wf') (pairwise_collect wf)
  exact absurd second (List.lt_asymm first)

end

/-- A walk of a directory gives one list, however directories list their entries: in the strict order of components, and
with exactly the files that it is to take. -/
theorem collect_takes_wanted (settings : Settings) (path : String) (names : List String)
    {entries : List (String × Node)} (wf : (Node.directory entries).IsWellFormed) :
    (∀ entries', Node.IsReordering (.directory entries) (.directory entries') →
      collect settings path ⟨names, .directory entries'⟩ = collect settings path ⟨names, .directory entries⟩) ∧
    (collect settings path ⟨names, .directory entries⟩).Pairwise
      (fun f g => components f.path < components g.path) ∧
    ∀ f, f ∈ collect settings path ⟨names, .directory entries⟩ ↔
      ∃ passed name content, (Node.directory entries).at? (passed ++ [name]) = some (.file content) ∧
        IsWanted settings path passed name ∧
        f = ⟨joinAll path (passed ++ [name]), names ++ (passed ++ [name]), content⟩ :=
  ⟨fun _ reordered => collect_eq_of_isReordering wf reordered, pairwise_collect wf, fun _ => mem_collect_iff wf⟩

/-- Scripts with a document, and beside them those that a tool has put there. -/
def projectEntries : List (String × Node) :=
  [("src", .directory scriptEntries), ("node_modules", .directory scriptEntries), ("README.md", .file ByteArray.empty)]

theorem projectEntries_isWellFormed : (Node.directory projectEntries).IsWellFormed :=
  Node.isWellFormed_directory_iff.2 ⟨by decide, by decide, by simp [projectEntries, scriptEntries_isWellFormed]⟩

/-- Of the project, listed in either direction, the document is taken and the script that is not a test. -/
theorem collect_takes_wanted_project :
    (Node.directory projectEntries).IsWellFormed ∧
      collect withoutTests "." ⟨[], .directory projectEntries.reverse⟩
        = collect withoutTests "." ⟨[], .directory projectEntries⟩ ∧
      (collect withoutTests "." ⟨[], .directory projectEntries⟩).map FoundFile.path
        = ["./README.md", "./src/a.js"] := by
  obtain ⟨reordered, -⟩ := collect_takes_wanted withoutTests "." [] projectEntries_isWellFormed
  exact ⟨projectEntries_isWellFormed, reordered _ (.entries (List.reverse_perm _).symm), by decide +kernel⟩

end SpecCoverage.Command
