import SpecCoverage.Proofs.Command.Collected
import SpecCoverage.Proofs.Except
import SpecCoverage.Proofs.Files.Trail

/-!
# Files that are taken twice

The inputs of one file that are read in the same role come from two of the paths that are given.  One path takes a file
once (`pairwise_collectAt`), and a document that is named explicitly is taken only if it has not been taken as a document
before (`addDocument_keeps`); but nothing keeps a path from taking again what another one has taken.  So every file is
analysed once exactly if the paths are apart (`isAnalysedOnce_gather_iff`), as they are if they lead to places outside of
each other (`areApart_of_places`).
-/

namespace SpecCoverage.Command

open Analysis SpecCoverage.Configuration Files Sorting Source

/-! ## Roles -/

/-- The names that lead to the file of an input. -/
def fileOf? (tree : FileTree) (input : Input) : Option (List String) :=
  (tree.find? input.fileName).map Located.names

/-- No two inputs that are read in the same role are of the same file. -/
def IsAnalysedOnce (tree : FileTree) (inputs : List Input) : Prop :=
  inputs.Pairwise fun a b => a.isDocumentation = b.isDocumentation → fileOf? tree a ≠ fileOf? tree b

instance (tree : FileTree) (inputs : List Input) : Decidable (IsAnalysedOnce tree inputs) :=
  inferInstanceAs (Decidable (List.Pairwise _ _))

/-- The role of a file depends on its name only. -/
private theorem isDocumentationFile_congr {path path' : String} (h : fileName? path = fileName? path')
    (extensions : List String) : isDocumentationFile path extensions = isDocumentationFile path' extensions := by
  simp only [isDocumentationFile, extension?, h]

/-! ## Found files -/

namespace FoundFile

/-- A file that its path leads to. -/
def IsIn (tree : FileTree) (f : FoundFile) : Prop := tree.find? f.path = some ⟨f.names, .file f.content⟩

def isReadable (f : FoundFile) : Bool := (String.fromUTF8? f.content).isSome

/-- The input that a file is read into, if it is readable. -/
def input? (settings : Settings) (f : FoundFile) : Option Input :=
  (String.fromUTF8? f.content).map fun content => Input.classify f.path content settings.documentationExtensions

/-- Two files that are not the same one, unless that is not readable. -/
def IsApart (f g : FoundFile) : Prop := f.isReadable = true → f.names ≠ g.names

instance (f g : FoundFile) : Decidable (f.IsApart g) := inferInstanceAs (Decidable (_ → _))

end FoundFile

/-- No readable file is taken from two of the paths. -/
def AreApart (tree : FileTree) (settings : Settings) (paths : List String) : Prop :=
  paths.Pairwise fun p q => ∀ f ∈ collectAt tree settings p, ∀ g ∈ collectAt tree settings q, f.IsApart g

instance (tree : FileTree) (settings : Settings) (paths : List String) : Decidable (AreApart tree settings paths) :=
  inferInstanceAs (Decidable (List.Pairwise _ _))

section

variable {tree : FileTree} {settings : Settings} {path : String} {f g : FoundFile}

private theorem FoundFile.IsIn.at?_names (h : f.IsIn tree) : tree.root.at? f.names = some (.file f.content) :=
  FileTree.at?_of_find? h

private theorem FoundFile.fileOf?_input? (h : f.IsIn tree) {input : Input} (read : f.input? settings = some input) :
    fileOf? tree input = some f.names := by
  obtain ⟨content, -, rfl⟩ := Option.map_eq_some_iff.1 read
  show (tree.find? f.path).map Located.names = _
  rw [h, Option.map_some]

/-- What a path stands for are files at the place that it leads to. -/
private theorem exists_of_mem_collectAt (wf : tree.root.IsWellFormed) (h : f ∈ collectAt tree settings path) :
    ∃ place below content, tree.find? path = some place ∧ place.node.at? below = some (.file content) ∧
      f = ⟨joinAll path below, place.names ++ below, content⟩ := by
  unfold collectAt at h
  split at h
  · next place found =>
    obtain ⟨names, node⟩ := place
    cases node with
    | file content =>
      obtain rfl := List.mem_singleton.1 h
      exact ⟨_, [], content, found, rfl, by rw [List.append_nil]; rfl⟩
    | directory entries =>
      obtain ⟨passed, name, content, hfile, -, rfl⟩ := (mem_collect_iff (wf.at? (tree.at?_of_find? found))).1 h
      exact ⟨_, passed ++ [name], content, found, hfile, rfl⟩
  · cases h

private theorem FoundFile.isIn_of_mem_collectAt (wf : tree.root.IsWellFormed) (h : f ∈ collectAt tree settings path) :
    f.IsIn tree := by
  obtain ⟨place, below, content, found, hbelow, rfl⟩ := exists_of_mem_collectAt wf h
  exact FileTree.find?_joinAll found (wf.at? (tree.at?_of_find? found)) hbelow

/-- A path takes every file once. -/
theorem pairwise_collectAt (wf : tree.root.IsWellFormed) :
    (collectAt tree settings path).Pairwise fun f g => f.names ≠ g.names := by
  have ordered : (collectAt tree settings path).Pairwise fun f g => components f.path < components g.path := by
    unfold collectAt
    split
    · next place found =>
      obtain ⟨names, node⟩ := place
      cases node with
      | file content => exact List.pairwise_singleton _ _
      | directory entries => exact pairwise_collect (wf.at? (tree.at?_of_find? found))
    · exact .nil
  refine ordered.imp_of_mem fun {f g} hf hg less same => ?_
  obtain ⟨place, below, _, found, -, rfl⟩ := exists_of_mem_collectAt wf hf
  obtain ⟨place', below', _, found', -, rfl⟩ := exists_of_mem_collectAt wf hg
  obtain rfl := Option.some.inj (found.symm.trans found')
  -- the names behind the place make the path as well
  obtain rfl := List.append_cancel_left same
  exact List.lt_irrefl _ less

/-- Two files of a tree are read into inputs of different files or roles exactly if they are apart. -/
private theorem FoundFile.isApart_iff (hf : f.IsIn tree) (hg : g.IsIn tree) :
    (∀ a, f.input? settings = some a → ∀ b, g.input? settings = some b →
        a.isDocumentation = b.isDocumentation → fileOf? tree a ≠ fileOf? tree b) ↔ f.IsApart g := by
  constructor
  · intro h readable same
    have content : f.content = g.content := by
      have found := hf.at?_names
      rw [same, hg.at?_names] at found
      simpa using found.symm
    obtain ⟨text, htext⟩ := Option.isSome_iff_exists.1 readable
    have named : fileName? f.path = fileName? g.path := by
      rw [FileTree.fileName?_of_find? hf, FileTree.fileName?_of_find? hg, same]
    have hf' : f.input? settings = some (Input.classify f.path text settings.documentationExtensions) := by
      rw [input?, htext, Option.map_some]
    have hg' : g.input? settings = some (Input.classify g.path text settings.documentationExtensions) := by
      rw [input?, ← content, htext, Option.map_some]
    refine h _ hf' _ hg' (isDocumentationFile_congr named _) ?_
    rw [fileOf?_input? hf hf', fileOf?_input? hg hg', same]
  · intro apart a ha b hb _ same
    rw [fileOf?_input? hf ha, fileOf?_input? hg hb, Option.some.injEq] at same
    obtain ⟨content, hcontent, -⟩ := Option.map_eq_some_iff.1 ha
    exact apart (by rw [isReadable, hcontent]; rfl) same

private theorem isAnalysedOnce_filterMap_iff (wf : tree.root.IsWellFormed) {paths : List String} :
    IsAnalysedOnce tree ((paths.flatMap (collectAt tree settings)).filterMap (FoundFile.input? settings)) ↔
      AreApart tree settings paths := by
  have isIn : ∀ {path : String} {f : FoundFile}, f ∈ collectAt tree settings path → f.IsIn tree :=
    FoundFile.isIn_of_mem_collectAt wf
  rw [IsAnalysedOnce, List.pairwise_filterMap, List.pairwise_flatMap]
  constructor
  · rintro ⟨-, across⟩
    exact across.imp fun h f hf g hg => (FoundFile.isApart_iff (isIn hf) (isIn hg)).1 (h f hf g hg)
  · intro apart
    refine ⟨fun path _ => ?_, apart.imp fun h f hf g hg => (FoundFile.isApart_iff (isIn hf) (isIn hg)).2 (h f hf g hg)⟩
    exact (pairwise_collectAt wf).imp_of_mem fun {f g} hf hg other =>
      (FoundFile.isApart_iff (isIn hf) (isIn hg)).2 fun _ => other

/-- Paths are apart if no two of them lead to places within each other. -/
theorem areApart_of_places (wf : tree.root.IsWellFormed) {paths : List String}
    (h : paths.Pairwise fun p q => ∀ first second, tree.find? p = some first → tree.find? q = some second →
      ¬ first.names <+: second.names ∧ ¬ second.names <+: first.names) : AreApart tree settings paths := by
  refine h.imp fun {p q} outside f hf g hg _ same => ?_
  obtain ⟨first, below, _, found, -, rfl⟩ := exists_of_mem_collectAt wf hf
  obtain ⟨second, below', _, found', -, rfl⟩ := exists_of_mem_collectAt wf hg
  obtain ⟨noPrefix, noPrefix'⟩ := outside first second found found'
  have within : first.names <+: second.names ++ below' := ⟨below, same⟩
  exact (List.prefix_or_prefix_of_prefix within (List.prefix_append _ _)).elim noPrefix noPrefix'

/-! ## Gathering -/

/-- The documents among the inputs have been noted. -/
def Gathered.IsNoted (tree : FileTree) (g : Gathered) : Prop :=
  ∀ input ∈ g.inputs, input.isDocumentation = true → ∃ names ∈ g.seen, fileOf? tree input = some names

private theorem addFile_eq (settings : Settings) (g : Gathered) (f : FoundFile) :
    g.addFile settings f = match f.input? settings with
      | none => g
      | some input =>
        { inputs := g.inputs ++ [input], seen := if input.isDocumentation then f.names :: g.seen else g.seen } := by
  rw [Gathered.addFile, FoundFile.input?]
  cases String.fromUTF8? f.content <;> rfl

private theorem isNoted_addFile {g : Gathered} (noted : g.IsNoted tree) (h : f.IsIn tree) :
    (g.addFile settings f).IsNoted tree := by
  rw [addFile_eq]
  cases read : f.input? settings with
  | none => exact noted
  | some taken =>
    intro input mem document
    rcases List.mem_append.1 mem with mem | mem
    · obtain ⟨names, hnames, same⟩ := noted input mem document
      refine ⟨names, ?_, same⟩
      show names ∈ if taken.isDocumentation then f.names :: g.seen else g.seen
      split
      · exact List.mem_cons_of_mem _ hnames
      · exact hnames
    · obtain rfl := List.mem_singleton.1 mem
      refine ⟨f.names, ?_, FoundFile.fileOf?_input? h read⟩
      show f.names ∈ if input.isDocumentation then f.names :: g.seen else g.seen
      rw [if_pos document]
      exact List.mem_cons_self

/-- Found files are read one after the other. -/
private theorem foldl_addFile {files : List FoundFile} {g : Gathered} (noted : g.IsNoted tree)
    (h : ∀ f ∈ files, f.IsIn tree) :
    (files.foldl (Gathered.addFile settings) g).IsNoted tree ∧
      (files.foldl (Gathered.addFile settings) g).inputs = g.inputs ++ files.filterMap (FoundFile.input? settings) := by
  induction files generalizing g with
  | nil => exact ⟨noted, (List.append_nil _).symm⟩
  | cons f files ih =>
    obtain ⟨first, rest⟩ := List.forall_mem_cons.1 h
    obtain ⟨keeps, inputs⟩ := ih (isNoted_addFile noted first) rest
    refine ⟨keeps, ?_⟩
    rw [List.foldl_cons, inputs, addFile_eq, List.filterMap_cons]
    cases f.input? settings <;> simp

private theorem foldlM_addPath {paths : List String} {g g' : Gathered}
    (h : paths.foldlM (Gathered.addPath tree settings) g = .ok g') :
    g' = (paths.flatMap (collectAt tree settings)).foldl (Gathered.addFile settings) g := by
  induction paths generalizing g with
  | nil => exact (pure_eq_ok.1 h).symm
  | cons path paths ih =>
    obtain ⟨next, hnext, h⟩ := foldlM_cons_eq_ok.1 h
    cases found : tree.find? path with
    | none => simp [Gathered.addPath, found] at hnext
    | some place =>
      rw [addPath_of_find? found, Except.ok.injEq] at hnext
      rw [ih h, ← hnext, List.flatMap_cons, List.foldl_append]

/-- What naming a document does: nothing if it has been noted or is not readable, else it is the last input. -/
private theorem addDocument_cases {g g' : Gathered} (h : g.addDocument tree path = .ok g') :
    (g'.inputs = g.inputs ∧ g.seen ⊆ g'.seen) ∨
      ∃ names content, fileOf? tree ⟨path, content, true⟩ = some names ∧ names ∉ g.seen ∧
        g' = { inputs := g.inputs ++ [⟨path, content, true⟩], seen := names :: g.seen } := by
  rw [Gathered.addDocument] at h
  split at h
  · cases h
  next names node found =>
    split at h
    · obtain rfl := Except.ok.inj h
      exact .inl ⟨rfl, List.Subset.refl _⟩
    next fresh =>
      split at h
      · cases h
      next bytes =>
        dsimp only at h
        split at h
        · obtain rfl := Except.ok.inj h
          exact .inl ⟨rfl, List.subset_cons_self _ _⟩
        next content _ =>
          refine .inr ⟨names, content, ?_, by simpa using fresh, (Except.ok.inj h).symm⟩
          show (tree.find? path).map Located.names = _
          rw [found, Option.map_some]

/-- A document that is named explicitly keeps all files analysed once. -/
theorem addDocument_keeps {g g' : Gathered} (noted : g.IsNoted tree) (h : g.addDocument tree path = .ok g') :
    g'.IsNoted tree ∧ (IsAnalysedOnce tree g'.inputs ↔ IsAnalysedOnce tree g.inputs) := by
  rcases addDocument_cases h with ⟨inputs, seen⟩ | ⟨names, content, file, fresh, rfl⟩
  · rw [Gathered.IsNoted, inputs]
    refine ⟨fun input mem document => ?_, Iff.rfl⟩
    obtain ⟨names, hnames, same⟩ := noted input mem document
    exact ⟨names, seen hnames, same⟩
  · constructor
    · intro input mem document
      rcases List.mem_append.1 mem with mem | mem
      · obtain ⟨others, hothers, same⟩ := noted input mem document
        exact ⟨others, List.mem_cons_of_mem _ hothers, same⟩
      · obtain rfl := List.mem_singleton.1 mem
        exact ⟨names, List.mem_cons_self, file⟩
    · rw [IsAnalysedOnce, List.pairwise_append]
      refine ⟨fun h => h.1, fun once => ⟨once, List.pairwise_singleton _ _, ?_⟩⟩
      intro input mem last hlast document same
      obtain rfl := List.mem_singleton.1 hlast
      -- the file would have been noted
      obtain ⟨others, hothers, hinput⟩ := noted input mem document
      rw [same, file, Option.some.injEq] at hinput
      exact fresh (hinput ▸ hothers)

private theorem foldlM_addDocument_keeps {documents : List String} {g g' : Gathered} (noted : g.IsNoted tree)
    (h : documents.foldlM (Gathered.addDocument tree) g = .ok g') :
    IsAnalysedOnce tree g'.inputs ↔ IsAnalysedOnce tree g.inputs := by
  induction documents generalizing g with
  | nil => rw [pure_eq_ok.1 h]
  | cons path documents ih =>
    obtain ⟨next, hnext, h⟩ := foldlM_cons_eq_ok.1 h
    obtain ⟨noted, same⟩ := addDocument_keeps noted hnext
    exact (ih noted h).trans same

/-- The files of all inputs are analysed once exactly if no readable file is taken from two of the paths; which documents
are named explicitly makes no difference. -/
theorem isAnalysedOnce_gather_iff (wf : tree.root.IsWellFormed) {paths documents : List String} {inputs : List Input}
    (h : gather tree settings paths documents = .ok inputs) :
    IsAnalysedOnce tree inputs ↔ AreApart tree settings paths := by
  rw [gather, bind_eq_ok] at h
  obtain ⟨walked, hwalked, h⟩ := h
  rw [bind_eq_ok] at h
  obtain ⟨gathered, hgathered, h⟩ := h
  obtain rfl := pure_eq_ok.1 h
  have isIn : ∀ f ∈ paths.flatMap (collectAt tree settings), f.IsIn tree := by
    intro f hf
    obtain ⟨path, -, hf⟩ := List.mem_flatMap.1 hf
    exact FoundFile.isIn_of_mem_collectAt wf hf
  have noted : ({} : Gathered).IsNoted tree := nofun
  obtain rfl := foldlM_addPath hwalked
  rw [foldlM_addDocument_keeps (foldl_addFile noted isIn).1 hgathered, (foldl_addFile noted isIn).2]
  exact isAnalysedOnce_filterMap_iff wf

end

/-! ## A project -/

def projectTree : FileTree := { root := .directory projectEntries }

/-- The document is taken once, though it is given as a path and named as a document as well. -/
theorem isAnalysedOnce_gather_project :
    ∃ inputs, projectTree.root.IsWellFormed ∧
      gather projectTree plainSettings ["src", "README.md"] ["src/../README.md"] = .ok inputs ∧
      inputs.map Input.fileName = ["src/a.js", "src/a.test.js", "README.md"] ∧
      AreApart projectTree plainSettings ["src", "README.md"] ∧ IsAnalysedOnce projectTree inputs := by
  have gathered : gather projectTree plainSettings ["src", "README.md"] ["src/../README.md"]
      = .ok [⟨"src/a.js", "", false⟩, ⟨"src/a.test.js", "", false⟩, ⟨"README.md", "", true⟩] := by decide +kernel
  have apart : AreApart projectTree plainSettings ["src", "README.md"] := by decide +kernel
  exact ⟨_, projectEntries_isWellFormed, gathered, rfl, apart,
    (isAnalysedOnce_gather_iff projectEntries_isWellFormed gathered).2 apart⟩

/-- The document is taken twice if it is given as a path beside its directory. -/
theorem not_isAnalysedOnce_gather :
    ¬ ∀ (c : Config) (settings : Settings) (tree : FileTree) (paths documents : List String) (inputs : List Input),
      c.resolve = .ok settings → tree.root.IsWellFormed → gather tree settings paths documents = .ok inputs →
      IsAnalysedOnce tree inputs := by
  intro h
  have gathered : gather projectTree plainSettings [".", "README.md"] []
      = .ok [⟨"./README.md", "", true⟩, ⟨"./src/a.js", "", false⟩, ⟨"./src/a.test.js", "", false⟩,
        ⟨"README.md", "", true⟩] := by decide +kernel
  have once := h {} plainSettings projectTree [".", "README.md"] [] _ rfl projectEntries_isWellFormed gathered
  exact absurd once (by decide +kernel)

end SpecCoverage.Command
