import Mathlib.Data.List.Basic
import SpecCoverage.Command.Gathering
import SpecCoverage.Proofs.Configuration.Patterns
import SpecCoverage.Proofs.Files.Tree
import SpecCoverage.Proofs.Sorting

/-!
# Walking directories

The files that a walk of a directory takes, as the parts that they come from:

* (patterns) the patterns of the settings come last: they choose among the files that a walk without patterns takes
  (`filesOfNode_eq_filter`);
* (parts) the files below a directory within a walked one are those of a walk of that directory
  (`filter_filesBelow`);
* (spelling) a walk that starts at `./` takes the same files with `./` in front of their paths (`filesOfNode_current`).

So the walk of the working directory and that of a directory below it differ only in what the patterns see: the paths
with `./` in front and without (`collectAt_current_below_iff`).  A pattern such as `src/**` covers the one and not the
other.
-/

namespace SpecCoverage.Command

open SpecCoverage.Configuration Files Sorting

/-! ## The order of files -/

private theorem isOrdered_total (a b : List (List Char)) : isOrdered a b = true ∨ isOrdered b a = true := by
  induction a generalizing b with
  | nil => exact .inl rfl
  | cons x a ih =>
    cases b with
    | nil => exact .inr rfl
    | cons y b =>
      simp only [isOrdered, Bool.or_eq_true, Bool.and_eq_true, decide_eq_true_eq]
      by_cases less : x < y
      · exact .inl (.inl less)
      by_cases same : x = y
      · subst same
        exact (ih b).imp (fun h => .inr ⟨rfl, h⟩) fun h => .inr ⟨rfl, h⟩
      · exact .inr (.inl (List.not_le.1 fun h => same (List.le_antisymm h less)))

private theorem isOrdered_trans {a b c : List (List Char)} (hab : isOrdered a b = true) (hbc : isOrdered b c = true) :
    isOrdered a c = true := by
  induction a generalizing b c with
  | nil => rfl
  | cons x a ih =>
    cases b with
    | nil => cases hab
    | cons y b =>
      cases c with
      | nil => cases hbc
      | cons z c =>
        simp only [isOrdered, Bool.or_eq_true, Bool.and_eq_true, decide_eq_true_eq] at hab hbc ⊢
        rcases hab with hxy | ⟨rfl, hab⟩
        · rcases hbc with hyz | ⟨rfl, -⟩
          · exact .inl (List.lt_trans hxy hyz)
          · exact .inl hxy
        · rcases hbc with hyz | ⟨rfl, hbc⟩
          · exact .inl hyz
          · exact .inr ⟨rfl, ih hab hbc⟩

/-- Whether the first of two files does not come after the second. -/
def FoundFile.precedes (a b : FoundFile) : Bool := isOrdered (components a.path) (components b.path)

theorem FoundFile.precedes_total (a b : FoundFile) : a.precedes b = true ∨ b.precedes a = true :=
  isOrdered_total _ _

theorem FoundFile.precedes_trans (a b c : FoundFile) (hab : a.precedes b = true) (hbc : b.precedes c = true) :
    a.precedes c = true := isOrdered_trans hab hbc

/-! ## The files of a node -/

theorem filesBelow_eq_flatMap (settings : Settings) (path : String) (names : List String)
    (entries : List (String × Node)) :
    filesBelow settings path names entries = entries.flatMap (filesOfEntry settings path names) := by
  induction entries with
  | nil => rfl
  | cons entry rest ih => rw [filesBelow, ih, List.flatMap_cons]

theorem filesOfEntry_eq (settings : Settings) (path : String) (names : List String) (entry : String × Node) :
    filesOfEntry settings path names entry
      = filesOfNode settings (join path entry.1) (names ++ [entry.1]) entry.1 entry.2 := by
  rw [filesOfEntry]

/-- A walked directory is a node that is not passed over. -/
private theorem filesOfNode_directory (settings : Settings) (path : String) (names : List String) (name : String)
    (walked : isSkippedDirectory name = false) (entries : List (String × Node)) :
    filesOfNode settings path names name (.directory entries) = filesBelow settings path names entries := by
  rw [filesOfNode, walked, if_neg Bool.false_ne_true]

/-- What holds of files, and of a directory if it holds of its entries, holds of every node. -/
private theorem induction_on_entries {motive : Node → Prop} (file : ∀ content, motive (.file content))
    (directory : ∀ entries, (∀ entry ∈ entries, motive entry.2) → motive (.directory entries)) :
    ∀ node, motive node
  | .file content => file content
  | .directory entries => directory entries fun entry _ => induction_on_entries file directory entry.2
termination_by node => sizeOf node
decreasing_by
  have smaller : sizeOf entry < sizeOf entries := List.sizeOf_lt_of_mem ‹entry ∈ entries›
  obtain ⟨name, node⟩ := entry
  simp only [Prod.mk.sizeOf_spec, Node.directory.sizeOf_spec] at smaller ⊢
  omega

/-- The patterns choose among the files that are taken without them. -/
theorem filesOfNode_eq_filter (settings : Settings) (path : String) (names : List String) (name : String)
    (node : Node) :
    filesOfNode settings path names name node
      = (filesOfNode settings.withoutGlobs path names name node).filter fun f => settings.covers f.path := by
  induction node using induction_on_entries generalizing path names name with
  | file content =>
    have supported : isSupportedFile settings.withoutGlobs name = isSupportedFile settings name := rfl
    rw [filesOfNode, filesOfNode, supported, Settings.covers_withoutGlobs]
    cases isSupportedFile settings name <;> cases h : settings.covers path <;> simp [h]
  | directory entries ih =>
    cases walked : isSkippedDirectory name with
    | true => rw [filesOfNode, filesOfNode, walked]; rfl
    | false =>
      rw [filesOfNode_directory _ _ _ _ walked, filesOfNode_directory _ _ _ _ walked, filesBelow_eq_flatMap,
        filesBelow_eq_flatMap, List.filter_flatMap]
      refine List.flatMap_congr fun entry mem => ?_
      rw [filesOfEntry_eq, filesOfEntry_eq, ih entry mem]

private theorem filesBelow_eq_filter (settings : Settings) (path : String) (names : List String)
    (entries : List (String × Node)) :
    filesBelow settings path names entries
      = (filesBelow settings.withoutGlobs path names entries).filter fun f => settings.covers f.path := by
  have walked : isSkippedDirectory "" = false := by decide
  rw [← filesOfNode_directory settings path names "" walked, filesOfNode_eq_filter,
    filesOfNode_directory _ path names "" walked]

/-! ## The files below a directory -/

/-- Whether a file lies below the directory of a path. -/
def FoundFile.liesBelow (directory : String) (f : FoundFile) : Bool :=
  (components directory).isPrefixOf (components f.path)

private theorem FoundFile.liesBelow_iff {directory : String} {f : FoundFile} :
    f.liesBelow directory = true ↔ components directory <+: components f.path := List.isPrefixOf_iff_prefix

private theorem liesBelow_of_mem_filesOfNode {settings : Settings} {path : String} {names : List String} {name : String}
    {node : Node} (wf : node.IsWellFormed) {f : FoundFile} (h : f ∈ filesOfNode settings path names name node) :
    components path <+: components f.path := by
  induction wf generalizing path names name with
  | file content =>
    rw [filesOfNode] at h
    split at h
    · obtain rfl := List.mem_singleton.1 h
      exact List.prefix_rfl
    · cases h
  | directory valid _ _ ih =>
    rw [filesOfNode] at h
    split at h
    · cases h
    · rw [filesBelow_eq_flatMap] at h
      obtain ⟨entry, mem, h⟩ := List.mem_flatMap.1 h
      rw [filesOfEntry_eq] at h
      have below := ih entry mem h
      rw [components_join _ (valid entry mem)] at below
      exact (List.prefix_append _ _).trans below

/-- The files of an entry lie below its path. -/
theorem liesBelow_of_mem_filesOfEntry {settings : Settings} {path : String} {names : List String}
    {entry : String × Node} (valid : IsEntryName entry.1) (wf : entry.2.IsWellFormed) {f : FoundFile}
    (h : f ∈ filesOfEntry settings path names entry) :
    components path ++ [entry.1.toList] <+: components f.path := by
  rw [filesOfEntry_eq] at h
  rw [← components_join path valid]
  exact liesBelow_of_mem_filesOfNode wf h

/-- Of the entries of a directory, only the one that a path leads through has files below that path. -/
private theorem filter_filesBelow_entry {settings : Settings} {path : String} {names : List String}
    {entries : List (String × Node)} (wf : (Node.directory entries).IsWellFormed) {name : String} {next : Node}
    (h : Node.entry? name (.directory entries) = some next) {p : FoundFile → Bool}
    (below : ∀ f, p f = true → components path ++ [name.toList] <+: components f.path) :
    (filesBelow settings path names entries).filter p
      = (filesOfEntry settings path names (name, next)).filter p := by
  obtain ⟨front, back, rfl, hfront, hback⟩ := Node.exists_append_of_entry? wf h
  cases wf with
  | directory valid _ wfs =>
    have elsewhere : ∀ entry ∈ front ++ (name, next) :: back, entry.1 ≠ name →
        (filesOfEntry settings path names entry).filter p = [] := by
      intro entry mem other
      rw [List.filter_eq_nil_iff]
      intro f hf hp
      have here := liesBelow_of_mem_filesOfEntry (valid entry mem) (wfs entry mem) hf
      have same := (List.prefix_of_prefix_length_le here (below f hp) (by simp)).eq_of_length (by simp)
      rw [List.append_cancel_left_eq, List.singleton_inj] at same
      exact other (String.toList_inj.1 same)
    rw [filesBelow_eq_flatMap, List.filter_flatMap, List.flatMap_append, List.flatMap_cons,
      List.flatMap_eq_nil_iff.2 fun entry mem => elsewhere entry (by simp [mem]) (hfront entry mem),
      List.flatMap_eq_nil_iff.2 fun entry mem => elsewhere entry (by simp [mem]) (hback entry mem)]
    simp

/-- The files below a directory within a walked one are those of a walk of that directory. -/
theorem filter_filesBelow (settings : Settings) {path : String} {names : List String}
    {entries below : List (String × Node)} (wf : (Node.directory entries).IsWellFormed) {further : List String}
    (h : (Node.directory entries).at? further = some (.directory below))
    (walked : ∀ name ∈ further, isSkippedDirectory name = false) :
    (filesBelow settings path names entries).filter (FoundFile.liesBelow (joinAll path further))
      = filesBelow settings (joinAll path further) (names ++ further) below := by
  induction further generalizing path names entries with
  | nil =>
    obtain rfl : entries = below := by cases h; rfl
    show (filesBelow settings path names entries).filter (FoundFile.liesBelow path) = _
    rw [List.append_nil]
    refine List.filter_eq_self.2 fun f hf => ?_
    rw [← filesOfNode_directory settings path names "" (by decide)] at hf
    exact FoundFile.liesBelow_iff.2 (liesBelow_of_mem_filesOfNode wf hf)
  | cons name further ih =>
    have valid := Node.isEntryName_of_at? wf h
    obtain ⟨hname, hfurther⟩ := List.forall_mem_cons.1 walked
    obtain ⟨next, hnext, h⟩ := Option.bind_eq_some_iff.1 h
    obtain ⟨inner, rfl⟩ : ∃ inner, next = .directory inner := by
      cases further with
      | nil => exact ⟨below, Option.some.inj h⟩
      | cons further _ => exact Node.exists_directory_of_at? (by simp) h
    have through : ∀ f : FoundFile, f.liesBelow (joinAll path (name :: further)) = true →
        components path ++ [name.toList] <+: components f.path := by
      intro f hf
      rw [FoundFile.liesBelow_iff, components_joinAll path valid, List.map_cons] at hf
      exact ((List.prefix_append_right_inj _).2 ⟨_, rfl⟩).trans hf
    rw [filter_filesBelow_entry wf hnext through, filesOfEntry_eq, filesOfNode_directory _ _ _ _ hname]
    have inside := @ih (join path name) (names ++ [name]) inner (wf.entry hnext).2 h hfurther
    rw [List.append_assoc] at inside
    exact inside

/-! ## Walks with a dot in front -/

/-- The file with `./` in front of its path. -/
def FoundFile.fromCurrent (f : FoundFile) : FoundFile := { f with path := "./" ++ f.path }

/-- The file without `./` in front of its path. -/
def FoundFile.withoutCurrent (f : FoundFile) : FoundFile :=
  match f.path.toList with
  | '.' :: '/' :: rest => { f with path := String.ofList rest }
  | _ => f

private theorem FoundFile.withoutCurrent_fromCurrent (f : FoundFile) : f.fromCurrent.withoutCurrent = f := by
  have h : f.fromCurrent.path.toList = '.' :: '/' :: f.path.toList := by simp [fromCurrent]
  rw [withoutCurrent, h]
  simp [fromCurrent]

private theorem FoundFile.precedes_fromCurrent (a b : FoundFile) :
    a.fromCurrent.precedes b.fromCurrent = a.precedes b := by
  simp only [precedes, fromCurrent, components_current]

theorem filesOfNode_current (settings : Settings) {path : String} (nonempty : path ≠ "") (names : List String)
    (name : String) (node : Node) :
    filesOfNode settings.withoutGlobs ("./" ++ path) names name node
      = (filesOfNode settings.withoutGlobs path names name node).map FoundFile.fromCurrent := by
  induction node using induction_on_entries generalizing path names name with
  | file content =>
    simp only [filesOfNode, Settings.covers_withoutGlobs]
    cases isSupportedFile settings.withoutGlobs name <;> rfl
  | directory entries ih =>
    cases walked : isSkippedDirectory name with
    | true => rw [filesOfNode, filesOfNode, walked]; rfl
    | false =>
      rw [filesOfNode_directory _ _ _ _ walked, filesOfNode_directory _ _ _ _ walked, filesBelow_eq_flatMap,
        filesBelow_eq_flatMap, List.map_flatMap]
      refine List.flatMap_congr fun entry mem => ?_
      rw [filesOfEntry_eq, filesOfEntry_eq, join_append_current nonempty,
        ih entry mem (join_ne_empty path entry.1)]

private theorem filesBelow_current (settings : Settings) {path : String} (nonempty : path ≠ "") (names : List String)
    (entries : List (String × Node)) :
    filesBelow settings.withoutGlobs ("./" ++ path) names entries
      = (filesBelow settings.withoutGlobs path names entries).map FoundFile.fromCurrent := by
  have walked : isSkippedDirectory "" = false := by decide
  rw [← filesOfNode_directory _ _ names "" walked, filesOfNode_current settings nonempty,
    filesOfNode_directory _ path names "" walked]

/-! ## What a path stands for -/

/-- The files that a path stands for, none if it leads nowhere. -/
def collectAt (tree : FileTree) (settings : Settings) (path : String) : List FoundFile :=
  match tree.find? path with
  | some place => collect settings path place
  | none => []

/-- The files are taken one after the other. -/
theorem addPath_of_find? {tree : FileTree} {path : String} {place : Located} (h : tree.find? path = some place)
    (settings : Settings) (g : Gathered) :
    g.addPath tree settings path = .ok ((collectAt tree settings path).foldl (Gathered.addFile settings) g) := by
  rw [Gathered.addPath, collectAt, h]

private theorem collectAt_of_directory {tree : FileTree} {path : String} {names : List String}
    {entries : List (String × Node)} (h : tree.find? path = some ⟨names, .directory entries⟩) (settings : Settings) :
    collectAt tree settings path = sorted FoundFile.precedes (filesBelow settings path names entries) := by
  rw [collectAt, h]
  rfl

/-- The patterns choose among the files of a walk without them. -/
private theorem collectAt_eq_filter {tree : FileTree} {path : String} {names : List String}
    {entries : List (String × Node)} (h : tree.find? path = some ⟨names, .directory entries⟩) (settings : Settings) :
    collectAt tree settings path
      = (collectAt tree settings.withoutGlobs path).filter fun f => settings.covers f.path := by
  rw [collectAt_of_directory h, collectAt_of_directory h, filesBelow_eq_filter,
    filter_sorted FoundFile.precedes_total FoundFile.precedes_trans]

variable {tree : FileTree} {here : Located} {name : String} {names : List String}
  {entries : List (String × Node)}

/-- A path of names below the working directory leads where it leads with `./` in front. -/
private theorem find?_below (found : tree.find? "." = some here) (wf : here.node.IsWellFormed)
    (hbelow : here.node.at? (name :: names) = some (.directory entries)) :
    tree.find? (joinAll name names) = some ⟨here.names ++ name :: names, .directory entries⟩ := by
  obtain ⟨nonempty, -, -, slash⟩ := Node.isEntryName_of_at? wf hbelow name List.mem_cons_self
  have relative : (joinAll name names).toList.head? ≠ some '/' := by
    rw [head?_toList_joinAll nonempty]
    exact fun h => slash (List.mem_of_head? h)
  have current : joinAll "." (name :: names) = "./" ++ joinAll name names := joinAll_append_current nonempty names
  rw [← FileTree.find?_current tree (joinAll_ne_empty nonempty names) relative, ← current]
  exact FileTree.find?_joinAll found wf hbelow

/-- The files of the working directory that lie below a directory are those of that directory that the patterns cover
with `./` in front. -/
private theorem filter_collectAt_current (found : tree.find? "." = some here) (wf : here.node.IsWellFormed)
    (hbelow : here.node.at? (name :: names) = some (.directory entries))
    (walked : ∀ passed ∈ name :: names, isSkippedDirectory passed = false) (settings : Settings) :
    (collectAt tree settings ".").filter (FoundFile.liesBelow (joinAll name names))
      = ((collectAt tree settings.withoutGlobs (joinAll name names)).filter fun f =>
          settings.covers ("./" ++ f.path)).map FoundFile.fromCurrent := by
  obtain ⟨_, hentry, -⟩ := Option.bind_eq_some_iff.1 hbelow
  obtain ⟨all, hnode, -⟩ := Node.exists_of_entry? hentry
  obtain ⟨hereNames, node⟩ := here
  obtain rfl : node = .directory all := hnode
  have nonempty := (Node.isEntryName_of_at? wf hbelow name List.mem_cons_self).ne_empty
  have current : joinAll "." (name :: names) = "./" ++ joinAll name names := joinAll_append_current nonempty names
  have sameBelow : FoundFile.liesBelow (joinAll name names) = FoundFile.liesBelow (joinAll "." (name :: names)) := by
    funext f
    rw [FoundFile.liesBelow, FoundFile.liesBelow, current, components_current]
  rw [collectAt_of_directory found, collectAt_of_directory (find?_below found wf hbelow),
    filter_sorted FoundFile.precedes_total FoundFile.precedes_trans, sameBelow,
    filter_filesBelow settings wf hbelow walked, current, filesBelow_eq_filter,
    filesBelow_current settings (joinAll_ne_empty nonempty names), List.filter_map,
    sorted_map FoundFile.precedes_fromCurrent, filter_sorted FoundFile.precedes_total FoundFile.precedes_trans]
  rfl

private theorem filter_eq_filter_iff {α : Type} {p q : α → Bool} {l : List α} :
    l.filter p = l.filter q ↔ ∀ x ∈ l, p x = q x := by
  refine ⟨fun h x hx => ?_, List.filter_congr⟩
  have same : x ∈ l.filter p ↔ x ∈ l.filter q := by rw [h]
  rw [List.mem_filter, List.mem_filter] at same
  rw [Bool.eq_iff_iff]
  exact ⟨fun hp => (same.1 ⟨hx, hp⟩).2, fun hq => (same.2 ⟨hx, hq⟩).2⟩

private theorem map_withoutCurrent_collectAt_current (found : tree.find? "." = some here) (wf : here.node.IsWellFormed)
    (hbelow : here.node.at? (name :: names) = some (.directory entries))
    (walked : ∀ passed ∈ name :: names, isSkippedDirectory passed = false) (settings : Settings) :
    ((collectAt tree settings ".").filter (FoundFile.liesBelow (joinAll name names))).map FoundFile.withoutCurrent
      = (collectAt tree settings.withoutGlobs (joinAll name names)).filter fun f =>
          settings.covers ("./" ++ f.path) := by
  have undone : FoundFile.withoutCurrent ∘ FoundFile.fromCurrent = id := funext FoundFile.withoutCurrent_fromCurrent
  rw [filter_collectAt_current found wf hbelow walked, List.map_map, undone, List.map_id]

/-- The files of the working directory that lie below a directory are, apart from `./` in front, the files of that
directory exactly if the patterns cover the same files with `./` in front as without. -/
theorem collectAt_current_below_iff (found : tree.find? "." = some here) (wf : here.node.IsWellFormed)
    (hbelow : here.node.at? (name :: names) = some (.directory entries))
    (walked : ∀ passed ∈ name :: names, isSkippedDirectory passed = false) (settings : Settings) :
    ((collectAt tree settings ".").filter (FoundFile.liesBelow (joinAll name names))).map FoundFile.withoutCurrent
        = collectAt tree settings (joinAll name names) ↔
      ∀ f ∈ collectAt tree settings.withoutGlobs (joinAll name names),
        settings.covers ("./" ++ f.path) = settings.covers f.path := by
  rw [map_withoutCurrent_collectAt_current found wf hbelow walked,
    collectAt_eq_filter (find?_below found wf hbelow) settings, filter_eq_filter_iff]

/-- Without patterns it makes no difference whether a directory is walked from the working directory. -/
theorem collectAt_current_below_of_resolve {c : Config} {settings : Settings} (h : c.resolve = .ok settings)
    (includes : c.includes = []) (excludes : c.excludes = []) (found : tree.find? "." = some here)
    (wf : here.node.IsWellFormed) (hbelow : here.node.at? (name :: names) = some (.directory entries))
    (walked : ∀ passed ∈ name :: names, isSkippedDirectory passed = false) :
    ((collectAt tree settings ".").filter (FoundFile.liesBelow (joinAll name names))).map FoundFile.withoutCurrent
      = collectAt tree settings (joinAll name names) := by
  have ignores := ignoresCurrent_of_resolve h includes excludes
  rw [map_withoutCurrent_collectAt_current found wf hbelow walked,
    collectAt_eq_filter (find?_below found wf hbelow) settings]
  exact List.filter_congr fun f _ => ignores.covers_current f.path

/-! ## A script and its test -/

def scriptEntries : List (String × Node) :=
  [("a.js", .file ByteArray.empty), ("a.test.js", .file ByteArray.empty)]

def scriptTree : FileTree := { root := .directory [("src", .directory scriptEntries)] }

theorem scriptEntries_isWellFormed : (Node.directory scriptEntries).IsWellFormed := by
  have names : ∀ entry ∈ scriptEntries, IsEntryName entry.1 := by decide
  exact Node.isWellFormed_directory_iff.2 ⟨names, by decide, by simp [scriptEntries]⟩

private theorem scriptTree_isWellFormed : scriptTree.root.IsWellFormed :=
  Node.isWellFormed_directory_iff.2 ⟨by decide, by decide, by simpa using scriptEntries_isWellFormed⟩

/-- The settings of an empty configuration. -/
def plainSettings : Settings where
  includes := none
  excludes := defaultExcludes.filterMap Glob.ofString?
  documentationExtensions := Source.defaultDocumentationExtensions
  weights := {}
  policy := {}
  parallel := false

example : Config.resolve {} = .ok plainSettings := rfl

/-- The settings of a configuration that excludes `**/*.test.js`. -/
def withoutTests : Settings :=
  { plainSettings with
    excludes := [⟨.leadingDirectories :: .anyText :: ".test.js".toList.map .literal⟩] }

/-- The pattern for tests does not see a dot in front. -/
theorem collectAt_current_below_withoutTests :
    Config.resolve { excludes := ["**/*.test.js"] } = .ok withoutTests ∧
      scriptTree.find? "." = some ⟨[], scriptTree.root⟩ ∧ scriptTree.root.IsWellFormed ∧
      scriptTree.root.at? ["src"] = some (.directory scriptEntries) ∧
      (∀ passed ∈ ["src"], isSkippedDirectory passed = false) ∧
      (collectAt scriptTree withoutTests "src").map FoundFile.path = ["src/a.js"] ∧
      ((collectAt scriptTree withoutTests ".").filter (FoundFile.liesBelow "src")).map FoundFile.withoutCurrent
        = collectAt scriptTree withoutTests "src" := by
  have found : scriptTree.find? "." = some ⟨[], scriptTree.root⟩ := rfl
  have below : scriptTree.root.at? ["src"] = some (.directory scriptEntries) := rfl
  have walked : ∀ passed ∈ ["src"], isSkippedDirectory passed = false := by decide
  exact ⟨rfl, found, scriptTree_isWellFormed, below, walked, by decide +kernel,
    (collectAt_current_below_iff found scriptTree_isWellFormed below walked withoutTests).2 (by decide +kernel)⟩

/-- The settings of a configuration that includes `src/**` only. -/
def sourcesOnly : Settings :=
  { plainSettings with includes := some [⟨"src".toList.map .literal ++ [.trailingDirectories]⟩] }

private theorem resolve_sourcesOnly : Config.resolve { includes := ["src/**"] } = .ok sourcesOnly := rfl

/-- Of the working directory, `src/**` covers nothing: there all paths begin with a dot. -/
theorem not_collectAt_current_below_sourcesOnly :
    ¬ ∀ (c : Config) (settings : Settings) (tree : FileTree) (here : Located) (name : String) (names : List String)
      (entries : List (String × Node)), c.resolve = .ok settings → tree.find? "." = some here →
      here.node.IsWellFormed → here.node.at? (name :: names) = some (.directory entries) →
      (∀ passed ∈ name :: names, isSkippedDirectory passed = false) →
      ((collectAt tree settings ".").filter (FoundFile.liesBelow (joinAll name names))).map FoundFile.withoutCurrent
        = collectAt tree settings (joinAll name names) := by
  intro h
  have same := h _ sourcesOnly scriptTree ⟨[], scriptTree.root⟩ "src" [] scriptEntries resolve_sourcesOnly rfl
    scriptTree_isWellFormed rfl (by decide)
  have nothing : (((collectAt scriptTree sourcesOnly ".").filter (FoundFile.liesBelow (joinAll "src" []))).map
      FoundFile.withoutCurrent).length = 0 := by decide +kernel
  have scripts : (collectAt scriptTree sourcesOnly (joinAll "src" [])).length = 2 := by decide +kernel
  rw [same, scripts] at nothing
  cases nothing

end SpecCoverage.Command
