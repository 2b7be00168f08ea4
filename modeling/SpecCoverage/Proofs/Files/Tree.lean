import Mathlib.Data.List.Nodup
import SpecCoverage.Proofs.Files.Path

/-!
# Following paths

Where a path leads follows from where its parts lead: the path of an entry leads to the entry
(`FileTree.find?_join`), and so the path of names below a directory leads to the node at these names
(`FileTree.find?_joinAll`).  `./` in front of a path leads nowhere else (`FileTree.find?_current`).
-/

namespace SpecCoverage.Files

/-- The entries of every directory have names of their own. -/
inductive Node.IsWellFormed : Node → Prop where
  | file (content : ByteArray) : IsWellFormed (.file content)
  | directory {entries : List (String × Node)} :
      (∀ entry ∈ entries, IsEntryName entry.1) → (entries.map Prod.fst).Nodup →
      (∀ entry ∈ entries, entry.2.IsWellFormed) → IsWellFormed (.directory entries)

@[simp]
theorem Node.isWellFormed_file (content : ByteArray) : (Node.file content).IsWellFormed := .file content

theorem Node.isWellFormed_directory_iff {entries : List (String × Node)} :
    (Node.directory entries).IsWellFormed ↔ (∀ entry ∈ entries, IsEntryName entry.1) ∧
      (entries.map Prod.fst).Nodup ∧ ∀ entry ∈ entries, entry.2.IsWellFormed :=
  ⟨fun (.directory names distinct below) => ⟨names, distinct, below⟩,
    fun ⟨names, distinct, below⟩ => .directory names distinct below⟩

/-- The node that names lead to, one directory after the other. -/
def Node.at? : List String → Node → Option Node
  | [], node => some node
  | name :: names, node => (node.entry? name).bind (at? names)

/-! ## Entries -/

theorem Node.exists_of_entry? {node next : Node} {name : String} (h : node.entry? name = some next) :
    ∃ entries, node = .directory entries ∧ (name, next) ∈ entries := by
  cases node with
  | file content => cases h
  | directory entries =>
    obtain ⟨⟨name', _⟩, found, rfl⟩ := Option.map_eq_some_iff.1 h
    obtain rfl : name' = name := by simpa using List.find?_some found
    exact ⟨entries, rfl, List.mem_of_find?_eq_some found⟩

theorem Node.IsWellFormed.entry {node next : Node} {name : String} (wf : node.IsWellFormed)
    (h : node.entry? name = some next) : IsEntryName name ∧ next.IsWellFormed := by
  obtain ⟨entries, rfl, mem⟩ := exists_of_entry? h
  cases wf with
  | directory names _ below => exact ⟨names _ mem, below _ mem⟩

/-- Among entries with names of their own, an entry stands between entries of other names. -/
theorem Node.exists_append_of_entry? {entries : List (String × Node)} {next : Node} {name : String}
    (wf : (directory entries).IsWellFormed) (h : Node.entry? name (directory entries) = some next) :
    ∃ front back, entries = front ++ (name, next) :: back ∧
      (∀ entry ∈ front, entry.1 ≠ name) ∧ ∀ entry ∈ back, entry.1 ≠ name := by
  obtain ⟨_, ⟨⟩, mem⟩ := exists_of_entry? h
  obtain ⟨front, back, rfl⟩ := List.append_of_mem mem
  cases wf with
  | directory _ nodup _ =>
    rw [List.map_append, List.map_cons, List.nodup_append, List.nodup_cons] at nodup
    obtain ⟨-, ⟨notBehind, -⟩, apart⟩ := nodup
    refine ⟨front, back, rfl, fun entry hentry => ?_, fun entry hentry same => ?_⟩
    · exact apart _ (List.mem_map_of_mem hentry) _ List.mem_cons_self
    · exact notBehind (List.mem_map.2 ⟨entry, hentry, same⟩)

/-- Entries with names of their own are found by their names. -/
private theorem Node.entry?_eq_some_iff {entries : List (String × Node)} (wf : (directory entries).IsWellFormed)
    {name : String}
    {next : Node} : Node.entry? name (directory entries) = some next ↔ (name, next) ∈ entries := by
  constructor
  · intro h
    obtain ⟨_, ⟨⟩, mem⟩ := exists_of_entry? h
    exact mem
  · intro mem
    obtain ⟨found, hfound⟩ : ∃ found, Node.entry? name (directory entries) = some found := by
      rw [← Option.isSome_iff_exists, Node.entry?, Option.isSome_map, List.find?_isSome]
      exact ⟨_, mem, by simp⟩
    obtain ⟨_, ⟨⟩, mem'⟩ := exists_of_entry? hfound
    cases wf with
    | directory _ distinct _ =>
      have same := List.inj_on_of_nodup_map distinct mem' mem rfl
      rw [hfound, (Prod.mk.inj same).2]

theorem Node.at?_cons_eq_some_iff {entries : List (String × Node)} (wf : (directory entries).IsWellFormed)
    {name : String} {names : List String} {below : Node} :
    Node.at? (name :: names) (directory entries) = some below ↔
      ∃ next, (name, next) ∈ entries ∧ next.at? names = some below := by
  simp only [← entry?_eq_some_iff wf]
  exact Option.bind_eq_some_iff

/-- Names lead on from a directory only. -/
theorem Node.exists_directory_of_at? {node below : Node} {names : List String} (nonempty : names ≠ [])
    (h : node.at? names = some below) : ∃ entries, node = .directory entries := by
  obtain ⟨name, rest, rfl⟩ := List.exists_cons_of_ne_nil nonempty
  obtain ⟨_, hnext, -⟩ := Option.bind_eq_some_iff.1 h
  obtain ⟨entries, rfl, -⟩ := exists_of_entry? hnext
  exact ⟨entries, rfl⟩

theorem Node.isEntryName_of_at? {node below : Node} (wf : node.IsWellFormed) {names : List String}
    (h : node.at? names = some below) : ∀ name ∈ names, IsEntryName name := by
  induction names generalizing node with
  | nil => simp
  | cons name names ih =>
    obtain ⟨next, hnext, hbelow⟩ := Option.bind_eq_some_iff.1 h
    obtain ⟨valid, wf⟩ := wf.entry hnext
    exact List.forall_mem_cons.2 ⟨valid, ih wf hbelow⟩

/-! ## Following -/

theorem follow_append (root : Node) (trail : Trail) (first rest : List String) :
    follow root trail (first ++ rest) = (follow root trail first).bind fun trail => follow root trail rest := by
  induction first generalizing trail with
  | nil => rfl
  | cons piece first ih =>
    simp only [List.cons_append, follow, ih]
    split
    · rfl
    · split
      · rfl
      · split
        · rfl
        · split <;> rfl

/-- A name is followed to the entry of that name. -/
private theorem follow_name (root : Node) (trail : Trail) {name : String} (valid : IsEntryName name) :
    follow root trail [name]
      = (Node.entry? name (locate root trail).node).map fun next => (name, next) :: trail := by
  rw [follow]
  cases h : (locate root trail).node with
  | file content => rfl
  | directory entries =>
    simp only [Node.isDirectory, valid.ne_empty, valid.ne_current, valid.ne_parent]
    cases Node.entry? name (.directory entries) <;> rfl

private theorem follow_empty_piece {root : Node} {trail trail' : Trail} (h : follow root trail [""] = some trail') :
    trail' = trail := by
  simp only [follow] at h
  split at h
  · cases h
  · cases h; rfl

/-- A dot leads nowhere, but only a directory can be followed. -/
private theorem follow_current (root : Node) (trail : Trail) {pieces : List String} (h : pieces ≠ []) :
    follow root trail ("." :: pieces) = follow root trail pieces := by
  obtain ⟨piece, rest, rfl⟩ := List.exists_cons_of_ne_nil h
  conv => lhs; rw [follow]
  split
  · next notDirectory => rw [follow, if_pos notDirectory]
  · rfl

/-! ## Paths -/

namespace FileTree

/-- The place that the pieces of a path are followed from. -/
def start? (tree : FileTree) (path : String) : Option Trail :=
  if path.toList.head? = some '/' then some [] else follow tree.root [] tree.workingDirectory

theorem find?_eq (tree : FileTree) {path : String} (h : path ≠ "") :
    tree.find? path = (tree.start? path).bind fun start =>
      (follow tree.root start ((pieces path.toList).map String.ofList)).map (locate tree.root) := by
  simp only [find?, if_neg h, start?, Option.map_eq_bind]
  split <;> rfl

theorem ne_empty_of_find? {tree : FileTree} {path : String} {place : Located} (h : tree.find? path = some place) :
    path ≠ "" := by
  rintro rfl
  cases h

private theorem start?_join (tree : FileTree) {directory : String} (h : directory ≠ "") (name : String) :
    tree.start? (join directory name) = tree.start? directory := by
  rw [start?, start?, head?_toList_join h]

/-- The path of an entry leads to the entry. -/
theorem find?_join {tree : FileTree} {directory : String} {place : Located} (h : tree.find? directory = some place)
    {name : String} (valid : IsEntryName name) :
    tree.find? (join directory name)
      = (place.node.entry? name).map fun next => ⟨place.names ++ [name], next⟩ := by
  have nonempty := ne_empty_of_find? h
  rw [find?_eq tree nonempty] at h
  obtain ⟨start, hstart, h⟩ := Option.bind_eq_some_iff.1 h
  obtain ⟨trail, htrail, rfl⟩ := Option.map_eq_some_iff.1 h
  obtain ⟨base, hjoin, hbase⟩ := exists_toList_join directory name
  have hfollow : follow tree.root start ((pieces base).map String.ofList) = some trail := by
    rcases hbase with hbase | hbase
    · rwa [hbase] at htrail
    · rw [hbase, pieces_append_slash, List.map_append, follow_append] at htrail
      obtain ⟨trail', hfollow, last⟩ := Option.bind_eq_some_iff.1 htrail
      rw [hfollow, follow_empty_piece last]
  rw [find?_eq tree (join_ne_empty directory name), start?_join tree nonempty, hstart, Option.bind_some, hjoin,
    pieces_append_slash, pieces_of_slash_not_mem valid.slash_not_mem, List.map_append, follow_append, hfollow,
    Option.bind_some]
  show Option.map _ (follow tree.root trail [String.ofList name.toList]) = _
  rw [String.ofList_toList, follow_name tree.root trail valid, Option.map_map]
  congr 1
  funext next
  simp [locate]

/-- The path of names below a directory leads to the node at these names. -/
theorem find?_joinAll {tree : FileTree} {directory : String} {place : Located}
    (h : tree.find? directory = some place) (wf : place.node.IsWellFormed) {names : List String} {below : Node}
    (hbelow : place.node.at? names = some below) :
    tree.find? (joinAll directory names) = some ⟨place.names ++ names, below⟩ := by
  induction names generalizing directory place with
  | nil =>
    obtain rfl : place.node = below := Option.some.inj hbelow
    rw [List.append_nil]
    exact h
  | cons name names ih =>
    obtain ⟨next, hnext, hbelow⟩ := Option.bind_eq_some_iff.1 hbelow
    obtain ⟨valid, wf⟩ := wf.entry hnext
    have step : tree.find? (join directory name) = some ⟨place.names ++ [name], next⟩ := by
      rw [find?_join h valid, hnext, Option.map_some]
    rw [joinAll_cons, ih step wf hbelow, List.append_assoc]
    rfl

/-- `./` in front of a path leads nowhere else. -/
theorem find?_current (tree : FileTree) {path : String} (nonempty : path ≠ "")
    (relative : path.toList.head? ≠ some '/') : tree.find? ("./" ++ path) = tree.find? path := by
  have hlist : ("./" ++ path).toList = ['.'] ++ '/' :: path.toList := by simp
  have hpieces : (pieces ("./" ++ path).toList).map String.ofList = "." :: (pieces path.toList).map String.ofList := by
    rw [hlist, pieces_append_slash]
    rfl
  have hstart : tree.start? ("./" ++ path) = tree.start? path := by
    rw [start?, start?, if_neg relative, if_neg (by simp)]
  rw [find?_eq tree nonempty, find?_eq tree (by simp), hstart, hpieces]
  congr 1
  funext start
  rw [follow_current _ _ (by simpa using pieces_ne_nil path.toList)]

end FileTree

end SpecCoverage.Files
