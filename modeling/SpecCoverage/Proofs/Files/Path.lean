import SpecCoverage.Files.Tree

/-!
# Paths of entries

The path of an entry of a directory has the components of the directory and the name of the entry
(`components_join`), whether or not the path of the directory ends with a slash.  A path that begins with `./` has the
components of what follows (`components_current`).
-/

namespace SpecCoverage.Files

/-- What can be the name of an entry of a directory. -/
structure IsEntryName (name : String) : Prop where
  ne_empty : name ≠ ""
  ne_current : name ≠ "."
  ne_parent : name ≠ ".."
  slash_not_mem : '/' ∉ name.toList

instance (name : String) : Decidable (IsEntryName name) :=
  decidable_of_iff (name ≠ "" ∧ name ≠ "." ∧ name ≠ ".." ∧ '/' ∉ name.toList)
    ⟨fun ⟨h1, h2, h3, h4⟩ => ⟨h1, h2, h3, h4⟩, fun ⟨h1, h2, h3, h4⟩ => ⟨h1, h2, h3, h4⟩⟩

/-! ## Pieces -/

theorem pieces_ne_nil (cs : List Char) : pieces cs ≠ [] := by
  cases cs with
  | nil => simp [pieces]
  | cons c cs =>
    unfold pieces
    split
    · simp
    · split <;> simp

theorem pieces_append_slash (a b : List Char) : pieces (a ++ '/' :: b) = pieces a ++ pieces b := by
  induction a with
  | nil => simp [pieces]
  | cons c a ih =>
    obtain ⟨piece, rest, h⟩ := List.exists_cons_of_ne_nil (pieces_ne_nil a)
    rw [h] at ih
    rw [List.cons_append, pieces, ih, pieces, h]
    split <;> rfl

theorem pieces_of_slash_not_mem {cs : List Char} (h : '/' ∉ cs) : pieces cs = [cs] := by
  induction cs with
  | nil => rfl
  | cons c cs ih =>
    obtain ⟨hc, hcs⟩ := not_or.1 (mt List.mem_cons.2 h)
    rw [pieces, if_neg (Ne.symm hc), ih hcs]

/-! ## Joined paths -/

/-- A joined path is a base, a slash and the name, where the directory is the base or the base with a slash. -/
theorem exists_toList_join (directory name : String) :
    ∃ base, (join directory name).toList = base ++ '/' :: name.toList ∧
      (directory.toList = base ∨ directory.toList = base ++ ['/']) := by
  unfold join
  split
  · next ends =>
    obtain ⟨base, h⟩ := List.getLast?_eq_some_iff.1 ends
    exact ⟨base, by simp [h], .inr h⟩
  · exact ⟨directory.toList, by simp, .inl rfl⟩

private theorem components_eq_of_slash {directory : String} {base : List Char}
    (h : directory.toList = base ∨ directory.toList = base ++ ['/']) :
    components directory = (pieces base).filter fun piece => !(piece.isEmpty || piece = ['.']) := by
  rcases h with h | h
  · rw [components, h]
  · rw [components, h, pieces_append_slash, List.filter_append]
    simp [pieces]

theorem components_join (directory : String) {name : String} (valid : IsEntryName name) :
    components (join directory name) = components directory ++ [name.toList] := by
  obtain ⟨base, hjoin, hbase⟩ := exists_toList_join directory name
  have notEmpty : name.toList ≠ [] := fun h => valid.ne_empty (String.toList_eq_nil_iff.1 h)
  have notCurrent : name.toList ≠ ['.'] := fun h => valid.ne_current (String.toList_inj.1 h)
  rw [components, hjoin, pieces_append_slash, pieces_of_slash_not_mem valid.slash_not_mem, List.filter_append,
    ← components_eq_of_slash hbase]
  simp [notEmpty, notCurrent]

theorem components_current (path : String) : components ("./" ++ path) = components path := by
  have h : ("./" ++ path).toList = ['.'] ++ '/' :: path.toList := by simp
  rw [components, h, pieces_append_slash]
  rfl

theorem join_ne_empty (directory name : String) : join directory name ≠ "" := by
  obtain ⟨base, h, -⟩ := exists_toList_join directory name
  intro empty
  simp [empty] at h

theorem head?_toList_join {directory : String} (h : directory ≠ "") (name : String) :
    (join directory name).toList.head? = directory.toList.head? := by
  obtain ⟨base, hjoin, hbase⟩ := exists_toList_join directory name
  rw [hjoin]
  cases base with
  | cons c base => rcases hbase with hbase | hbase <;> simp [hbase]
  | nil =>
    -- only the root is nothing but a slash
    rcases hbase with hbase | hbase
    · exact absurd (String.toList_eq_nil_iff.1 hbase) h
    · simp [hbase]

/-- Putting `./` in front of the path of a directory puts it in front of those of its entries. -/
theorem join_append_current {directory : String} (h : directory ≠ "") (name : String) :
    join ("./" ++ directory) name = "./" ++ join directory name := by
  have nonempty : directory.toList ≠ [] := fun empty => h (String.toList_eq_nil_iff.1 empty)
  have last : ("./" ++ directory).toList.getLast? = directory.toList.getLast? := by
    rw [String.toList_append, List.getLast?_append, List.getLast?_eq_some_getLast nonempty, Option.some_or]
  unfold join
  rw [last]
  split <;> simp [String.append_assoc]

/-! ## Paths of entries of entries -/

/-- The path of an entry of an entry and so on. -/
def joinAll (directory : String) (names : List String) : String := names.foldl join directory

theorem joinAll_cons (directory name : String) (names : List String) :
    joinAll directory (name :: names) = joinAll (join directory name) names := rfl

theorem joinAll_ne_empty {directory : String} (h : directory ≠ "") (names : List String) :
    joinAll directory names ≠ "" := by
  induction names generalizing directory with
  | nil => exact h
  | cons name names ih => exact ih (join_ne_empty directory name)

theorem head?_toList_joinAll {directory : String} (h : directory ≠ "") (names : List String) :
    (joinAll directory names).toList.head? = directory.toList.head? := by
  induction names generalizing directory with
  | nil => rfl
  | cons name names ih => rw [joinAll_cons, ih (join_ne_empty directory name), head?_toList_join h]

theorem joinAll_append_current {directory : String} (h : directory ≠ "") (names : List String) :
    joinAll ("./" ++ directory) names = "./" ++ joinAll directory names := by
  induction names generalizing directory with
  | nil => rfl
  | cons name names ih =>
    rw [joinAll_cons, join_append_current h, ih (join_ne_empty directory name), joinAll_cons]

theorem components_joinAll (directory : String) {names : List String} (valid : ∀ name ∈ names, IsEntryName name) :
    components (joinAll directory names) = components directory ++ names.map String.toList := by
  induction names generalizing directory with
  | nil => simp [joinAll]
  | cons name names ih =>
    obtain ⟨hname, hnames⟩ := List.forall_mem_cons.1 valid
    rw [joinAll_cons, ih (join directory name) hnames, components_join directory hname, List.map_cons,
      List.append_assoc]
    rfl

end SpecCoverage.Files
