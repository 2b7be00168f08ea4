import SpecCoverage.Proofs.Functions.Occurrences

/-!
# Functions apart from their places

The name of a function, the names of its parameters and its complexity follow from the shape of the tree alone: they
are the same wherever the function stands (`describe_of_unplaced_eq`).  `Tree.unplaced` is the shape of a tree, and
discovery finds the same in a tree as in its shape (`nodeOccurrences_unplaced`).
-/

namespace SpecCoverage.Program

mutual

/-- The tree without the extents of its nodes. -/
def Tree.unplaced : Tree → Tree
  | .node kind _ children => .node kind ⟨0, 0⟩ (unplacedAll children)

def Tree.unplacedAll : List Tree → List Tree
  | [] => []
  | t :: rest => t.unplaced :: unplacedAll rest

end

@[simp]
theorem Tree.unplacedAll_eq_map (ts : List Tree) : unplacedAll ts = ts.map unplaced := by
  induction ts with
  | nil => rfl
  | cons t ts ih => rw [unplacedAll, ih, List.map_cons]

theorem Tree.unplaced_node (kind : Kind) (extent : Extent) (children : List Tree) :
    (node kind extent children).unplaced = node kind ⟨0, 0⟩ (children.map unplaced) := by
  rw [unplaced, unplacedAll_eq_map]

@[simp]
theorem Tree.kind_unplaced (t : Tree) : t.unplaced.kind = t.kind := by
  obtain ⟨kind, extent, children⟩ := t
  rfl

@[simp]
theorem Tree.children_unplaced (t : Tree) : t.unplaced.children = t.children.map unplaced := by
  obtain ⟨kind, extent, children⟩ := t
  rw [unplaced_node]
  rfl

/-- A node at any depth of a tree. -/
inductive StandsIn (t : Tree) : Tree → Prop where
  | root : StandsIn t t
  | child {kind : Kind} {extent : Extent} {children : List Tree} {below : Tree} :
      below ∈ children → StandsIn t below → StandsIn t (.node kind extent children)

end SpecCoverage.Program

namespace SpecCoverage.Functions

open Program Sorting

/-! ## Descriptions -/

mutual

private theorem branches_unplaced (t : Tree) : branches t.unplaced = branches t := by
  obtain ⟨kind, extent, children⟩ := t
  rw [Tree.unplaced_node, branches, branches, branchesOfAll_unplaced children]

private theorem branchesOfAll_unplaced (ts : List Tree) : branchesOfAll (ts.map Tree.unplaced) = branchesOfAll ts := by
  cases ts with
  | nil => rfl
  | cons t ts => rw [List.map_cons, branchesOfAll, branchesOfAll, branches_unplaced t, branchesOfAll_unplaced ts]

end

theorem complexity_unplaced (t : Tree) : complexity t.unplaced = complexity t := by
  rw [complexity, complexity, branches_unplaced]

theorem parameterName_unplaced : ∀ t : Tree, parameterName t.unplaced = parameterName t
  | .node kind extent children => by
    rw [Tree.unplaced_node]
    cases kind with
    | assignmentPattern =>
      match children with
      | [] => rfl
      | target :: _ => exact parameterName_unplaced target
    | restPattern =>
      match children with
      | [] => rfl
      | .node kind _ _ :: _ => cases kind <;> rfl
    | _ => rfl

theorem parameterPatterns_unplaced (function : Tree) :
    parameterPatterns function.unplaced = (parameterPatterns function).map Tree.unplaced := by
  unfold parameterPatterns
  rw [Tree.children_unplaced, List.filterMap_map, List.map_filterMap]
  congr 1
  funext t
  by_cases h : t.kind = .parameter <;> simp [h]

/-! ## Occurrences -/

/-- The occurrence in the tree without extents. -/
def Occurrence.unplaced (o : Occurrence) : Occurrence :=
  ⟨o.name, o.kind, ⟨0, 0⟩, o.function.unplaced⟩

private theorem hasBody_unplaced (ts : List Tree) : hasBody (ts.map Tree.unplaced) = hasBody ts := by
  unfold hasBody
  rw [List.getLast?_map]
  cases ts.getLast? <;> simp

private theorem functionValue?_unplaced :
    ∀ t : Tree, functionValue? t.unplaced = (functionValue? t).map Tree.unplaced
  | .node kind extent children => by
    rw [Tree.unplaced_node]
    cases kind with
    | parenthesized =>
      match children with
      | [] | _ :: _ :: _ => rfl
      | [inner] => exact functionValue?_unplaced inner
    | function form => cases form <;> simp [functionValue?, Tree.unplaced_node]
    | _ => rfl

private theorem bindingOccurrence?_unplaced (extent : Extent) (t : Tree) :
    bindingOccurrence? ⟨0, 0⟩ t.unplaced = (bindingOccurrence? extent t).map Occurrence.unplaced := by
  obtain ⟨kind, placed, children⟩ := t
  rw [Tree.unplaced_node]
  cases kind with
  | declarator =>
    match children with
    | [] => rfl
    | .node target _ _ :: rest =>
      cases target with
      | binding name =>
        match rest with
        | [] | _ :: _ :: _ => rfl
        | [value] =>
          simp [Tree.unplaced_node, bindingOccurrence?, functionValue?_unplaced, Option.map_map, Function.comp_def,
            Occurrence.unplaced]
      | _ => rfl
  | _ => rfl

/-- A node makes the same occurrences wherever it stands. -/
theorem nodeOccurrences_unplaced (isExported : Bool) (t : Tree) :
    nodeOccurrences isExported t.unplaced = (nodeOccurrences isExported t).map Occurrence.unplaced := by
  obtain ⟨kind, extent, children⟩ := t
  rw [Tree.unplaced_node]
  cases kind with
  | variableDeclaration =>
    rw [nodeOccurrences, nodeOccurrences, List.filterMap_map, List.map_filterMap]
    congr 1
    funext t
    exact bindingOccurrence?_unplaced extent t
  | function form =>
    cases form with
    | declaration name? =>
      cases name? with
      | none => rfl
      | some name =>
        simp only [nodeOccurrences, hasBody_unplaced]
        split <;> simp [Occurrence.unplaced, Tree.unplaced_node]
    | method name? =>
      cases name? with
      | none => rfl
      | some name =>
        simp only [nodeOccurrences, hasBody_unplaced]
        split <;> simp [Occurrence.unplaced, Tree.unplaced_node]
    | _ => rfl
  | _ => rfl

/-- Nodes of one shape make occurrences of one shape. -/
theorem exists_occurrence_of_unplaced_eq {isExported : Bool} {t again : Tree} {o : Occurrence}
    (mem : o ∈ nodeOccurrences isExported t) (same : again.unplaced = t.unplaced) :
    ∃ o' ∈ nodeOccurrences isExported again, o'.unplaced = o.unplaced := by
  refine List.mem_map.1 ?_
  rw [← nodeOccurrences_unplaced, same, nodeOccurrences_unplaced]
  exact List.mem_map_of_mem mem

/-- Occurrences of one shape are functions of one name, of the same names of parameters and of one complexity. -/
theorem describe_of_unplaced_eq {o o' : Occurrence} (same : o'.unplaced = o.unplaced) (source source' : List Char)
    (fileName : String) :
    (describe source' fileName o').name = (describe source fileName o).name
      ∧ (describe source' fileName o').parameters.map Parameter.name
        = (describe source fileName o).parameters.map Parameter.name
      ∧ (describe source' fileName o').complexity = (describe source fileName o).complexity := by
  have parameters (source : List Char) (o : Occurrence) : (describe source fileName o).parameters.map Parameter.name
      = (parameterPatterns o.function.unplaced).map parameterName := by
    simp [describe, parameterPatterns_unplaced, Function.comp_def, parameterName_unplaced]
  obtain ⟨name, -, -, function⟩ := Occurrence.mk.inj same
  refine ⟨name, by rw [parameters, parameters, function], ?_⟩
  show complexity o'.function = complexity o.function
  rw [← complexity_unplaced, function, complexity_unplaced]

/-! ## Nodes -/

mutual

theorem exists_node_of_mem_occurrences {isExported : Bool} {o : Occurrence} (t : Tree)
    (mem : o ∈ occurrences isExported t) : ∃ node isExported, StandsIn node t ∧ o ∈ nodeOccurrences isExported node := by
  obtain ⟨kind, extent, children⟩ := t
  rw [occurrences, List.mem_append] at mem
  rcases mem with here | below
  · exact ⟨_, _, .root, here⟩
  · obtain ⟨child, hchild, node, exported, stands, h⟩ := exists_node_of_mem_occurrencesOfAll children below
    exact ⟨node, exported, .child hchild stands, h⟩

private theorem exists_node_of_mem_occurrencesOfAll {isExported : Bool} {o : Occurrence} (ts : List Tree)
    (mem : o ∈ occurrencesOfAll isExported ts) :
    ∃ t ∈ ts, ∃ node isExported, StandsIn node t ∧ o ∈ nodeOccurrences isExported node := by
  cases ts with
  | nil => cases mem
  | cons t ts =>
    rw [occurrencesOfAll, List.mem_append] at mem
    rcases mem with first | others
    · exact ⟨t, List.mem_cons_self, exists_node_of_mem_occurrences t first⟩
    · obtain ⟨child, hchild, h⟩ := exists_node_of_mem_occurrencesOfAll ts others
      exact ⟨child, List.mem_cons_of_mem _ hchild, h⟩

end

theorem mem_occurrencesOfAll {isExported : Bool} {o : Occurrence} {t : Tree} {ts : List Tree} (ht : t ∈ ts)
    (mem : o ∈ nodeOccurrences isExported t) : o ∈ occurrencesOfAll isExported ts := by
  induction ts with
  | nil => cases ht
  | cons head ts ih =>
    rw [occurrencesOfAll, List.mem_append]
    rcases List.mem_cons.1 ht with rfl | ht
    · obtain ⟨kind, extent, children⟩ := t
      exact .inl (List.mem_append.2 (.inl mem))
    · exact .inr (ih ht)

theorem exists_of_bindingOccurrence? {extent : Extent} {t : Tree} {o : Occurrence}
    (h : bindingOccurrence? extent t = some o) : ∃ name function, o = ⟨name, .binding, extent, function⟩ := by
  unfold bindingOccurrence? at h
  split at h
  · obtain ⟨function, -, rfl⟩ := Option.map_eq_some_iff.1 h
    exact ⟨_, function, rfl⟩
  · cases h

/-- The kind of the node that the code of a function is the text of. -/
def FunctionKind.nodeKind (name : String) : FunctionKind → Kind
  | .declaration | .exported => .function (.declaration (some name))
  | .binding => .variableDeclaration
  | .method => .function (.method (some name))

theorem extent_kind_of_mem_nodeOccurrences {isExported : Bool} {t : Tree} {o : Occurrence}
    (mem : o ∈ nodeOccurrences isExported t) : t.extent = o.extent ∧ t.kind = o.kind.nodeKind o.name := by
  unfold nodeOccurrences at mem
  split at mem
  · next extent children =>
    obtain ⟨declarator, -, h⟩ := List.mem_filterMap.1 mem
    obtain ⟨name, function, rfl⟩ := exists_of_bindingOccurrence? h
    exact ⟨rfl, rfl⟩
  · split at mem
    · obtain rfl := List.mem_singleton.1 mem
      cases isExported <;> exact ⟨rfl, rfl⟩
    · cases mem
  · split at mem
    · obtain rfl := List.mem_singleton.1 mem
      exact ⟨rfl, rfl⟩
    · cases mem
  · cases mem

/-- Only a declaration depends on whether it is exported, and is then of another kind. -/
theorem mem_nodeOccurrences_false {isExported : Bool} {t : Tree} {o : Occurrence}
    (mem : o ∈ nodeOccurrences isExported t) (notExported : o.kind ≠ .exported) : o ∈ nodeOccurrences false t := by
  cases isExported with
  | false => exact mem
  | true =>
    unfold nodeOccurrences at mem ⊢
    split at mem
    · exact mem
    · split at mem
      · obtain rfl := List.mem_singleton.1 mem
        exact absurd rfl notExported
      · cases mem
    · exact mem
    · cases mem

end SpecCoverage.Functions
