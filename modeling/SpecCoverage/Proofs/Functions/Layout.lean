import Mathlib.Data.List.Forall2
import SpecCoverage.Proofs.Functions.Unplaced
import SpecCoverage.Proofs.Sorting

/-!
# Layout

Two files whose trees have one shape have the same functions, however the files are laid out.

* (order) In a tree whose nodes stand in their order, each within the one that holds it, the functions are found in
  the order in which their code begins, so sorting leaves them where they are
  (`orderedOccurrences_eq_of_isPlaced`).
* (labels) What the code shows of parameters and results follows from the shape (`shownParameterType?_unplaced`,
  `shownResultType?_unplaced`).  Only types that are stated, in ascriptions and in doc comments, are read from the
  file.
-/

namespace SpecCoverage.Program

mutual

/-- The nodes of a tree stand in their order, each within the one that holds it. -/
def Tree.isPlaced : Tree → Bool
  | .node _ extent children => extent.start ≤ extent.stop && arePlaced extent.start extent.stop children

/-- The trees stand between two positions, one behind the other. -/
def Tree.arePlaced (start stop : Nat) : List Tree → Bool
  | [] => true
  | t :: rest => start ≤ t.start && t.stop ≤ stop && t.isPlaced && arePlaced t.stop stop rest

end

private theorem Tree.isPlaced_node_iff {kind : Kind} {extent : Extent} {children : List Tree} :
    (Tree.node kind extent children).isPlaced = true ↔
      extent.start ≤ extent.stop ∧ arePlaced extent.start extent.stop children = true := by
  simp [isPlaced]

private theorem Tree.arePlaced_cons_iff {start stop : Nat} {t : Tree} {rest : List Tree} :
    arePlaced start stop (t :: rest) = true ↔
      start ≤ t.start ∧ t.stop ≤ stop ∧ t.isPlaced = true ∧ arePlaced t.stop stop rest = true := by
  simp [arePlaced, and_assoc]

private theorem Tree.start_le_stop_of_isPlaced {t : Tree} (placed : t.isPlaced = true) : t.start ≤ t.stop := by
  obtain ⟨kind, extent, children⟩ := t
  exact (isPlaced_node_iff.1 placed).1

end SpecCoverage.Program

namespace SpecCoverage.Functions

open Program Sorting

/-! ## Order -/

private theorem start_of_mem_nodeOccurrences {isExported : Bool} {t : Tree} {o : Occurrence}
    (mem : o ∈ nodeOccurrences isExported t) :
    o.extent.start = t.start :=
  congrArg Extent.start (extent_kind_of_mem_nodeOccurrences mem).1.symm

mutual

private theorem start_of_mem_occurrences {isExported : Bool} {o : Occurrence} (t : Tree) (placed : t.isPlaced = true)
    (mem : o ∈ occurrences isExported t) : t.start ≤ o.extent.start ∧ o.extent.start ≤ t.stop := by
  obtain ⟨kind, extent, children⟩ := t
  rw [occurrences, List.mem_append] at mem
  obtain ⟨inOrder, below⟩ := Tree.isPlaced_node_iff.1 placed
  rcases mem with here | mem
  · rw [start_of_mem_nodeOccurrences here]
    exact ⟨Nat.le_refl _, inOrder⟩
  · exact start_of_mem_occurrencesOfAll children below mem

private theorem start_of_mem_occurrencesOfAll {isExported : Bool} {o : Occurrence} {start stop : Nat} (ts : List Tree)
    (placed : Tree.arePlaced start stop ts = true) (mem : o ∈ occurrencesOfAll isExported ts) :
    start ≤ o.extent.start ∧ o.extent.start ≤ stop := by
  cases ts with
  | nil => cases mem
  | cons t ts =>
    rw [occurrencesOfAll, List.mem_append] at mem
    obtain ⟨start_le, le_stop, first, others⟩ := Tree.arePlaced_cons_iff.1 placed
    rcases mem with mem | mem
    · obtain ⟨lower, upper⟩ := start_of_mem_occurrences t first mem
      exact ⟨Nat.le_trans start_le lower, Nat.le_trans upper le_stop⟩
    · obtain ⟨lower, upper⟩ := start_of_mem_occurrencesOfAll ts others mem
      have := Tree.start_le_stop_of_isPlaced first
      exact ⟨by omega, upper⟩

end

mutual

private theorem pairwise_occurrences (isExported : Bool) (t : Tree) (placed : t.isPlaced = true) :
    (occurrences isExported t).Pairwise fun a b => a.extent.start ≤ b.extent.start := by
  obtain ⟨kind, extent, children⟩ := t
  obtain ⟨-, below⟩ := Tree.isPlaced_node_iff.1 placed
  rw [occurrences, List.pairwise_append]
  refine ⟨?_, pairwise_occurrencesOfAll _ children below, fun a ha b hb => ?_⟩
  · -- What a node makes by itself begins where the node does.
    refine List.pairwise_of_forall_mem_list fun a ha b hb => ?_
    exact Nat.le_of_eq ((start_of_mem_nodeOccurrences ha).trans (start_of_mem_nodeOccurrences hb).symm)
  · rw [start_of_mem_nodeOccurrences ha]
    exact (start_of_mem_occurrencesOfAll children below hb).1

private theorem pairwise_occurrencesOfAll (isExported : Bool) {start stop : Nat} (ts : List Tree)
    (placed : Tree.arePlaced start stop ts = true) :
    (occurrencesOfAll isExported ts).Pairwise fun a b => a.extent.start ≤ b.extent.start := by
  cases ts with
  | nil => exact .nil
  | cons t ts =>
    obtain ⟨-, -, first, others⟩ := Tree.arePlaced_cons_iff.1 placed
    rw [occurrencesOfAll, List.pairwise_append]
    refine ⟨pairwise_occurrences isExported t first, pairwise_occurrencesOfAll isExported ts others, ?_⟩
    intro a ha b hb
    exact Nat.le_trans (start_of_mem_occurrences t first ha).2 (start_of_mem_occurrencesOfAll ts others hb).1

end

/-- Where the nodes of a tree stand in their order, its functions are found in theirs. -/
theorem orderedOccurrences_eq_of_isPlaced {t : Tree} (placed : t.isPlaced = true) :
    orderedOccurrences t = occurrences false t :=
  sorted_eq_self <| (pairwise_occurrences false t placed).imp fun h => by simpa using h

mutual

private theorem occurrences_unplaced (isExported : Bool) (t : Tree) :
    occurrences isExported t.unplaced = (occurrences isExported t).map Occurrence.unplaced := by
  obtain ⟨kind, extent, children⟩ := t
  rw [Tree.unplaced_node, occurrences, occurrences, List.map_append, ← nodeOccurrences_unplaced,
    Tree.unplaced_node, occurrencesOfAll_unplaced]

private theorem occurrencesOfAll_unplaced (isExported : Bool) (ts : List Tree) :
    occurrencesOfAll isExported (ts.map Tree.unplaced) = (occurrencesOfAll isExported ts).map Occurrence.unplaced := by
  cases ts with
  | nil => rfl
  | cons t ts =>
    rw [List.map_cons, occurrencesOfAll, occurrencesOfAll, List.map_append, occurrences_unplaced,
      occurrencesOfAll_unplaced]

end

/-- Trees of one shape have functions of one shape, in the same order. -/
private theorem forall₂_unplaced_orderedOccurrences {t t' : Tree} (same : t'.unplaced = t.unplaced)
    (placed : t.isPlaced = true) (placed' : t'.isPlaced = true) :
    List.Forall₂ (fun o o' => o'.unplaced = o.unplaced) (orderedOccurrences t) (orderedOccurrences t') := by
  have shapes : (orderedOccurrences t').map Occurrence.unplaced = (orderedOccurrences t).map Occurrence.unplaced := by
    rw [orderedOccurrences_eq_of_isPlaced placed, orderedOccurrences_eq_of_isPlaced placed', ← occurrences_unplaced,
      same, occurrences_unplaced]
  rw [← List.forall₂_eq_eq_eq, List.forall₂_map_left_iff, List.forall₂_map_right_iff] at shapes
  exact shapes.flip

/-! ## Labels -/

private theorem defaultType?_unplaced : ∀ t : Tree, defaultType? t.unplaced = defaultType? t
  | .node kind extent children => by
    rw [Tree.unplaced_node]
    cases kind with
    | parenthesized =>
      match children with
      | [] => rfl
      | [inner] => exact defaultType?_unplaced inner
      | _ :: _ :: _ => rfl
    | literal l => cases l <;> rfl
    | _ => rfl

theorem shownParameterType?_unplaced : ∀ t : Tree, shownParameterType? t.unplaced = shownParameterType? t
  | .node kind extent children => by
    rw [Tree.unplaced_node]
    cases kind with
    | assignmentPattern =>
      match children with
      | [] | [_] | _ :: _ :: _ :: _ => rfl
      | [_, value] => exact defaultType?_unplaced value
    | _ => rfl

private theorem expressionType?_unplaced : ∀ t : Tree, expressionType? t.unplaced = expressionType? t
  | .node kind extent children => by
    rw [Tree.unplaced_node]
    cases kind with
    | parenthesized =>
      match children with
      | [] => rfl
      | [inner] => exact expressionType?_unplaced inner
      | _ :: _ :: _ => rfl
    | _ => rfl

mutual

private theorem ownReturns_unplaced (t : Tree) :
    ownReturns t.unplaced = (ownReturns t).map (Option.map Tree.unplaced) := by
  obtain ⟨kind, extent, children⟩ := t
  rw [Tree.unplaced_node]
  cases kind with
  | function form => rfl
  | returnStatement => simp [ownReturns]
  | _ => exact ownReturnsOfAll_unplaced children

private theorem ownReturnsOfAll_unplaced (ts : List Tree) :
    ownReturnsOfAll (ts.map Tree.unplaced) = (ownReturnsOfAll ts).map (Option.map Tree.unplaced) := by
  cases ts with
  | nil => rfl
  | cons t ts =>
    rw [List.map_cons, ownReturnsOfAll, ownReturnsOfAll, List.map_append, ownReturns_unplaced,
      ownReturnsOfAll_unplaced]

end

private theorem observe_unplaced (known : Option String) (argument : Option Tree) :
    observe known (argument.map Tree.unplaced) = observe known argument := by
  cases argument with
  | none => rfl
  | some argument => simp [observe, expressionType?_unplaced]

theorem shownResultType?_unplaced (function : Tree) :
    shownResultType? function.unplaced = shownResultType? function := by
  unfold shownResultType?
  rw [Tree.children_unplaced, List.getLast?_map, Tree.kind_unplaced]
  cases function.children.getLast? with
  | none => rfl
  | some body =>
    simp only [Option.map_some, Tree.kind_unplaced, ownReturns_unplaced, List.foldl_map, observe_unplaced,
      expressionType?_unplaced]

/-- No type of the function is stated in its file: its parameters and its result are not ascribed, and no doc comment
precedes it. -/
structure Occurrence.IsUnstated (source : List Char) (o : Occurrence) : Prop where
  parameters : ∀ pattern ∈ parameterPatterns o.function, parameterAscription? pattern = none
  result : ownAscription? o.function.children = none
  doc : DocComment.preceding? source o.extent.start = none

/-- Without a stated type the labels are those that the code shows. -/
private theorem Occurrence.IsUnstated.describe_eq {source : List Char} {o : Occurrence} (h : o.IsUnstated source)
    (fileName : String) :
    (describe source fileName o).parameters = (parameterPatterns o.function.unplaced).map (fun pattern =>
        ⟨parameterName pattern, shownParameterType? pattern⟩)
      ∧ (describe source fileName o).result = shownResultType? o.function.unplaced := by
  have noDoc : DocComment.preceding? source (describe source fileName o).span.start = none := h.doc
  constructor
  · show (parameterPatterns o.function).map (fun pattern => (⟨parameterName pattern, parameterType? source
      (DocComment.preceding? source (describe source fileName o).span.start) pattern⟩ : Parameter)) = _
    rw [noDoc, parameterPatterns_unplaced, List.map_map]
    refine List.map_congr_left fun pattern hpattern => ?_
    simp [parameterType?, h.parameters pattern hpattern, parameterName_unplaced, shownParameterType?_unplaced]
  · show resultType? source (DocComment.preceding? source (describe source fileName o).span.start) o.function = _
    rw [noDoc, shownResultType?_unplaced]
    simp [resultType?, h.result]

/-! ## Two layouts -/

/-- What two descriptions of a function have in common whatever the layout of its file. -/
structure Function.AgreesWith (f g : Function) : Prop where
  name_eq : f.name = g.name
  kind_eq : f.kind = g.kind
  parameterNames_eq : f.parameters.map Parameter.name = g.parameters.map Parameter.name
  complexity_eq : f.complexity = g.complexity

private theorem agreesWith_describe {o o' : Occurrence} (same : o'.unplaced = o.unplaced) (source source' : List Char)
    (fileName fileName' : String) :
    (describe source fileName o).AgreesWith (describe source' fileName' o') := by
  obtain ⟨name, parameterNames, complexity⟩ := describe_of_unplaced_eq same source source' fileName
  have kind : o'.kind = o.kind := (Occurrence.mk.inj same).2.1
  exact ⟨name.symm, kind.symm, parameterNames.symm, complexity.symm⟩

/-- Files whose trees have one shape have the same functions in the same order, with the same names, parameters and
complexities.  Where no types are stated, their parameters and results have the same labels as well. -/
theorem discover_agreesWith_of_unplaced_eq {t t' : Tree} (same : t'.unplaced = t.unplaced)
    (placed : t.isPlaced = true) (placed' : t'.isPlaced = true) (source source' : List Char)
    (fileName fileName' : String) :
    List.Forall₂ Function.AgreesWith (discover t source fileName) (discover t' source' fileName') ∧
      List.Forall₂ (fun o o' => o.IsUnstated source → o'.IsUnstated source' →
          (describe source fileName o).parameters = (describe source' fileName' o').parameters ∧
            (describe source fileName o).result = (describe source' fileName' o').result)
        (orderedOccurrences t) (orderedOccurrences t') := by
  have shapes := forall₂_unplaced_orderedOccurrences same placed placed'
  constructor
  · rw [discover, discover, List.forall₂_map_left_iff, List.forall₂_map_right_iff]
    exact shapes.imp fun o o' h => agreesWith_describe h source source' fileName fileName'
  · refine shapes.imp fun o o' h unstated unstated' => ?_
    have function : o'.function.unplaced = o.function.unplaced := (Occurrence.mk.inj h).2.2.2
    obtain ⟨parameters, result⟩ := unstated.describe_eq fileName
    obtain ⟨parameters', result'⟩ := unstated'.describe_eq fileName'
    rw [parameters, parameters', result, result', function]
    exact ⟨rfl, rfl⟩

/-- The tree of `function f(a=1){const g=()=>2}`. -/
def compactTree : Tree :=
  .node .program ⟨0, 30⟩ [.node (.function (.declaration (some "f"))) ⟨0, 30⟩
    [.node .parameter ⟨11, 14⟩ [.node .assignmentPattern ⟨11, 14⟩
      [.node (.binding "a") ⟨11, 12⟩ [], .node (.literal .number) ⟨13, 14⟩ []]],
     .node .block ⟨15, 30⟩ [.node .variableDeclaration ⟨16, 29⟩ [.node .declarator ⟨22, 29⟩
      [.node (.binding "g") ⟨22, 23⟩ [],
       .node (.function .arrow) ⟨24, 29⟩ [.node (.literal .number) ⟨28, 29⟩ []]]]]]]

/-- The tree of the same program behind a line comment, with blanks and line feeds. -/
def spacedTree : Tree :=
  .node .program ⟨0, 49⟩ [.node (.function (.declaration (some "f"))) ⟨7, 48⟩
    [.node .parameter ⟨18, 23⟩ [.node .assignmentPattern ⟨18, 23⟩
      [.node (.binding "a") ⟨18, 19⟩ [], .node (.literal .number) ⟨22, 23⟩ []]],
     .node .block ⟨25, 48⟩ [.node .variableDeclaration ⟨29, 46⟩ [.node .declarator ⟨35, 46⟩
      [.node (.binding "g") ⟨35, 36⟩ [],
       .node (.function .arrow) ⟨39, 46⟩ [.node (.literal .number) ⟨45, 46⟩ []]]]]]]

def compactText : List Char := "function f(a=1)\x7bconst g=()=>2\x7d".toList

def spacedText : List Char := "// Two\nfunction f(a = 1) \x7b\n  const g = () => 2\n\x7d\n".toList

theorem discover_agreesWith_spaced :
    spacedTree.unplaced = compactTree.unplaced ∧ compactTree.isPlaced = true ∧ spacedTree.isPlaced = true ∧
      List.Forall₂ Function.AgreesWith (discover compactTree compactText "a.js")
        (discover spacedTree spacedText "b.js") ∧
      ∃ o ∈ orderedOccurrences compactTree, ∃ o' ∈ orderedOccurrences spacedTree,
        o.IsUnstated compactText ∧ o'.IsUnstated spacedText ∧
          (describe compactText "a.js" o).parameters = (describe spacedText "b.js" o').parameters := by
  have same : spacedTree.unplaced = compactTree.unplaced := rfl
  have placed : compactTree.isPlaced = true := by decide
  have placed' : spacedTree.isPlaced = true := by decide
  obtain ⟨agree, labels⟩ :=
    discover_agreesWith_of_unplaced_eq same placed placed' compactText spacedText "a.js" "b.js"
  have unstated : ((orderedOccurrences compactTree).get ⟨0, by decide⟩).IsUnstated compactText :=
    ⟨by decide, by decide, by decide +kernel⟩
  have unstated' : ((orderedOccurrences spacedTree).get ⟨0, by decide⟩).IsUnstated spacedText :=
    ⟨by decide, by decide, by decide +kernel⟩
  exact ⟨same, placed, placed', agree, _, List.get_mem _ _, _, List.get_mem _ _, unstated, unstated',
    (labels.get (by decide) (by decide) unstated unstated').1⟩

end SpecCoverage.Functions
