import Mathlib.Tactic.MkIffOfInductiveProp
import SpecCoverage.Proofs.Functions.Unplaced
import SpecCoverage.Proofs.Program.Places
import SpecCoverage.Proofs.Sorting

/-!
# How the spans of functions lie

In a tree whose nodes hold their children apart from one another, the spans of the functions that discovery lists are
nested: of any two the later one stands behind the earlier one or within it, or both are variables of one declaration
(`discover_isNested`).

* (nodes) The extent of a function that is found is that of a node, and it holds that of any node within
  (`Tree.IsNested.start_le`, `start_lt_stop_of_mem_occurrences`).
* (visit) `visit` lists the functions of a tree with their places, in the order of `occurrences`.  Any two of them lie apart,
  one around the other, or on one declaration (`pairwise_visit`), whatever the order of siblings in the text.
* (sorting) Sorting by the starts exchanges two functions only if the later one starts in front of the earlier one, so the
  variables of one declaration stay in the order of their declarators.
* (lines) A later place is in no earlier line (`lineAt_mono`).
-/

namespace SpecCoverage.Program

/-! ## Nodes and their children -/

/-- The extents have no byte in common. -/
def Extent.IsApart (e e' : Extent) : Prop := e.stop ≤ e'.start ∨ e'.stop ≤ e.start

/-- An extent begins within another one and does not reach beyond it. -/
@[mk_iff]
structure Extent.IsInside (e around : Extent) : Prop where
  start_le : around.start ≤ e.start
  start_lt : e.start < around.stop
  stop_le : e.stop ≤ around.stop

/-- The children of a node stand inside it and apart from one another.  If the extent of the node becomes the code of
functions, then what else does so within it begins further on. -/
@[mk_iff]
structure Tree.HoldsApart (t : Tree) : Prop where
  inside : ∀ child ∈ t.children, child.extent.IsInside t.extent
  apart : t.children.Pairwise fun a b => a.extent.IsApart b.extent
  behind : t.kind.isPlain = false → ∀ child ∈ t.children, ∀ u, StandsIn u child → u.kind.isPlain = false →
    t.start < u.start

/-- Every node of a tree holds its children apart. -/
def Tree.IsNested (t : Tree) : Prop := ∀ u, StandsIn u t → u.HoldsApart

private theorem forall_standsIn_node {P : Tree → Prop} {kind : Kind} {extent : Extent} {children : List Tree} :
    (∀ u, StandsIn u (.node kind extent children) → P u) ↔
      P (.node kind extent children) ∧ ∀ child ∈ children, ∀ u, StandsIn u child → P u := by
  constructor
  · exact fun h => ⟨h _ .root, fun child hchild u hu => h u (.child hchild hu)⟩
  · rintro ⟨here, below⟩ u (_ | ⟨hchild, stands⟩)
    · exact here
    · exact below _ hchild u stands

namespace Tree.IsNested

variable {kind : Kind} {extent : Extent} {children : List Tree}

theorem child {t : Tree} (nested : (node kind extent children).IsNested) (h : t ∈ children) : t.IsNested :=
  fun u hu => nested u (.child h hu)

private theorem holdsApart {t : Tree} (nested : t.IsNested) : t.HoldsApart := nested t .root

/-- What stands in a tree does not reach beyond it. -/
theorem start_le {t u : Tree} (nested : t.IsNested) (stands : StandsIn u t) : t.start ≤ u.start ∧ u.stop ≤ t.stop := by
  induction stands with
  | root => exact ⟨Nat.le_refl _, Nat.le_refl _⟩
  | child hbelow _ ih =>
    have inside := nested.holdsApart.inside _ hbelow
    obtain ⟨lower, upper⟩ := ih (nested.child hbelow)
    exact ⟨Nat.le_trans inside.start_le lower, Nat.le_trans upper inside.stop_le⟩

end Tree.IsNested

end SpecCoverage.Program

namespace SpecCoverage.Functions

open Program Sorting Source

private theorem isPlain_nodeKind (name : String) (kind : FunctionKind) : (kind.nodeKind name).isPlain = false := by
  cases kind <;> rfl

private theorem children_ne_nil_of_mem_nodeOccurrences {isExported : Bool} {t : Tree} {o : Occurrence}
    (mem : o ∈ nodeOccurrences isExported t) : t.children ≠ [] := by
  -- a function without children has no body
  have bodiless : hasBody [] = false := rfl
  obtain ⟨kind, extent, children⟩ := t
  rintro (rfl : children = [])
  unfold nodeOccurrences at mem
  split at mem <;> simp_all

section

variable {isExported : Bool} {t : Tree} {o : Occurrence}

/-- A function that is found has the extent of a node whose extent becomes code, and that has children. -/
private theorem exists_code_of_mem_occurrences (mem : o ∈ occurrences isExported t) :
    ∃ u, StandsIn u t ∧ u.kind.isPlain = false ∧ u.extent = o.extent ∧ u.children ≠ [] := by
  obtain ⟨u, _, stands, made⟩ := exists_node_of_mem_occurrences t mem
  obtain ⟨hextent, hkind⟩ := extent_kind_of_mem_nodeOccurrences made
  exact ⟨u, stands, by rw [hkind, isPlain_nodeKind], hextent, children_ne_nil_of_mem_nodeOccurrences made⟩

private theorem start_le_of_mem_occurrences (nested : t.IsNested) (mem : o ∈ occurrences isExported t) :
    t.start ≤ o.extent.start ∧ o.extent.stop ≤ t.stop := by
  obtain ⟨u, stands, -, hextent, -⟩ := exists_code_of_mem_occurrences mem
  exact hextent ▸ nested.start_le stands

theorem start_lt_stop_of_mem_occurrences (nested : t.IsNested) (mem : o ∈ occurrences isExported t) :
    o.extent.start < o.extent.stop := by
  obtain ⟨u, stands, -, hextent, some⟩ := exists_code_of_mem_occurrences mem
  obtain ⟨child, others, hchildren⟩ := List.exists_cons_of_ne_nil some
  have inside := (nested u stands).inside child (hchildren ▸ List.mem_cons_self)
  rw [← hextent]
  exact Nat.lt_of_le_of_lt inside.start_le inside.start_lt

end

/-! ## Places in the order of a visit -/

/-- The occurrences that a node makes by itself, each with the way from the node to its place. -/
def nodePlaces (isExported : Bool) : Tree → List (List Nat × Occurrence)
  | .node .variableDeclaration extent children =>
    children.zipIdx.filterMap fun (child, number) => (bindingOccurrence? extent child).map fun o => ([number], o)
  | t => (nodeOccurrences isExported t).map fun o => ([], o)

mutual

/-- The places of a tree where a named function stands, with the occurrences there: those that a node makes by itself,
and then those within. -/
def visit (isExported : Bool) : Tree → List (List Nat × Occurrence)
  | .node kind extent children =>
    nodePlaces isExported (.node kind extent children) ++ visitAll (kind = .exported) 0 children

/-- The places in trees that are the children of one node, from some number on. -/
def visitAll (isExported : Bool) (number : Nat) : List Tree → List (List Nat × Occurrence)
  | [] => []
  | t :: rest => ((visit isExported t).map fun (path, o) => (number :: path, o)) ++ visitAll isExported (number + 1) rest

end

private theorem map_snd_nodePlaces (isExported : Bool) (t : Tree) :
    (nodePlaces isExported t).map Prod.snd = nodeOccurrences isExported t := by
  unfold nodePlaces
  split
  · next extent children =>
    have unnumbered : children.filterMap (bindingOccurrence? extent)
        = children.zipIdx.filterMap (bindingOccurrence? extent ∘ Prod.fst) := by
      rw [← List.filterMap_map, List.zipIdx_map_fst]
    rw [List.map_filterMap, nodeOccurrences, unnumbered]
    congr 1
    funext numbered
    obtain ⟨child, number⟩ := numbered
    simp [Function.comp_def]
  · simp [Function.comp_def]

mutual

private theorem map_snd_visit (isExported : Bool) (t : Tree) :
    (visit isExported t).map Prod.snd = occurrences isExported t := by
  obtain ⟨kind, extent, children⟩ := t
  rw [visit, occurrences, List.map_append, map_snd_nodePlaces, map_snd_visitAll]

private theorem map_snd_visitAll (isExported : Bool) (number : Nat) (ts : List Tree) :
    (visitAll isExported number ts).map Prod.snd = occurrencesOfAll isExported ts := by
  cases ts with
  | nil => rfl
  | cons t ts =>
    rw [visitAll, occurrencesOfAll, List.map_append, List.map_map, ← map_snd_visit, map_snd_visitAll]
    rfl

end

private theorem mem_occurrences_of_mem_visit {isExported : Bool} {t : Tree} {p : List Nat × Occurrence}
    (mem : p ∈ visit isExported t) : p.2 ∈ occurrences isExported t :=
  map_snd_visit isExported t ▸ List.mem_map_of_mem mem

private theorem recognizedAt_of_mem_nodePlaces {around : Option Tree} {t : Tree} {path : List Nat} {o : Occurrence}
    (mem : (path, o) ∈ nodePlaces (around.any fun t => t.kind = .exported) t) : RecognizedAt around t path o := by
  unfold nodePlaces at mem
  split at mem
  · next extent children =>
    obtain ⟨⟨child, number⟩, hchild, numbered⟩ := List.mem_filterMap.1 mem
    obtain ⟨_, made, e⟩ := Option.map_eq_some_iff.1 numbered
    obtain ⟨rfl, rfl⟩ := Prod.mk.inj e
    refine ⟨child, List.mem_zipIdx_iff_getElem?.1 hchild, ?_⟩
    obtain ⟨name, _, _, _, _, _, value, function, h, rfl, hvalue, rfl⟩ :=
      (@bindingOf_eq_some_iff (some (.node .variableDeclaration extent children)) _ _).1 made
    obtain ⟨inside, isFunction⟩ := functionValue?_eq_some_iff.1 hvalue
    cases h
    exact .binding inside isFunction
  · next other =>
    obtain ⟨_, made, e⟩ := List.mem_map.1 mem
    obtain ⟨rfl, rfl⟩ := Prod.mk.inj e
    refine occurrence?_eq_some_iff.1 (Option.mem_toList.1 ?_)
    -- no declarators stand in a node that is no declaration
    have only := occurrence?_append_bindings around t
    obtain ⟨kind, extent, children⟩ := t
    have notVariables : kind ≠ .variableDeclaration := by
      rintro rfl
      exact other _ _ rfl
    rw [filterMap_bindingOf_of_kind_ne notVariables, List.append_nil] at only
    rw [only]
    exact List.mem_append_right _ made

mutual

/-- What is visited is recognized at its place. -/
private theorem recognizedAt_of_mem_visit {around : Option Tree} (t : Tree) {path : List Nat} {o : Occurrence}
    (mem : (path, o) ∈ visit (around.any fun t => t.kind = .exported) t) : RecognizedAt around t path o := by
  obtain ⟨kind, extent, children⟩ := t
  rw [visit, List.mem_append] at mem
  rcases mem with here | below
  · exact recognizedAt_of_mem_nodePlaces here
  · obtain ⟨i, rest, child, rfl, hchild, h⟩ :=
      @recognizedAt_of_mem_visitAll (.node kind extent children) children _ _ _ below
    rw [Nat.zero_add]
    exact ⟨child, hchild, h⟩

private theorem recognizedAt_of_mem_visitAll {around : Tree} (ts : List Tree) {number : Nat} {path : List Nat}
    {o : Occurrence}
    (mem : (path, o) ∈ visitAll (around.kind = .exported) number ts) :
    ∃ i rest child, path = (number + i) :: rest ∧ ts[i]? = some child ∧ RecognizedAt (some around) child rest o := by
  cases ts with
  | nil => cases mem
  | cons t ts =>
    rw [visitAll, List.mem_append] at mem
    rcases mem with first | others
    · obtain ⟨⟨rest, _⟩, inside, e⟩ := List.mem_map.1 first
      obtain ⟨rfl, rfl⟩ := Prod.mk.inj e
      exact ⟨0, rest, t, rfl, rfl, @recognizedAt_of_mem_visit (some around) t _ _ inside⟩
    · obtain ⟨i, rest, child, rfl, hchild, h⟩ := recognizedAt_of_mem_visitAll ts others
      exact ⟨i + 1, rest, child, by rw [Nat.add_assoc, Nat.add_comm 1], hchild, h⟩

end

/-- A variable is declared at a declarator of a declaration, and has the extent of that. -/
private theorem exists_declaration_of_recognizedAt {around : Option Tree} {t : Tree} {way : List Nat} {i : Nat}
    {o : Occurrence}
    (h : RecognizedAt around t (way ++ [i]) o) (binding : o.kind = .binding) :
    ∃ declaration, t.StandsAt (fun _ => false) way declaration ∧ declaration.kind = .variableDeclaration ∧
      declaration.extent = o.extent := by
  induction way generalizing around t with
  | nil =>
    obtain ⟨child, -, h⟩ := h
    refine ⟨t, rfl, ?_⟩
    cases h with
    | binding => exact ⟨rfl, rfl⟩
    | declaration | exported | method => cases binding
  | cons number way ih =>
    obtain ⟨child, hchild, h⟩ := h
    obtain ⟨declaration, stands, isDeclaration⟩ := ih h
    exact ⟨declaration, ⟨rfl, child, hchild, stands⟩, isDeclaration⟩

/-! ## How two functions lie -/

/-- Two variables of a declaration with its way and its extent, in the order of their declarators. -/
structure AreDeclaredAt (way : List Nat) (declaration : Extent) (p q : List Nat × Occurrence) : Prop where
  inOrder : ∃ i j, i < j ∧ p.1 = way ++ [i] ∧ q.1 = way ++ [j]
  kind_eq : p.2.kind = .binding ∧ q.2.kind = .binding
  extent_eq : p.2.extent = declaration ∧ q.2.extent = declaration

/-- The code of a function lies apart from that of a function visited later, or around it, or both are variables of one
declaration. -/
inductive LiesBy (p q : List Nat × Occurrence) : Prop where
  | apart : p.2.extent.IsApart q.2.extent → LiesBy p q
  | around : p.2.extent.start < q.2.extent.start → q.2.extent.stop ≤ p.2.extent.stop → LiesBy p q
  | declared {way : List Nat} {declaration : Extent} : AreDeclaredAt way declaration p q → LiesBy p q

theorem LiesBy.below {p q : List Nat × Occurrence} (h : LiesBy p q) (number : Nat) :
    LiesBy (number :: p.1, p.2) (number :: q.1, q.2) := by
  cases h with
  | apart h => exact .apart h
  | around start stop => exact .around start stop
  | @declared way declaration h =>
    obtain ⟨i, j, lt, hp, hq⟩ := h.inOrder
    exact @LiesBy.declared _ _ (number :: way) _
      ⟨⟨i, j, lt, congrArg (number :: ·) hp, congrArg (number :: ·) hq⟩, h.kind_eq, h.extent_eq⟩

private theorem pairwise_nodePlaces (isExported : Bool) (t : Tree) : (nodePlaces isExported t).Pairwise LiesBy := by
  unfold nodePlaces
  split
  · next extent children =>
    have inOrder : (children.zipIdx).Pairwise fun a b => a.2 < b.2 := by
      rw [← List.pairwise_map (f := Prod.snd) (R := (· < ·)), List.zipIdx_map_snd]
      exact List.pairwise_lt_range'
    refine inOrder.filterMap _ fun a b lt p hp q hq => ?_
    obtain ⟨o, ho, rfl⟩ := Option.map_eq_some_iff.1 hp
    obtain ⟨o', ho', rfl⟩ := Option.map_eq_some_iff.1 hq
    obtain ⟨name, function, rfl⟩ := exists_of_bindingOccurrence? ho
    obtain ⟨name', function', rfl⟩ := exists_of_bindingOccurrence? ho'
    exact @LiesBy.declared _ _ [] _ ⟨⟨a.2, b.2, lt, rfl, rfl⟩, ⟨rfl, rfl⟩, ⟨rfl, rfl⟩⟩
  · -- any other node makes one occurrence at most
    next t other =>
    unfold nodeOccurrences
    split
    · exact absurd rfl (other _ _)
    · split <;> simp
    · split <;> simp
    · exact .nil

private theorem exists_mem_of_mem_visitAll {isExported : Bool} {number : Nat} {ts : List Tree}
    {p : List Nat × Occurrence}
    (mem : p ∈ visitAll isExported number ts) : ∃ t ∈ ts, p.2 ∈ occurrences isExported t := by
  induction ts generalizing number with
  | nil => cases mem
  | cons t ts ih =>
    rw [visitAll, List.mem_append] at mem
    rcases mem with first | others
    · obtain ⟨q, inside, rfl⟩ := List.mem_map.1 first
      exact ⟨t, List.mem_cons_self, mem_occurrences_of_mem_visit (p := q) inside⟩
    · obtain ⟨t, ht, h⟩ := ih others
      exact ⟨t, List.mem_cons_of_mem _ ht, h⟩

mutual

theorem pairwise_visit (isExported : Bool) (t : Tree) (nested : t.IsNested) : (visit isExported t).Pairwise LiesBy := by
  obtain ⟨kind, extent, children⟩ := t
  rw [visit, List.pairwise_append]
  refine ⟨pairwise_nodePlaces _ _, ?_, fun p hp q hq => ?_⟩
  · exact pairwise_visitAll _ 0 children nested.holdsApart.apart fun child hchild => nested.child hchild
  · -- the node is code of its own, with the code of what is found below
    have made := map_snd_nodePlaces isExported _ ▸ List.mem_map_of_mem (f := Prod.snd) hp
    obtain ⟨hextent, hkind⟩ := extent_kind_of_mem_nodeOccurrences made
    obtain ⟨child, hchild, below⟩ := exists_mem_of_mem_visitAll hq
    obtain ⟨u, stands, isCode, hu, -⟩ := exists_code_of_mem_occurrences below
    have further := nested.holdsApart.behind (by rw [hkind, isPlain_nodeKind]) child hchild u stands isCode
    have within := (nested.start_le (.child hchild stands)).2
    rw [Tree.start, Tree.start, hextent, hu] at further
    rw [Tree.stop, Tree.stop, hextent, hu] at within
    exact .around further within

private theorem pairwise_visitAll (isExported : Bool) (number : Nat) (ts : List Tree)
    (apart : ts.Pairwise fun a b => a.extent.IsApart b.extent) (nested : ∀ t ∈ ts, t.IsNested) :
    (visitAll isExported number ts).Pairwise LiesBy := by
  cases ts with
  | nil => exact .nil
  | cons t ts =>
    obtain ⟨first, others⟩ := List.pairwise_cons.1 apart
    obtain ⟨nestedFirst, nestedOthers⟩ := List.forall_mem_cons.1 nested
    rw [visitAll, List.pairwise_append]
    refine ⟨?_, pairwise_visitAll isExported (number + 1) ts others nestedOthers, fun p hp q hq => ?_⟩
    · exact List.pairwise_map.2 ((pairwise_visit isExported t nestedFirst).imp fun h => h.below number)
    · obtain ⟨p, found, rfl⟩ := List.mem_map.1 hp
      obtain ⟨t', ht', found'⟩ := exists_mem_of_mem_visitAll hq
      have inFirst := start_le_of_mem_occurrences nestedFirst (mem_occurrences_of_mem_visit found)
      have inOther := start_le_of_mem_occurrences (nestedOthers t' ht') found'
      refine .apart ((first t' ht').imp (fun behind => ?_) fun before => ?_)
      · exact Nat.le_trans inFirst.2 (Nat.le_trans behind inOther.1)
      · exact Nat.le_trans inOther.2 (Nat.le_trans before inFirst.1)

end

/-! ## The list -/

/-- The places of the functions of a tree, in the order in which the functions are listed. -/
def orderedPlaces (tree : Tree) : List (List Nat × Occurrence) :=
  sorted (fun p q => p.2.extent.start ≤ q.2.extent.start) (visit false tree)

private theorem map_snd_orderedPlaces (tree : Tree) : (orderedPlaces tree).map Prod.snd = orderedOccurrences tree := by
  rw [orderedPlaces, orderedOccurrences, ← map_snd_visit]
  have sameOrder (p q : List Nat × Occurrence) : decide (p.2.extent.start ≤ q.2.extent.start)
      = decide (p.2.extent.start ≤ q.2.extent.start) := rfl
  exact (sorted_map sameOrder _).symm

private theorem mem_visit_of_mem_orderedPlaces {tree : Tree} {p : List Nat × Occurrence}
    (mem : p ∈ orderedPlaces tree) :
    p ∈ visit false tree :=
  (sorted_perm _ _).mem_iff.1 mem

/-- Of two functions the later one starts further on, behind the earlier one or within it, unless both are variables of one
declaration. -/
private theorem pairwise_orderedPlaces {tree : Tree} (nested : tree.IsNested) :
    (orderedPlaces tree).Pairwise fun p q =>
      (p.2.extent.start < q.2.extent.start ∧
          (p.2.extent.stop ≤ q.2.extent.start ∨ q.2.extent.stop ≤ p.2.extent.stop)) ∨
        ∃ way declaration, AreDeclaredAt way declaration p q := by
  have inOrder : (orderedPlaces tree).Pairwise fun p q => decide (p.2.extent.start ≤ q.2.extent.start) = true :=
    sorted_pairwise (fun p q => by simpa using Nat.le_total _ _) (fun p q r => by simpa using Nat.le_trans) _
  refine ((pairwise_sorted (pairwise_visit false tree nested)).and inOrder).imp_of_mem fun {p q} hp hq ⟨lies, le⟩ => ?_
  have visible {p : List Nat × Occurrence} (hp : p ∈ orderedPlaces tree) : p.2.extent.start < p.2.extent.stop :=
    start_lt_stop_of_mem_occurrences nested (mem_occurrences_of_mem_visit (mem_visit_of_mem_orderedPlaces hp))
  have := visible hp
  have := visible hq
  have le : p.2.extent.start ≤ q.2.extent.start := by simpa using le
  rcases lies with lies | ⟨lies, lt⟩
  · cases lies with
    | apart apart => unfold Extent.IsApart at apart; omega
    | around start stop => omega
    | declared h => exact .inr ⟨_, _, h⟩
  · -- visited in the other order, so the two do not start together
    have lt : p.2.extent.start < q.2.extent.start := by simpa using lt
    cases lies with
    | apart apart => unfold Extent.IsApart at apart; omega
    | around start stop => omega
    | declared h => rw [h.extent_eq.1, h.extent_eq.2] at lt; exact absurd lt (Nat.lt_irrefl _)

end SpecCoverage.Functions

namespace SpecCoverage.Source

/-! ## Lines -/

private theorem lineEnds_mono (text : List Char) {m n : Nat} (le : m ≤ n) : lineEnds text m ≤ lineEnds text n := by
  fun_induction lineEnds text m generalizing n with
  | case1 cs m fits ih =>
    rw [lineEnds, if_pos (Nat.le_trans fits le)]
    exact Nat.add_le_add_left (ih (by omega)) 1
  | case2 => exact Nat.zero_le _
  | case3 m c cs notPair fits ih =>
    rw [lineEnds.eq_2 _ _ _ notPair, if_pos (Nat.le_trans fits le)]
    exact Nat.add_le_add_left (ih (by omega)) _
  | case4 => exact Nat.zero_le _
  | case5 => exact Nat.zero_le _

theorem lineAt_mono (text : List Char) {m n : Nat} (le : m ≤ n) : lineAt text m ≤ lineAt text n :=
  Nat.add_le_add_left (lineEnds_mono text le) 1

/-- How a span lies to that of a function that is listed further on: that one starts in no earlier place and in no earlier
line, and stands behind it, begins and ends within it, or is the same. -/
structure Span.Precedes (s s' : Span) : Prop where
  start_le : s.start ≤ s'.start
  line_le : s.line ≤ s'.line
  nested : s.stop ≤ s'.start ∨ (s.start < s'.start ∧ s'.stop ≤ s.stop) ∨ s = s'

end SpecCoverage.Source

namespace SpecCoverage.Functions

open Program Source

/-- Two variables of one declaration of a tree, in the order of their declarators. -/
def DeclaresInOrder (tree : Tree) (p q : List Nat × Occurrence) : Prop :=
  ∃ way declaration, tree.StandsAt (fun _ => false) way declaration ∧ declaration.kind = .variableDeclaration ∧
    AreDeclaredAt way declaration.extent p q

/-- The functions of a tree are those at some places, in the order in which they start, with nested spans.  Two of them
start together exactly if they are variables of one declaration; then they have its span, and stand in the order of their
declarators. -/
structure IsNestedListing (tree : Tree) (source : List Char) (fileName : String) (places : List (List Nat × Occurrence)) :
    Prop where
  discover_eq : discover tree source fileName = places.map fun (_, o) => describe source fileName o
  recognized : ∀ path o, (path, o) ∈ places → RecognizedAt none tree path o
  line_le : ∀ f ∈ discover tree source fileName, f.span.line ≤ f.span.stopLine
  precedes : places.Pairwise fun p q =>
    (describe source fileName p.2).span.Precedes (describe source fileName q.2).span
  start_eq_iff : places.Pairwise fun p q =>
    (describe source fileName p.2).span.start = (describe source fileName q.2).span.start ↔ DeclaresInOrder tree p q

section

variable {tree : Tree}

private theorem recognizedAt_of_mem_orderedPlaces {p : List Nat × Occurrence} (mem : p ∈ orderedPlaces tree) :
    RecognizedAt none tree p.1 p.2 :=
  @recognizedAt_of_mem_visit none tree _ _ (mem_visit_of_mem_orderedPlaces mem)

private theorem declaresInOrder_of_areDeclaredAt {p q : List Nat × Occurrence} {way : List Nat} {declaration : Extent}
    (hp : p ∈ orderedPlaces tree) (h : AreDeclaredAt way declaration p q) : DeclaresInOrder tree p q := by
  obtain ⟨i, j, lt, hi, hj⟩ := h.inOrder
  obtain ⟨node, stands, isDeclaration, hnode⟩ :=
    exists_declaration_of_recognizedAt (hi ▸ recognizedAt_of_mem_orderedPlaces hp) h.kind_eq.1
  obtain rfl : node.extent = declaration := hnode.trans h.extent_eq.1
  exact ⟨way, node, stands, isDeclaration, h⟩

private theorem DeclaresInOrder.extent_eq {p q : List Nat × Occurrence} (h : DeclaresInOrder tree p q) :
    p.2.extent = q.2.extent := by
  obtain ⟨_, _, -, -, h⟩ := h
  exact h.extent_eq.1.trans h.extent_eq.2.symm

/-- Where nodes hold their children apart, functions are listed with nested spans. -/
theorem discover_isNested (nested : tree.IsNested) (source : List Char) (fileName : String) :
    ∃ places, IsNestedListing tree source fileName places := by
  have lies := pairwise_orderedPlaces nested
  refine ⟨orderedPlaces tree, ?_, fun path o mem => recognizedAt_of_mem_orderedPlaces mem, fun f hf => ?_, ?_, ?_⟩
  · rw [discover, ← map_snd_orderedPlaces, List.map_map]
    rfl
  · obtain ⟨o, mem, rfl⟩ := List.mem_map.1 hf
    have found := (Sorting.sorted_perm _ _).subset mem
    exact lineAt_mono _ (Nat.le_of_lt (start_lt_stop_of_mem_occurrences nested found))
  · refine lies.imp fun {p q} h => ?_
    rcases h with ⟨lt, lies⟩ | ⟨way, declaration, h⟩
    · exact ⟨Nat.le_of_lt lt, lineAt_mono _ (Nat.le_of_lt lt), lies.imp id fun within => .inl ⟨lt, within⟩⟩
    · have same : (describe source fileName p.2).span = (describe source fileName q.2).span := by
        show Span.ofExtent _ p.2.extent.start p.2.extent.stop = Span.ofExtent _ q.2.extent.start q.2.extent.stop
        rw [h.extent_eq.1, h.extent_eq.2]
      exact ⟨Nat.le_of_eq (by rw [same]), Nat.le_of_eq (by rw [same]), .inr (.inr same)⟩
  · refine lies.imp_of_mem fun {p q} hp hq h => ⟨fun same => ?_, fun declared => ?_⟩
    · rcases h with ⟨lt, -⟩ | ⟨way, declaration, h⟩
      · exact absurd same (Nat.ne_of_lt lt)
      · exact declaresInOrder_of_areDeclaredAt hp h
    · show p.2.extent.start = q.2.extent.start
      rw [declared.extent_eq]

end

/-- The tree of a declaration of `f` and `g`, with one of `h` in `f`. -/
def declarationsTree : Tree :=
  .node .program ⟨0, 53⟩ [.node .variableDeclaration ⟨0, 52⟩
    [.node .declarator ⟨6, 39⟩ [.node (.binding "f") ⟨6, 7⟩ [], .node (.function .arrow) ⟨10, 39⟩
      [.node .block ⟨16, 39⟩ [.node .variableDeclaration ⟨20, 37⟩ [.node .declarator ⟨26, 37⟩
        [.node (.binding "h") ⟨26, 27⟩ [],
         .node (.function .arrow) ⟨30, 37⟩ [.node (.literal .number) ⟨36, 37⟩ []]]]]]],
     .node .declarator ⟨41, 52⟩ [.node (.binding "g") ⟨41, 42⟩ [],
       .node (.function .arrow) ⟨45, 52⟩ [.node (.literal .number) ⟨51, 52⟩ []]]]]

def declarationsText : List Char := "const f = () => \x7b\n  const h = () => 1\n\x7d, g = () => 2\n".toList

theorem discover_isNested_declarations :
    declarationsTree.IsNested ∧
      (discover declarationsTree declarationsText "a.js").map (fun f => (f.name, f.span))
        = [("f", ⟨0, 52, 1, 3⟩), ("g", ⟨0, 52, 1, 3⟩), ("h", ⟨20, 37, 2, 2⟩)] ∧
      ∃ places, IsNestedListing declarationsTree declarationsText "a.js" places := by
  have nested : declarationsTree.IsNested := by
    simp [declarationsTree, Tree.IsNested, forall_standsIn_node, Tree.holdsApart_iff, Extent.isInside_iff, Extent.IsApart,
      Tree.children, Tree.extent, Tree.start]
  exact ⟨nested, by decide +kernel, discover_isNested nested declarationsText "a.js"⟩

end SpecCoverage.Functions
