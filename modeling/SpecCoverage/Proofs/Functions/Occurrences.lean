import SpecCoverage.Functions.Discovery
import SpecCoverage.Proofs.Program.Written
import SpecCoverage.Proofs.Sorting

/-!
# The places of named functions

A place in a tree is the list of the numbers of the children on the way to it.  `Recognized` says which nodes
are named functions, given the node around them: declarations and exported declarations with a body, declarators
whose value is a function, and named methods with a body.  Discovery lists exactly these nodes, each once, at
whatever depth they stand (`exists_places_perm_discover`): `located` runs through the places one by one, and what
discovery finds at a declaration of variables, it finds at the declarators.
-/

namespace SpecCoverage.Functions

open Program Sorting

/-! ## What is recognized -/

/-- A value in any number of parentheses. -/
inductive InParentheses (function : Tree) : Tree → Prop where
  | bare : InParentheses function function
  | parenthesized {extent : Extent} {inner : Tree} :
      InParentheses function inner → InParentheses function (.node .parenthesized extent [inner])

/-- A function that stands as a value. -/
def IsFunctionValue (function : Tree) : Prop :=
  function.kind = .function .expression ∨ function.kind = .function .arrow

/-- The node is a named function.  The node around it tells declarations that are exported from those that are
not, and gives a declarator its declaration. -/
inductive Recognized : Option Tree → Tree → Occurrence → Prop where
  | declaration {around : Option Tree} {name : String} {extent : Extent} {children : List Tree} :
      (∀ t, around = some t → t.kind ≠ .exported) → HasBlock children →
      Recognized around (.node (.function (.declaration (some name))) extent children)
        ⟨name, .declaration, extent, .node (.function (.declaration (some name))) extent children⟩
  | exported {around : Tree} {name : String} {extent : Extent} {children : List Tree} :
      around.kind = .exported → HasBlock children →
      Recognized (some around) (.node (.function (.declaration (some name))) extent children)
        ⟨name, .exported, extent, .node (.function (.declaration (some name))) extent children⟩
  | binding {name : String} {declaration declarator target : Extent} {siblings targetParts : List Tree}
      {value function : Tree} :
      InParentheses function value → IsFunctionValue function →
      Recognized (some (.node .variableDeclaration declaration siblings))
        (.node .declarator declarator [.node (.binding name) target targetParts, value])
        ⟨name, .binding, declaration, function⟩
  | method {around : Option Tree} {name : String} {extent : Extent} {children : List Tree} :
      name ≠ "" → HasBlock children →
      Recognized around (.node (.function (.method (some name))) extent children)
        ⟨name, .method, extent, .node (.function (.method (some name))) extent children⟩

/-- The node at a place of a tree is a named function. -/
def RecognizedAt (around : Option Tree) (t : Tree) : List Nat → Occurrence → Prop
  | [], o => Recognized around t o
  | i :: path, o => ∃ child, t.children[i]? = some child ∧ RecognizedAt (some t) child path o

private theorem hasBody_iff {children : List Tree} : hasBody children = true ↔ HasBlock children := by
  unfold hasBody HasBlock
  cases children.getLast? <;> simp

theorem functionValue?_eq_some_iff {value function : Tree} :
    functionValue? value = some function ↔ InParentheses function value ∧ IsFunctionValue function := by
  constructor
  · intro h
    fun_induction functionValue? value with
    | case1 extent inner ih => exact ⟨.parenthesized (ih h).1, (ih h).2⟩
    | case2 extent children => cases h; exact ⟨.bare, .inl rfl⟩
    | case3 extent children => cases h; exact ⟨.bare, .inr rfl⟩
    | case4 => cases h
  · rintro ⟨inside, isFunction⟩
    induction inside with
    | bare =>
      obtain ⟨kind, extent, children⟩ := function
      rcases isFunction with h | h <;> (obtain rfl : kind = _ := h; rfl)
    | parenthesized _ ih => exact ih

/-! ## Places in order -/

/-- The occurrence that a node makes as a part of a declaration of variables. -/
def bindingOf (around : Option Tree) (t : Tree) : Option Occurrence :=
  match around with
  | some (.node .variableDeclaration extent _) => bindingOccurrence? extent t
  | _ => none

/-- The occurrence that a node makes, if it makes one. -/
def occurrence? (around : Option Tree) : Tree → Option Occurrence
  | .node (.function (.declaration (some name))) extent children =>
    if hasBody children then
      some ⟨name, if around.any fun t => t.kind = .exported then .exported else .declaration, extent,
        .node (.function (.declaration (some name))) extent children⟩
    else none
  | .node (.function (.method (some name))) extent children =>
    if hasBody children && name ≠ "" then
      some ⟨name, .method, extent, .node (.function (.method (some name))) extent children⟩
    else none
  | t => bindingOf around t

theorem bindingOf_eq_some_iff {around : Option Tree} {t : Tree} {o : Occurrence} :
    bindingOf around t = some o ↔ ∃ name declaration siblings declarator target parts value function,
      around = some (.node .variableDeclaration declaration siblings) ∧
        t = .node .declarator declarator [.node (.binding name) target parts, value] ∧
        functionValue? value = some function ∧ o = ⟨name, .binding, declaration, function⟩ := by
  constructor
  · intro h
    unfold bindingOf at h
    split at h
    · next declaration siblings =>
      unfold bindingOccurrence? at h
      split at h
      · next declarator name target parts value =>
        obtain ⟨function, hvalue, rfl⟩ := Option.map_eq_some_iff.1 h
        exact ⟨name, declaration, siblings, declarator, target, parts, value, function, rfl, rfl, hvalue, rfl⟩
      · cases h
    · cases h
  · rintro ⟨name, declaration, siblings, declarator, target, parts, value, function, rfl, rfl, hvalue, rfl⟩
    simp [bindingOf, bindingOccurrence?, hvalue]

theorem occurrence?_eq_some_iff {around : Option Tree} {t : Tree} {o : Occurrence} :
    occurrence? around t = some o ↔ Recognized around t o := by
  constructor
  · intro h
    unfold occurrence? at h
    split at h
    · next name extent children =>
      split at h
      · next body =>
        have block := hasBody_iff.1 body
        obtain rfl := Option.some.inj h
        split
        · next isExported =>
          cases around with
          | none => cases isExported
          | some around => exact .exported (by simpa using isExported) block
        · next notExported =>
          refine .declaration ?_ block
          rintro around rfl
          simpa using notExported
      · cases h
    · next name extent children =>
      split at h
      · next body =>
        obtain ⟨body, named⟩ := Bool.and_eq_true_iff.1 body
        obtain rfl := Option.some.inj h
        exact .method (by simpa using named) (hasBody_iff.1 body)
      · cases h
    · obtain ⟨name, _, _, _, _, _, value, function, rfl, rfl, hvalue, rfl⟩ := bindingOf_eq_some_iff.1 h
      obtain ⟨inside, isFunction⟩ := functionValue?_eq_some_iff.1 hvalue
      exact .binding inside isFunction
  · intro h
    cases h with
    | declaration notExported block =>
      have outside : (around.any fun t => t.kind = .exported) = false := by
        cases around with
        | none => rfl
        | some t => simpa using notExported t rfl
      simp [occurrence?, hasBody_iff.2 block, outside]
    | exported isExported block => simp [occurrence?, hasBody_iff.2 block, isExported]
    | binding inside isFunction =>
      simp [occurrence?, bindingOf, bindingOccurrence?, functionValue?_eq_some_iff.2 ⟨inside, isFunction⟩]
    | method named block => simp [occurrence?, hasBody_iff.2 block, named]

mutual

/-- The places of a tree where a named function stands, with the occurrences there. -/
def located (around : Option Tree) : Tree → List (List Nat × Occurrence)
  | .node kind extent children =>
    ((occurrence? around (.node kind extent children)).toList.map fun o => ([], o))
      ++ locatedInAll (.node kind extent children) 0 children

def locatedInAll (around : Tree) (number : Nat) : List Tree → List (List Nat × Occurrence)
  | [] => []
  | t :: rest => ((located (some around) t).map fun (path, o) => (number :: path, o))
      ++ locatedInAll around (number + 1) rest

end

mutual

theorem mem_located {around : Option Tree} (t : Tree) {path : List Nat} {o : Occurrence} :
    (path, o) ∈ located around t ↔ RecognizedAt around t path o := by
  obtain ⟨kind, extent, children⟩ := t
  rw [located, List.mem_append]
  cases path with
  | nil =>
    have deeper : ([], o) ∉ locatedInAll (.node kind extent children) 0 children := by
      intro h
      obtain ⟨i, path, child, h, -⟩ := mem_locatedInAll children |>.1 h
      cases h
    simp only [deeper, or_false, List.mem_map, Option.mem_toList, Prod.mk.injEq, true_and, exists_eq_right]
    exact occurrence?_eq_some_iff
  | cons i path =>
    have notHere : (i :: path, o) ∉ (occurrence? around (.node kind extent children)).toList.map fun o => ([], o) := by
      simp
    simp only [notHere, false_or, mem_locatedInAll, Nat.zero_add, List.cons.injEq]
    constructor
    · rintro ⟨_, _, child, ⟨rfl, rfl⟩, h⟩
      exact ⟨child, h⟩
    · rintro ⟨child, h⟩
      exact ⟨i, path, child, ⟨rfl, rfl⟩, h⟩

private theorem mem_locatedInAll {around : Tree} (ts : List Tree) {number : Nat} {path : List Nat} {o : Occurrence} :
    (path, o) ∈ locatedInAll around number ts ↔
      ∃ i rest child, path = (number + i) :: rest ∧ ts[i]? = some child ∧ RecognizedAt (some around) child rest o := by
  cases ts with
  | nil => simp [locatedInAll]
  | cons t ts =>
    rw [locatedInAll, List.mem_append, mem_locatedInAll ts]
    constructor
    · rintro (h | ⟨i, rest, child, rfl, hchild, h⟩)
      · obtain ⟨⟨rest, o'⟩, inside, e⟩ := List.mem_map.1 h
        obtain ⟨rfl, rfl⟩ := Prod.mk.inj e
        exact ⟨0, rest, t, rfl, rfl, (mem_located t).1 inside⟩
      · exact ⟨i + 1, rest, child, by congr 1; omega, hchild, h⟩
    · rintro ⟨i, rest, child, rfl, hchild, h⟩
      cases i with
      | zero =>
        obtain rfl := Option.some.inj hchild
        exact .inl (List.mem_map.2 ⟨(rest, o), (mem_located t).2 h, rfl⟩)
      | succ i => exact .inr ⟨i, rest, child, by congr 1; omega, hchild, h⟩

end

mutual

private theorem nodup_located (around : Option Tree) (t : Tree) : ((located around t).map Prod.fst).Nodup := by
  obtain ⟨kind, extent, children⟩ := t
  rw [located, List.map_append, List.nodup_append]
  refine ⟨?_, nodup_locatedInAll _ 0 children, ?_⟩
  · cases occurrence? around (.node kind extent children) <;> simp
  · -- Here is the empty path, and below are paths that lead to a child.
    rintro _ here _ below rfl
    obtain ⟨⟨path, o⟩, found, rfl⟩ := List.mem_map.1 below
    obtain ⟨i, rest, child, rfl, -⟩ := (mem_locatedInAll children).1 found
    simp at here

private theorem nodup_locatedInAll (around : Tree) (number : Nat) (ts : List Tree) :
    ((locatedInAll around number ts).map Prod.fst).Nodup := by
  cases ts with
  | nil => simp [locatedInAll]
  | cons t ts =>
    rw [locatedInAll, List.map_append, List.nodup_append]
    refine ⟨?_, nodup_locatedInAll around (number + 1) ts, ?_⟩
    · have first : (((located (some around) t).map Prod.fst).map (number :: ·)).Nodup :=
        List.pairwise_map.2 ((nodup_located (some around) t).imp fun apart => by simpa using apart)
      simpa [List.map_map, Function.comp_def] using first
    · rintro _ inFirst _ inOthers rfl
      obtain ⟨⟨path, o⟩, found, rfl⟩ := List.mem_map.1 inOthers
      obtain ⟨i, rest, child, rfl, -⟩ := (mem_locatedInAll ts).1 found
      simp only [List.mem_map, Prod.exists, Prod.mk.injEq] at inFirst
      obtain ⟨_, _, ⟨_, _, -, rfl, -⟩, same⟩ := inFirst
      injection same with same
      omega

end

/-! ## Discovery -/

private theorem bindingOf_of_kind_ne {kind : Kind} (other : kind ≠ .declarator) (around : Option Tree) (extent : Extent)
    (children : List Tree) : bindingOf around (.node kind extent children) = none := by
  refine Option.eq_none_iff_forall_ne_some.2 fun o h => ?_
  obtain ⟨_, _, _, _, _, _, _, _, -, h, -⟩ := bindingOf_eq_some_iff.1 h
  injection h with h
  exact other h

theorem filterMap_bindingOf_of_kind_ne {kind : Kind} (other : kind ≠ .variableDeclaration) (extent : Extent)
    (siblings ts : List Tree) : ts.filterMap (bindingOf (some (.node kind extent siblings))) = [] := by
  refine List.filterMap_eq_nil_iff.2 fun t _ => Option.eq_none_iff_forall_ne_some.2 fun o h => ?_
  obtain ⟨_, _, _, _, _, _, _, _, h, -⟩ := bindingOf_eq_some_iff.1 h
  injection Option.some.inj h with h
  exact other h

/-- What a node and the declarators in it make, apart from what it is as a declarator itself. -/
theorem occurrence?_append_bindings (around : Option Tree) (t : Tree) :
    (occurrence? around t).toList ++ t.children.filterMap (bindingOf (some t))
      = (bindingOf around t).toList ++ nodeOccurrences (around.any fun t => t.kind = .exported) t := by
  unfold occurrence?
  split
  · next name extent children =>
    rw [bindingOf_of_kind_ne (by simp), filterMap_bindingOf_of_kind_ne (by simp), nodeOccurrences]
    split <;> rfl
  · next name extent children =>
    rw [bindingOf_of_kind_ne (by simp), filterMap_bindingOf_of_kind_ne (by simp), nodeOccurrences]
    split <;> rfl
  · next notDeclaration notMethod =>
    obtain ⟨kind, extent, children⟩ := t
    congr 1
    by_cases h : kind = .variableDeclaration
    · subst h
      rfl
    · rw [filterMap_bindingOf_of_kind_ne h]
      unfold nodeOccurrences
      split
      · next e => cases e; exact absurd rfl h
      · next e => exact absurd e (notDeclaration _ _ _)
      · next e => exact absurd e (notMethod _ _ _)
      · rfl

mutual

theorem located_perm (around : Option Tree) (t : Tree) :
    ((located around t).map Prod.snd).Perm
      ((bindingOf around t).toList ++ occurrences (around.any fun t => t.kind = .exported) t) := by
  obtain ⟨kind, extent, children⟩ := t
  calc ((located around (.node kind extent children)).map Prod.snd)
      = (occurrence? around (.node kind extent children)).toList
          ++ (locatedInAll (.node kind extent children) 0 children).map Prod.snd := by
        simp [located, Function.comp_def]
    List.Perm _ ((occurrence? around (.node kind extent children)).toList
          ++ (children.filterMap (bindingOf (some (.node kind extent children)))
            ++ occurrencesOfAll (kind = .exported) children)) :=
        (locatedInAll_perm (.node kind extent children) 0 children).append_left _
    _ = (bindingOf around (.node kind extent children)).toList
          ++ occurrences (around.any fun t => t.kind = .exported) (.node kind extent children) := by
        rw [← List.append_assoc, occurrences, ← List.append_assoc]
        congr 1
        exact occurrence?_append_bindings around (.node kind extent children)

private theorem locatedInAll_perm (around : Tree) (number : Nat) (ts : List Tree) :
    ((locatedInAll around number ts).map Prod.snd).Perm
      (ts.filterMap (bindingOf (some around)) ++ occurrencesOfAll (around.kind = .exported) ts) := by
  cases ts with
  | nil => simp [locatedInAll, occurrencesOfAll]
  | cons t ts =>
    have first := located_perm (some around) t
    have others := locatedInAll_perm around (number + 1) ts
    calc ((locatedInAll around number (t :: ts)).map Prod.snd)
        = (located (some around) t).map Prod.snd ++ (locatedInAll around (number + 1) ts).map Prod.snd := by
          simp [locatedInAll, Function.comp_def]
      List.Perm _ (((bindingOf (some around) t).toList ++ occurrences (around.kind = .exported) t)
          ++ (ts.filterMap (bindingOf (some around)) ++ occurrencesOfAll (around.kind = .exported) ts)) :=
          first.append others
      List.Perm _ (((bindingOf (some around) t).toList ++ ts.filterMap (bindingOf (some around)))
          ++ (occurrences (around.kind = .exported) t ++ occurrencesOfAll (around.kind = .exported) ts)) := by
          simp only [List.append_assoc]
          exact (List.perm_append_comm_assoc _ _ _).append_left _
      _ = (t :: ts).filterMap (bindingOf (some around)) ++ occurrencesOfAll (around.kind = .exported) (t :: ts) := by
          rw [occurrencesOfAll, List.filterMap_cons]
          cases bindingOf (some around) t <;> rfl

end

/-- Discovery lists every place of a tree where a named function stands once, and nothing else. -/
theorem exists_places_perm_discover (tree : Tree) (source : List Char) (fileName : String) :
    ∃ places : List (List Nat × Occurrence),
      (places.map Prod.fst).Nodup
        ∧ (∀ path o, (path, o) ∈ places ↔ RecognizedAt none tree path o)
        ∧ (discover tree source fileName).Perm (places.map fun (_, o) => describe source fileName o) := by
  refine ⟨located none tree, nodup_located none tree, fun path o => mem_located tree, ?_⟩
  have found : ((located none tree).map Prod.snd).Perm (occurrences false tree) := located_perm none tree
  have inOrder : (orderedOccurrences tree).Perm (occurrences false tree) := sorted_perm _ _
  calc discover tree source fileName
      = (orderedOccurrences tree).map (describe source fileName) := rfl
    List.Perm _ (((located none tree).map Prod.snd).map (describe source fileName)) :=
      (inOrder.trans found.symm).map _
    _ = (located none tree).map fun (_, o) => describe source fileName o := by
      rw [List.map_map]
      rfl

end SpecCoverage.Functions
