import Mathlib
import SpecCoverage.Analysis.Analysis
import SpecCoverage.Proofs.Functions.Occurrences
import SpecCoverage.Proofs.Functions.Unplaced
import SpecCoverage.Proofs.Program.Reader

/-!
# The code of functions

The code of a function is the part of its file from the first token of the function, or of the declaration that it
stands in, up to the last (`functionsIn_isVerbatim`): the tree of a program is sound, so the node of each function that
is found is written in the text, and the code is cut out between its ends.

Positions count from behind a byte order mark, but the code is cut out of the file with the mark, so the law holds for
files without one.  Code that is cut out of a generator may need it: it need not be a program on its own.
-/

namespace SpecCoverage.Functions

open Program

/-- What the first token of the code of a function may be. -/
def FunctionKind.first : FunctionKind → TokenKind → Prop
  | .declaration | .exported => BeginsFunction
  | .binding => BeginsBinding
  | .method => BeginsMethod

/-- What the last token of the code of a function may be: the brace behind its body, or any at the end of a declaration
of variables. -/
def FunctionKind.last : FunctionKind → Cursor → Cursor → Prop
  | .binding => Lexeme
  | .declaration | .exported | .method => IsClosingBrace

/-- The code of a function is the text between two boundaries of its file, from a first token of the function up to a
last one. -/
structure IsVerbatim (source : List Char) (f : Function) : Prop where
  lt : f.span.start < f.span.stop
  stop_le : f.span.stop ≤ Text.byteLength source
  start_boundary : Text.IsBoundary source f.span.start
  stop_boundary : Text.IsBoundary source f.span.stop
  slice : Text.slice? source f.span.start f.span.stop = some f.code.toList
  begins : Begins source f.kind.first f.span.start f.span.stop
  ends : Ends source f.kind.last f.span.start f.span.stop

variable {source : List Char}

private theorem written_of_recognized {around : Option Tree} {t : Tree} {o : Occurrence} (h : Recognized around t o)
    (haround : ∀ a ∈ around, Sound source a) (ht : Sound source t) :
    Written source o.kind.first o.kind.last o.extent := by
  cases h with
  | declaration _ block => exact (sound_node.1 ht).1 block
  | exported _ block => exact (sound_node.1 ht).1 block
  | binding => exact (sound_node.1 (haround _ rfl)).1
  | method named block => exact (sound_node.1 ht).1 named block

private theorem written_of_recognizedAt {path : List Nat} {around : Option Tree} {t : Tree} {o : Occurrence}
    (h : RecognizedAt around t path o) (haround : ∀ a ∈ around, Sound source a) (ht : Sound source t) :
    Written source o.kind.first o.kind.last o.extent := by
  induction path generalizing around t with
  | nil => exact written_of_recognized h haround ht
  | cons i path ih =>
    obtain ⟨child, hchild, h⟩ := h
    obtain ⟨kind, extent, children⟩ := t
    have below : AllSound source children := (sound_node.1 ht).2
    refine ih h (by simpa using ht) (allSound_tree.1 (allSound_list.1 below child ?_))
    exact List.mem_of_getElem? hchild

private theorem written_of_mem_orderedOccurrences {tree : Tree} {o : Occurrence} (ht : Sound source tree)
    (mem : o ∈ orderedOccurrences tree) : Written source o.kind.first o.kind.last o.extent := by
  have found : o ∈ occurrences false tree := (Sorting.sorted_perm _ _).subset mem
  obtain ⟨⟨path, o⟩, hplace, rfl⟩ := List.mem_map.1 ((located_perm none tree).symm.subset found)
  exact written_of_recognizedAt ((mem_located tree).1 hplace) (by simp) ht

private theorem isBoundary_of_within {c : Cursor} (h : Within source c) : Text.IsBoundary source c.offset := by
  obtain ⟨taken, hrest, hoffset⟩ := h
  exact ⟨taken, c.rest, hrest, by simpa using hoffset.symm⟩

private theorem eq_of_within_of_offset_eq_zero {c : Cursor} (h : Within source c) (start : c.offset = 0) :
    c = ⟨source, 0⟩ := by
  obtain ⟨rest, offset⟩ := c
  obtain ⟨taken, rfl, hoffset⟩ := h
  obtain rfl : taken = [] := Classical.byContradiction fun some => by
    have := Text.byteLength_pos some
    simp only at start hoffset
    omega
  simp_all

/-- What is written in a text is described by its own part of the text. -/
private theorem isVerbatim_describe {o : Occurrence} {fileName : String}
    (written : Written source o.kind.first o.kind.last o.extent) : IsVerbatim source (describe source fileName o) := by
  obtain ⟨begins, ends⟩ := written
  have start : Text.IsBoundary source o.extent.start := by
    obtain ⟨c, _, _, within, hstart, -⟩ := begins
    exact hstart ▸ isBoundary_of_within within
  have stop : Text.IsBoundary source o.extent.stop := by
    obtain ⟨c, c', within, -, passes, -, hstop⟩ := ends
    exact hstop ▸ isBoundary_of_within (within.reaches passes.1)
  obtain ⟨code, slice⟩ := Text.exists_slice start stop (Nat.le_of_lt ends.lt)
  have hcode : (describe source fileName o).code = String.ofList code := by
    show String.ofList ((Text.slice? source o.extent.start o.extent.stop).getD []) = _
    rw [slice, Option.getD_some]
  exact ⟨ends.lt, stop.le, start, stop, by rw [hcode, String.toList_ofList]; exact slice, begins, ends⟩

end SpecCoverage.Functions

namespace SpecCoverage.Analysis

open Functions Program Source

private theorem functionsIn_eq_ok_iff {dialect : Dialect} {fileName : String} {source : List Char}
    {fs : List Function} :
    functionsIn dialect fileName source = .ok fs ↔
      ∃ tree, readProgram dialect (withoutMark source) = .ok tree ∧ discover tree source fileName = fs := by
  unfold functionsIn
  cases readProgram dialect (withoutMark source) <;> simp [Except.map]

/-- The code of each function of a file without a byte order mark is its text in the file. -/
theorem functionsIn_isVerbatim {dialect : Dialect} {fileName : String} {source : List Char} {fs : List Function}
    {f : Function} (unmarked : withoutMark source = source) (h : functionsIn dialect fileName source = .ok fs)
    (mem : f ∈ fs) : IsVerbatim source f := by
  obtain ⟨tree, read, rfl⟩ := functionsIn_eq_ok_iff.1 h
  have sound : Sound source tree := sound_readProgram (unmarked ▸ read)
  obtain ⟨o, found, rfl⟩ := List.mem_map.1 mem
  exact isVerbatim_describe (written_of_mem_orderedOccurrences sound found)

/-! ## Files with one function -/

/-- The tree of `function f() {}`. -/
def plainTree : Tree :=
  .node .program ⟨0, 15⟩ [.node (.function (.declaration (some "f"))) ⟨0, 15⟩ [.node .block ⟨13, 15⟩ []]]

set_option maxRecDepth 100000 in
private theorem readProgram_plain : readProgram {} "function f() \x7b\x7d".toList = .ok plainTree := by cbv

private theorem functionsIn_plain : functionsIn {} "a.js" "function f() \x7b\x7d".toList
    = .ok [⟨"f", [], none, .declaration, ⟨0, 15, 1, 1⟩, "function f() \x7b\x7d", "a.js", 1⟩] :=
  functionsIn_eq_ok_iff.2 ⟨plainTree, readProgram_plain, by decide +kernel⟩

theorem isVerbatim_plain :
    withoutMark "function f() \x7b\x7d".toList = "function f() \x7b\x7d".toList ∧ ∃ fs,
      functionsIn {} "a.js" "function f() \x7b\x7d".toList = .ok fs ∧ ∃ f ∈ fs, f.code = "function f() \x7b\x7d" ∧
        IsVerbatim "function f() \x7b\x7d".toList f := by
  have unmarked : withoutMark "function f() \x7b\x7d".toList = "function f() \x7b\x7d".toList := by decide
  refine ⟨unmarked, _, functionsIn_plain, _, List.mem_singleton_self _, rfl, ?_⟩
  exact functionsIn_isVerbatim unmarked functionsIn_plain (List.mem_singleton_self _)

/-- Behind a byte order mark the code is cut out three bytes too early. -/
theorem not_isVerbatim_mark : ∃ fs, functionsIn {} "a.js" "\ufefffunction f() \x7b\x7d".toList = .ok fs ∧
    ∃ f ∈ fs, f.code = "\ufefffunction f()" ∧ ¬ IsVerbatim "\ufefffunction f() \x7b\x7d".toList f := by
  have found : discover plainTree "\ufefffunction f() \x7b\x7d".toList "a.js"
      = [⟨"f", [], none, .declaration, ⟨0, 15, 1, 1⟩, "\ufefffunction f()", "a.js", 1⟩] := by decide +kernel
  have unmarked : withoutMark "\ufefffunction f() \x7b\x7d".toList = "function f() \x7b\x7d".toList := by decide
  have read : functionsIn {} "a.js" "\ufefffunction f() \x7b\x7d".toList
      = .ok [⟨"f", [], none, .declaration, ⟨0, 15, 1, 1⟩, "\ufefffunction f()", "a.js", 1⟩] :=
    functionsIn_eq_ok_iff.2 ⟨plainTree, unmarked ▸ readProgram_plain, found⟩
  refine ⟨_, read, _, List.mem_singleton_self _, rfl, fun verbatim => ?_⟩
  obtain ⟨c, _, _, within, start, token, -⟩ := verbatim.begins
  obtain rfl := eq_of_within_of_offset_eq_zero within start
  have noToken : (readKind ⟨"\ufefffunction f() \x7b\x7d".toList, 0⟩).isOk = false := by decide +kernel
  rw [token] at noToken
  cases noToken

/-! ## Code on its own -/

/-- The code of a function is a program in which a function of its name, its parameters and its complexity stands. -/
def StandsAlone (fileName : String) (f : Function) : Prop :=
  ∃ gs, functionsIn (Dialect.ofFile fileName) fileName f.code.toList = .ok gs ∧
    ∃ g ∈ gs, g.name = f.name ∧ g.parameters.map Parameter.name = f.parameters.map Parameter.name ∧
      g.complexity = f.complexity

/-- The code of a declaration or of a declared variable stands alone wherever it is read as what it was: it is the text
of a node of the file, and among the statements that the code is read as, one has the shape of that node. -/
private theorem exists_node_standsAlone {dialect : Dialect} {fileName : String} {source : List Char}
    {fs : List Function}
    {f : Function} (h : functionsIn dialect fileName source = .ok fs) (mem : f ∈ fs)
    (kind : f.kind = .declaration ∨ f.kind = .binding) :
    ∃ tree node, readProgram dialect (withoutMark source) = .ok tree ∧ StandsIn node tree ∧
      node.kind = f.kind.nodeKind f.name ∧ node.extent = ⟨f.span.start, f.span.stop⟩ ∧
      ∀ extent statements, readProgram (Dialect.ofFile fileName) (withoutMark f.code.toList)
          = .ok (.node .program extent statements) →
        (∃ again ∈ statements, again.unplaced = node.unplaced) → StandsAlone fileName f := by
  obtain ⟨tree, read, rfl⟩ := functionsIn_eq_ok_iff.1 h
  obtain ⟨o, found, rfl⟩ := List.mem_map.1 mem
  obtain ⟨node, isExported, stands, made⟩ :=
    exists_node_of_mem_occurrences tree ((Sorting.sorted_perm _ _).subset found)
  obtain ⟨hextent, hkind⟩ := extent_kind_of_mem_nodeOccurrences made
  refine ⟨tree, node, read, stands, hkind, hextent, ?_⟩
  rintro extent statements reread ⟨again, hagain, same⟩
  have notExported : o.kind ≠ .exported := by
    rintro exported
    have : o.kind = .declaration ∨ o.kind = .binding := kind
    simp [exported] at this
  obtain ⟨o', made', alike⟩ := exists_occurrence_of_unplaced_eq (mem_nodeOccurrences_false made notExported) same
  have found' : o' ∈ occurrences false (.node .program extent statements) :=
    List.mem_append.2 (.inr (mem_occurrencesOfAll hagain made'))
  refine ⟨_, functionsIn_eq_ok_iff.2 ⟨_, reread, rfl⟩, _,
    List.mem_map_of_mem ((Sorting.sorted_perm _ _).symm.subset found'), ?_⟩
  exact describe_of_unplaced_eq alike source _ fileName

theorem standsAlone_plain :
    ∃ fs, functionsIn {} "a.js" "function f() \x7b\x7d".toList = .ok fs ∧
      ∃ f ∈ fs, f.kind = .declaration ∧ StandsAlone "a.js" f := by
  obtain ⟨tree, node, read, stands, kind, -, alone⟩ :=
    exists_node_standsAlone functionsIn_plain (List.mem_singleton_self _) (.inl rfl)
  have plain : Dialect.ofFile "a.js" = {} := by decide +kernel
  obtain rfl := Except.ok.inj (readProgram_plain.symm.trans read)
  refine ⟨_, functionsIn_plain, _, List.mem_singleton_self _, rfl, alone _ _ (plain.symm ▸ readProgram_plain) ?_⟩
  refine ⟨_, List.mem_singleton_self _, ?_⟩
  -- Of the three nodes of the tree, only the declaration has its kind.
  cases stands with
  | root => cases kind
  | child hbelow stands =>
    obtain rfl := List.mem_singleton.1 hbelow
    cases stands with
    | root => rfl
    | child hbelow stands =>
      obtain rfl := List.mem_singleton.1 hbelow
      cases stands with
      | root => cases kind
      | child hbelow => cases hbelow

/-- What a generator declares, as a program of its own would declare it: `yield` stands in no generator. -/
def generatorVariables : String := "const f = function () \x7b\x7d, y = yield 1"

def generatorText : String := "function* g() \x7b " ++ generatorVariables ++ " \x7d"

private theorem functionsIn_generator : functionsIn {} "a.js" generatorText.toList
    = .ok [⟨"g", [], none, .declaration, ⟨0, 55, 1, 1⟩, generatorText, "a.js", 1⟩,
        ⟨"f", [], none, .binding, ⟨16, 53, 1, 1⟩, generatorVariables, "a.js", 1⟩] := by
  decide +kernel

/-- A declaration of variables in a generator is no program on its own if one of its values is a `yield`. -/
theorem not_standsAlone_yield : ¬ ∀ fileName source fs f, withoutMark source = source →
    functionsIn (Dialect.ofFile fileName) fileName source = .ok fs → f ∈ fs →
    f.kind = .declaration ∨ f.kind = .binding → StandsAlone fileName f := by
  intro h
  have plain : Dialect.ofFile "a.js" = {} := by decide +kernel
  obtain ⟨gs, alone, -⟩ := h "a.js" generatorText.toList _ _ (by decide) (plain.symm ▸ functionsIn_generator)
    (.tail _ (.head _)) (.inr rfl)
  obtain ⟨tree, reread, -⟩ := functionsIn_eq_ok_iff.1 alone
  have unmarked : withoutMark generatorVariables.toList = generatorVariables.toList := by decide
  have fails : (readProgram {} generatorVariables.toList).isOk = false := by decide +kernel
  rw [plain] at reread
  rw [unmarked] at reread
  rw [reread] at fails
  cases fails

end SpecCoverage.Analysis
