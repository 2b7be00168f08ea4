import SpecCoverage.Proofs.Analysis.Code
import SpecCoverage.Proofs.Functions.Skipping

/-!
# Doc comments that several functions share

The search for the comment of a function begins where its code starts, and the code of a variable that holds a function is
the whole declaration.  So two functions have the same comment if nothing but what the search skips stands between the
starts of their codes (`Occurrence.block?_eq_iff`); that may be nothing at all, as for two variables of one declaration
(`not_labelsApart_constants`).  In no other case do they have the same comment (`labelsApart_iff_and_labelsFirst_iff`).
-/

namespace SpecCoverage.Functions

open Program Text

/-! ## Comments and their places -/

/-- The doc comment of what starts at a byte position, behind the byte position where the comment ends. -/
def DocComment.placed? (source : List Char) (position : Nat) : Option (Nat × DocComment) :=
  (takeBytes? position source).bind fun head =>
    (ofReversed? (settle head.reverse)).map fun d => (byteLength (settle head.reverse).reverse, d)

private theorem DocComment.preceding?_eq (source : List Char) (position : Nat) :
    preceding? source position = (placed? source position).map Prod.snd := by
  rw [preceding?, placed?, Option.map_bind]
  cases takeBytes? position source with
  | none => rfl
  | some head => simp [Function.comp_def]

private theorem DocComment.placed?_eq_some_iff {source : List Char} {position stop : Nat} {d : DocComment} :
    placed? source position = some (stop, d) ↔ ∃ head, takeBytes? position source = some head ∧
      ofReversed? (settle head.reverse) = some d ∧ byteLength (settle head.reverse).reverse = stop := by
  simp only [placed?, Option.bind_eq_some_iff, Option.map_eq_some_iff, Prod.mk.injEq]
  constructor
  · rintro ⟨head, cut, _, found, rfl, rfl⟩
    exact ⟨head, cut, found, rfl⟩
  · rintro ⟨head, cut, found, rfl⟩
    exact ⟨head, cut, d, found, rfl, rfl⟩

private theorem DocComment.isAtComment_of_ofReversed? {reversed : List Char} {d : DocComment}
    (h : ofReversed? reversed = some d) :
    IsAtComment reversed := by
  unfold ofReversed? at h
  split at h
  · next others => exact ⟨others, rfl⟩
  · cases h

/-- The text that the search from a position is left with is the start of the text up to the position. -/
private theorem settle_reverse_prefix (cs : List Char) : (settle cs.reverse).reverse <+: cs := by
  have shorter := List.reverse_prefix.2 (settle_suffix cs.reverse)
  rwa [List.reverse_reverse] at shorter

/-! ## Labels from comments -/

/-- A parameter without an ascription of its own has a type in a doc comment. -/
def TakesParameter (source : List Char) (d : DocComment) (pattern : Tree) : Prop :=
  (parameterAscription? pattern).bind (ascriptionText? source) = none ∧
    (d.parameterType? (parameterName pattern)).isSome = true

/-- A function without an ascription of its result has the type of the result in a doc comment. -/
def TakesResult (source : List Char) (d : DocComment) (function : Tree) : Prop :=
  (ownAscription? function.children).bind (ascriptionText? source) = none ∧ d.resultType?.isSome = true

namespace Occurrence

/-- A function takes the label of a parameter or that of its result from a doc comment. -/
def TakesLabel (source : List Char) (d : DocComment) (o : Occurrence) : Prop :=
  (∃ pattern ∈ parameterPatterns o.function, TakesParameter source d pattern) ∨ TakesResult source d o.function

/-- The comment of a function and its place. -/
def block? (source : List Char) (o : Occurrence) : Option (Nat × DocComment) :=
  DocComment.placed? source o.extent.start

private theorem doc_describe {source : List Char} {o : Occurrence} {block : Nat × DocComment}
    (found : o.block? source = some block) :
    DocComment.preceding? source o.extent.start = some block.2 := by
  rw [DocComment.preceding?_eq, show DocComment.placed? source o.extent.start = some block from found]
  rfl

/-- The description of a function gives the parameter the type that it takes from the comment. -/
theorem mem_parameters_describe {source : List Char} {o : Occurrence} {block : Nat × DocComment} {pattern : Tree}
    (found : o.block? source = some block) (mem : pattern ∈ parameterPatterns o.function)
    (takes : TakesParameter source block.2 pattern) (fileName : String) :
    ⟨parameterName pattern, block.2.parameterType? (parameterName pattern)⟩ ∈ (describe source fileName o).parameters := by
  obtain ⟨label, hlabel⟩ := Option.isSome_iff_exists.1 takes.2
  refine List.mem_map.2 ⟨pattern, mem, ?_⟩
  show (⟨_, parameterType? source (DocComment.preceding? source o.extent.start) pattern⟩ : Parameter) = _
  rw [doc_describe found, parameterType?, takes.1, Option.none_or, Option.bind_some, hlabel, Option.some_or]

/-- The description of a function gives its result the type that it takes from the comment. -/
theorem result_describe {source : List Char} {o : Occurrence} {block : Nat × DocComment}
    (found : o.block? source = some block) (takes : TakesResult source block.2 o.function) (fileName : String) :
    (describe source fileName o).result = block.2.resultType? := by
  obtain ⟨label, hlabel⟩ := Option.isSome_iff_exists.1 takes.2
  show resultType? source (DocComment.preceding? source o.extent.start) o.function = _
  rw [doc_describe found, resultType?, takes.1, Option.none_or, Option.bind_some, hlabel, Option.some_or]

/-- A function takes a label from the comment that it has. -/
def IsLabelled (source : List Char) (o : Occurrence) : Prop :=
  ∃ block, o.block? source = some block ∧ o.TakesLabel source block.2

/-- Two functions take labels from the same comment. -/
def SharesWith (source : List Char) (o o' : Occurrence) : Prop :=
  ∃ block, o.block? source = some block ∧ o'.block? source = some block ∧
    o.TakesLabel source block.2 ∧ o'.TakesLabel source block.2

/-- Between the starts of two functions there is only what the search for a comment skips. -/
def IsSkippedTo (source : List Char) (o o' : Occurrence) : Prop :=
  ∃ front skipped, takeBytes? o.extent.start source = some front ∧
    takeBytes? o'.extent.start source = some (front ++ skipped) ∧ IsSkipped front skipped

/-- A function has the comment of one that starts further on exactly if all between them is skipped. -/
theorem block?_eq_iff {source : List Char} {o o' : Occurrence} {block : Nat × DocComment}
    (le : o.extent.start ≤ o'.extent.start) (h : o'.block? source = some block) :
    o.block? source = some block ↔ o.IsSkippedTo source o' := by
  obtain ⟨stop, d⟩ := block
  obtain ⟨head', cut', found', hstop'⟩ := DocComment.placed?_eq_some_iff.1 h
  rw [block?, DocComment.placed?_eq_some_iff]
  constructor
  · rintro ⟨head, cut, found, hstop⟩
    obtain ⟨rest, split, hstart⟩ := exists_of_takeBytes? cut
    obtain ⟨rest', split', hstart'⟩ := exists_of_takeBytes? cut'
    obtain ⟨skipped, rfl, -⟩ :=
      exists_append_of_byteLength_le (split.symm.trans split') (by rw [hstart, hstart']; exact le)
    -- both searches are left with the same start of the source
    obtain ⟨more, hmore⟩ := settle_reverse_prefix head
    obtain ⟨more', hmore'⟩ := settle_reverse_prefix (head ++ skipped)
    have starts : (settle (head ++ skipped).reverse).reverse ++ (more' ++ rest')
        = (settle head.reverse).reverse ++ (more ++ rest) := by
      rw [← List.append_assoc, hmore', ← List.append_assoc, hmore, ← split, split']
    have same := (append_inj_of_byteLength starts (hstop'.trans hstop.symm)).1
    exact ⟨head, skipped, cut, cut',
      isSkipped_of_settle_eq (List.reverse_injective same) (DocComment.isAtComment_of_ofReversed? found)⟩
  · rintro ⟨front, skipped, cut, cut'', isSkipped⟩
    obtain rfl := Option.some.inj (cut'.symm.trans cut'')
    rw [settle_of_isSkipped isSkipped] at found' hstop'
    exact ⟨front, cut, found', hstop'⟩

end Occurrence

/-! ## Which functions share comments -/

private theorem pairwise_orderedOccurrences_congr {R S : Occurrence → Occurrence → Prop} (tree : Tree)
    (h : ∀ o o', o.extent.start ≤ o'.extent.start → (R o o' ↔ S o o')) :
    (orderedOccurrences tree).Pairwise R ↔ (orderedOccurrences tree).Pairwise S := by
  have ordered : (orderedOccurrences tree).Pairwise fun o o' => decide (o.extent.start ≤ o'.extent.start) = true :=
    Sorting.sorted_pairwise (by simp; omega) (by simp; omega) _
  have ordered := ordered.imp of_decide_eq_true
  exact ⟨fun pairwise => ordered.imp₂ (fun o o' le r => (h o o' le).1 r) pairwise,
    fun pairwise => ordered.imp₂ (fun o o' le s => (h o o' le).2 s) pairwise⟩

/-- No two functions take labels from the same comment. -/
def LabelsApart (source : List Char) (tree : Tree) : Prop :=
  (orderedOccurrences tree).Pairwise fun o o' => ¬ o.SharesWith source o'

/-- A comment gives no labels but to the first function that it stands in front of. -/
def LabelsFirst (source : List Char) (tree : Tree) : Prop :=
  (orderedOccurrences tree).Pairwise fun o o' => ∀ block, o.block? source = some block → o'.block? source = some block →
    ¬ o'.TakesLabel source block.2

/-- No two functions take labels from the same comment exactly if something that is not skipped stands between the starts of
any two that take labels, and a comment labels only the first function behind it exactly if something stands between each
function that takes a label and all those in front of it. -/
theorem labelsApart_iff_and_labelsFirst_iff (source : List Char) (tree : Tree) :
    (LabelsApart source tree ↔ (orderedOccurrences tree).Pairwise fun o o' =>
      o.IsLabelled source → o'.IsLabelled source → ¬ o.IsSkippedTo source o') ∧
    (LabelsFirst source tree ↔ (orderedOccurrences tree).Pairwise fun o o' =>
      o'.IsLabelled source → ¬ o.IsSkippedTo source o') := by
  constructor
  · refine pairwise_orderedOccurrences_congr tree fun o o' le => ⟨fun apart => ?_, fun apart => ?_⟩
    · rintro ⟨block, found, takes⟩ ⟨block', found', takes'⟩ skipped
      obtain rfl := Option.some.inj (found.symm.trans ((Occurrence.block?_eq_iff le found').2 skipped))
      exact apart ⟨block, found, found', takes, takes'⟩
    · rintro ⟨block, found, found', takes, takes'⟩
      exact apart ⟨block, found, takes⟩ ⟨block, found', takes'⟩ ((Occurrence.block?_eq_iff le found').1 found)
  · refine pairwise_orderedOccurrences_congr tree fun o o' le => ⟨fun first => ?_, fun first block found found' takes => ?_⟩
    · rintro ⟨block, found', takes⟩ skipped
      exact first block ((Occurrence.block?_eq_iff le found').2 skipped) found' takes
    · exact first ⟨block, found', takes⟩ ((Occurrence.block?_eq_iff le found').1 found)

end SpecCoverage.Functions

namespace SpecCoverage.Analysis

open Functions Program Source Text

/-! ## Two variables of one declaration -/

def constantsText : String := "/** @returns \x7bstring\x7d */\nconst f = () => a, g = () => b;\n"

/-- Both functions have the comment in front of the declaration, and both take its label. -/
theorem not_labelsApart_constants :
    functionsIn {} "a.js" constantsText.toList
        = .ok [⟨"f", [], some "string", .binding, ⟨25, 56, 2, 2⟩, "const f = () => a, g = () => b;", "a.js", 1⟩,
          ⟨"g", [], some "string", .binding, ⟨25, 56, 2, 2⟩, "const f = () => a, g = () => b;", "a.js", 1⟩] ∧
      ∃ tree, readProgram {} constantsText.toList = .ok tree ∧ ¬ LabelsApart constantsText.toList tree ∧
        ¬ LabelsFirst constantsText.toList tree := by
  refine ⟨by decide +kernel, ?_⟩
  have block : DocComment.placed? constantsText.toList 25 = some (24, ⟨"/** @returns \x7bstring\x7d */".toList⟩) :=
    DocComment.placed?_eq_some_iff.2 ⟨"/** @returns \x7bstring\x7d */\n".toList, by decide +kernel, by decide +kernel,
      by decide +kernel⟩
  have label : (DocComment.resultType? ⟨"/** @returns \x7bstring\x7d */".toList⟩).isSome = true := by decide +kernel
  have at25 {o : Occurrence} (start : o.extent.start = 25) : o.block? constantsText.toList = some (24, _) := start ▸ block
  have takes {o : Occurrence} (plain : ownAscription? o.function.children = none) :
      o.TakesLabel constantsText.toList ⟨"/** @returns \x7bstring\x7d */".toList⟩ := .inr ⟨by rw [plain]; rfl, label⟩
  -- both begin with the declaration, and neither states its result
  have places : ((readProgram {} constantsText.toList).toOption.map fun tree => (orderedOccurrences tree).map fun o =>
      (o.extent.start, (ownAscription? o.function.children).isNone)) = some [(25, true), (25, true)] := by
    decide +kernel
  cases parsed : readProgram {} constantsText.toList with
  | error e => rw [parsed] at places; cases places
  | ok tree =>
    rw [parsed] at places
    obtain ⟨f, others, found, isF, behind⟩ := List.map_eq_cons_iff.1 (Option.some.inj places)
    obtain ⟨g, others, rfl, isG, behind⟩ := List.map_eq_cons_iff.1 behind
    obtain rfl := List.map_eq_nil_iff.1 behind
    simp only [Prod.mk.injEq, Option.isNone_iff_eq_none] at isF isG
    refine ⟨tree, rfl, fun apart => ?_, fun first => ?_⟩
    · rw [LabelsApart, found] at apart
      exact List.rel_of_pairwise_cons apart (List.mem_singleton_self g)
        ⟨_, at25 isF.1, at25 isG.1, takes isF.2, takes isG.2⟩
    · rw [LabelsFirst, found] at first
      exact List.rel_of_pairwise_cons first (List.mem_singleton_self g) _ (at25 isF.1) (at25 isG.1) (takes isG.2)

end SpecCoverage.Analysis
