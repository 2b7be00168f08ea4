import SpecCoverage.Proofs.Text.Line
import SpecCoverage.Proofs.Text.Scan
import SpecCoverage.Reports.Table

/-!
# The lines of a table

The table of a report has a line for each of its rows exactly if no row has a line feed in it.  File names, descriptions
and numbers leave a row on its line; what a table shows of a function without looking at it are the name, the names and
the types of the parameters and the type of the result, and it is these that decide (`Report.isTable_iff`,
`Report.length_lines_renderText_iff`).
-/

namespace SpecCoverage.Reports

open Functions Specifications Text

/-! ## Texts on one line -/

/-- No line feed stands in a text. -/
def IsOneLine (s : String) : Prop := '\n' ∉ s.toList

instance (s : String) : Decidable (IsOneLine s) := inferInstanceAs (Decidable ('\n' ∉ s.toList))

@[simp] theorem isOneLine_append {a b : String} : IsOneLine (a ++ b) ↔ IsOneLine a ∧ IsOneLine b := by
  simp [IsOneLine]

@[simp] theorem isOneLine_repr (n : Nat) : IsOneLine (Nat.repr n) := by
  intro h
  rw [Nat.toList_repr] at h
  exact absurd (Nat.isDigit_of_mem_toDigits (by decide) (by decide) h) (by decide)

@[simp] theorem isOneLine_join {pieces : List String} :
    IsOneLine (String.join pieces) ↔ ∀ piece ∈ pieces, IsOneLine piece := by
  simp [IsOneLine]

private theorem isOneLine_intercalate {separator : String} (h : IsOneLine separator) {pieces : List String} :
    IsOneLine (separator.intercalate pieces) ↔ ∀ piece ∈ pieces, IsOneLine piece := by
  rw [IsOneLine, String.toList_intercalate, mem_intercalate_iff h]
  simp [IsOneLine]

@[simp] theorem isOneLine_withOnePlace (value : Float) : IsOneLine (withOnePlace value) := by
  have point : IsOneLine "." := by decide
  simp [withOnePlace, point]

/-! ## Columns -/

@[simp] theorem isOneLine_padded {width : Nat} {s : String} : IsOneLine (padded width s) ↔ IsOneLine s := by
  simp [padded, IsOneLine]

private theorem isOneLine_fitted (width : Nat) {s : String} (h : IsOneLine s) : IsOneLine (fitted width s) := by
  unfold fitted
  split
  · refine isOneLine_append.2 ⟨fun cut => h ?_, by decide⟩
    rw [String.toList_ofList] at cut
    exact List.mem_of_mem_take cut
  · exact isOneLine_padded.2 h

@[simp] theorem isOneLine_row {columns : List (Nat × String)} {last : String} :
    IsOneLine (row columns last) ↔ (∀ column ∈ columns, IsOneLine column.2) ∧ IsOneLine last := by
  have blank : IsOneLine " " := by decide
  simp only [row, isOneLine_append, isOneLine_join, List.forall_mem_map, isOneLine_padded, blank, and_true]

private theorem isOneLine_parameterText {p : Parameter} :
    IsOneLine (parameterText p) ↔ IsOneLine p.name ∧ ∀ type ∈ p.type, IsOneLine type := by
  have colon : IsOneLine ": " := by decide
  unfold parameterText
  split
  · next type h => simp [h, colon]
  · next h => simp [h]

private theorem isOneLine_signature {f : FunctionEntry} :
    IsOneLine (signature f) ↔ (∀ p ∈ f.parameters, IsOneLine p.name ∧ ∀ type ∈ p.type, IsOneLine type) ∧
      ∀ type ∈ f.result, IsOneLine type := by
  have arrow : IsOneLine " -> " := by decide
  have parenthesized (pieces : List String) :
      IsOneLine ("(" ++ ", ".intercalate pieces ++ ")") ↔ ∀ piece ∈ pieces, IsOneLine piece := by
    have opened : IsOneLine "(" := by decide
    have closed : IsOneLine ")" := by decide
    rw [isOneLine_append, isOneLine_append, isOneLine_intercalate (by decide)]
    simp only [opened, closed, true_and, and_true]
  unfold signature
  split
  · next type h => simp [h, arrow, parenthesized, isOneLine_parameterText]
  · next h => simp [h, parenthesized, isOneLine_parameterText]

/-! ## Rows -/

/-- What a table shows of a function is on one line: its name, as far as it is shown, the names of its parameters, and
the types of its parameters and of its result. -/
structure FunctionEntry.FitsRow (f : FunctionEntry) : Prop where
  name : IsOneLine (fitted 30 f.name)
  parameters : ∀ p ∈ f.parameters, IsOneLine p.name ∧ ∀ type ∈ p.type, IsOneLine type
  result : ∀ type ∈ f.result, IsOneLine type

private theorem FunctionEntry.fitsRow_iff {f : FunctionEntry} :
    f.FitsRow ↔ IsOneLine (fitted 30 f.name) ∧ IsOneLine (signature f) := by
  rw [isOneLine_signature]
  exact ⟨fun h => ⟨h.name, h.parameters, h.result⟩, fun ⟨name, parameters, result⟩ => ⟨name, parameters, result⟩⟩

instance (f : FunctionEntry) : Decidable f.FitsRow := decidable_of_iff _ f.fitsRow_iff.symm

private theorem isOneLine_functionLine {f : FunctionEntry} (file : IsOneLine f.fileName) :
    IsOneLine (functionLine f) ↔ f.FitsRow := by
  have mark : IsOneLine (if f.hasSpecification then "yes" else "-") := by split <;> decide
  simp [functionLine, functionRow, f.fitsRow_iff, isOneLine_fitted 20 file, mark]

private theorem isOneLine_specificationLine {s : Specification} (description : IsOneLine s.description)
    (mapped : ∀ name ∈ s.function, IsOneLine (fitted 30 name)) : IsOneLine (specificationLine s) := by
  have nothing : IsOneLine "-" := by decide
  have function : IsOneLine (fitted 30 (s.function.getD "-")) := by
    cases h : s.function with
    | none => decide
    | some name => exact mapped name h
  have confidence : IsOneLine ((s.confidence.map Nat.repr).getD "-") := by
    cases s.confidence with
    | none => exact nothing
    | some confidence => exact isOneLine_repr confidence
  have evidence : IsOneLine ((s.evidence.map Evidence.name).getD "-") := by
    cases s.evidence with
    | none => exact nothing
    | some evidence => cases evidence <;> decide
  simp [specificationLine, specificationRow, function, confidence, evidence, description]

private theorem isOneLine_coverageLine (c : Coverage) : IsOneLine (coverageLine c) := by
  have texts : IsOneLine "Coverage: " ∧ IsOneLine "/" ∧ IsOneLine " functions have a specification (" ∧
      IsOneLine "%)" := by decide
  simp [coverageLine, texts]

private theorem isOneLine_skippedLine {files : List String} (h : ∀ file ∈ files, IsOneLine file) :
    IsOneLine (skippedLine files) := by
  have texts : IsOneLine "Skipped " ∧ IsOneLine " file(s) that failed to parse: " := by decide
  simpa [skippedLine, texts, isOneLine_intercalate (show IsOneLine ", " by decide)] using h

/-! ## Reports -/

/-- How many lines a table should have: a header and a line for each function; if there are specifications a blank line,
a header and a line for each; a blank line and the coverage; and a line for the files left out, if there are any. -/
def Report.lineCount (r : Report) : Nat :=
  1 + r.functions.length + (if r.specifications = [] then 0 else 2 + r.specifications.length) + 2
    + (if r.skippedFiles = [] then 0 else 1)

/-- The lines of the text are these, each with its line feed. -/
def Report.IsTable (r : Report) : Prop :=
  lines (renderText r).toList =
    ((functionHeader :: r.functions.map functionLine
      ++ (if r.specifications = [] then []
        else "" :: specificationHeader :: r.specifications.map specificationLine)
      ++ ["", coverageLine r.coverage]
      ++ (if r.skippedFiles = [] then [] else [skippedLine r.skippedFiles])).map fun line => ended line.toList)

/-- What a report says about files and documents is on one line, and its specifications are mapped to its functions. -/
structure Report.IsOrderly (r : Report) : Prop where
  fileNames : ∀ f ∈ r.functions, IsOneLine f.fileName
  descriptions : ∀ s ∈ r.specifications, IsOneLine s.description
  mapped : ∀ s ∈ r.specifications, ∀ name ∈ s.function, name ∈ r.functions.map FunctionEntry.name
  skippedFiles : ∀ file ∈ r.skippedFiles, IsOneLine file

section

variable {r : Report}

/-- Only the rows of functions can have more than one line. -/
private theorem forall_mem_tableLines_iff (orderly : r.IsOrderly) :
    (∀ line ∈ tableLines r, IsOneLine line) ↔ ∀ f ∈ r.functions, f.FitsRow := by
  have functionLines : (∀ line ∈ r.functions.map functionLine, IsOneLine line) ↔ ∀ f ∈ r.functions, f.FitsRow := by
    rw [List.forall_mem_map]
    exact forall₂_congr fun f hf => isOneLine_functionLine (orderly.fileNames f hf)
  rw [← functionLines]
  constructor
  · intro h line hline
    exact h line (by simp only [tableLines, List.mem_append, List.mem_cons, hline, or_true, true_or])
  · intro fits
    -- The functions that specifications are mapped to have names that fit already.
    have specificationLines : ∀ line ∈ r.specifications.map specificationLine, IsOneLine line := by
      refine List.forall_mem_map.2 fun s hs => ?_
      refine isOneLine_specificationLine (orderly.descriptions s hs) fun name mapped => ?_
      obtain ⟨f, hf, rfl⟩ := List.mem_map.1 (orderly.mapped s hs name mapped)
      exact (functionLines.1 fits f hf).name
    have blank : IsOneLine "" := by decide
    simp only [tableLines, List.cons_append, List.forall_mem_cons, List.forall_mem_append]
    refine ⟨by decide +kernel, ⟨⟨fits, ?_⟩, blank, isOneLine_coverageLine r.coverage, by simp⟩, ?_⟩
    · split
      · simp
      · exact List.forall_mem_cons.2 ⟨blank, List.forall_mem_cons.2 ⟨by decide +kernel, specificationLines⟩⟩
    · split
      · simp
      · exact List.forall_mem_singleton.2 (isOneLine_skippedLine orderly.skippedFiles)

private theorem toList_renderText (r : Report) :
    (renderText r).toList = ((tableLines r).map String.toList).flatMap ended := by
  simp [renderText, List.flatMap_map, ended]

private theorem length_tableLines (r : Report) : (tableLines r).length = r.lineCount := by
  simp only [tableLines, Report.lineCount, List.isEmpty_iff]
  split <;> split <;> simp <;> omega

private theorem isTable_iff_lines_eq :
    r.IsTable ↔ lines (renderText r).toList = ((tableLines r).map String.toList).map ended := by
  simp only [Report.IsTable, tableLines, List.isEmpty_iff, List.map_map, Function.comp_def]

theorem Report.isTable_iff (orderly : r.IsOrderly) : r.IsTable ↔ ∀ f ∈ r.functions, f.FitsRow := by
  rw [isTable_iff_lines_eq, toList_renderText, lines_flatMap_ended_iff, List.forall_mem_map]
  exact forall_mem_tableLines_iff orderly

theorem Report.length_lines_renderText_iff (orderly : r.IsOrderly) :
    (lines (renderText r).toList).length = r.lineCount ↔ ∀ f ∈ r.functions, f.FitsRow := by
  rw [toList_renderText, ← length_tableLines, ← List.length_map String.toList, length_lines_flatMap_ended_iff,
    List.forall_mem_map]
  exact forall_mem_tableLines_iff orderly

end

end SpecCoverage.Reports
