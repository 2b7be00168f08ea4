import Mathlib.Data.List.Flatten
import Mathlib.Data.List.Forall2
import SpecCoverage.Analysis.Analysis

/-!
# Reports and their inputs

How a report changes with the inputs of the analysis.  It is made of two lists that are read off the inputs apart, the
source files that have been read and the specifications of the documents (`analyzeWith_eq`).

* (documents) More documents give more specifications and leave the files that have been read alone, so the report is
  extended (`reportOf_isExtendedBy`): functions can only become marked, and what was mapped stays mapped.  Where the
  documents stand among the source files does not matter.
* (broken files) A source file that is no program adds its name to the files passed over and nothing else
  (`reportOf_append_broken`).
-/

namespace SpecCoverage.Reports

open Specifications

/-- The same function, marked if it was marked before. -/
structure FunctionEntry.IsMarkedBy (f marked : FunctionEntry) : Prop where
  eq_apart : marked = { f with hasSpecification := marked.hasSpecification }
  stays_marked : f.hasSpecification = true → marked.hasSpecification = true

/-- The functions, the files passed over and the specifications of a report are kept; there may be more specifications
and more marks. -/
structure Report.IsExtendedBy (r more : Report) : Prop where
  functions : List.Forall₂ FunctionEntry.IsMarkedBy r.functions more.functions
  skippedFiles : more.skippedFiles = r.skippedFiles
  specifications : r.specifications.Sublist more.specifications
  matched_le : r.coverage.matched ≤ more.coverage.matched

private theorem matched_ofEntries_le {entries more : List FunctionEntry}
    (h : List.Forall₂ FunctionEntry.IsMarkedBy entries more) :
    (Coverage.ofEntries entries).matched ≤ (Coverage.ofEntries more).matched := by
  rw [Coverage.matched_ofEntries, Coverage.matched_ofEntries]
  induction h with
  | nil => exact Nat.le_refl _
  | cons head _ ih =>
    rw [List.countP_cons, List.countP_cons]
    refine Nat.add_le_add ih ?_
    split
    · next before => exact Nat.le_of_eq (if_pos (head.stays_marked before)).symm
    · exact Nat.zero_le _

end SpecCoverage.Reports

namespace SpecCoverage.Analysis

open Functions Reports Specifications

/-! ## A report in two parts -/

/-- The report on source files that have been read and on specifications that have been extracted. -/
def reportOf (read : List ReadSource) (extracted : List Specification) (policy : Policy) : Report :=
  let entries := entriesOf read
  let specifications := matchAll extracted (entries.map FunctionEntry.name) policy
  let functions := marked specifications entries
  { functions
    specifications
    coverage := Coverage.ofEntries functions
    skippedFiles := skippedOf read }

theorem analyzeWith_eq (reader : FunctionReader) (inputs : List Input) (options : Options) :
    analyzeWith reader inputs options
      = reportOf (readSources reader inputs) (extractedSpecifications options.weights inputs) options.policy :=
  rfl

private theorem readSources_append (reader : FunctionReader) (front back : List Input) :
    readSources reader (front ++ back) = readSources reader front ++ readSources reader back := by
  simp [readSources, sources]

/-! ## More documents -/

/-- The second list of inputs is the first one with documents put in anywhere. -/
inductive AddsDocuments : List Input → List Input → Prop where
  | nil : AddsDocuments [] []
  | keep (input : Input) {inputs more : List Input} :
      AddsDocuments inputs more → AddsDocuments (input :: inputs) (input :: more)
  | add {document : Input} {inputs more : List Input} :
      document.isDocumentation = true → AddsDocuments inputs more → AddsDocuments inputs (document :: more)

variable {inputs more : List Input}

private theorem AddsDocuments.sources_eq (h : AddsDocuments inputs more) : sources more = sources inputs := by
  induction h with
  | nil => rfl
  | keep input _ ih => simp only [sources, List.filter_cons] at ih ⊢; rw [ih]
  | add document _ ih => rw [← ih, sources, sources, List.filter_cons_of_neg (by simp [document])]

private theorem AddsDocuments.documents_sublist (h : AddsDocuments inputs more) :
    (documents inputs).Sublist (documents more) := by
  induction h with
  | nil => exact .slnil
  | keep input _ ih =>
    unfold documents at ih ⊢
    by_cases role : input.isDocumentation = true
    · rw [List.filter_cons_of_pos role, List.filter_cons_of_pos role]
      exact ih.cons_cons input
    · rw [List.filter_cons_of_neg role, List.filter_cons_of_neg role]
      exact ih
  | add document _ ih =>
    unfold documents at ih ⊢
    rw [List.filter_cons_of_pos document]
    exact ih.cons _

private theorem AddsDocuments.extractedSpecifications_sublist (h : AddsDocuments inputs more) (weights : Weights) :
    (extractedSpecifications weights inputs).Sublist (extractedSpecifications weights more) :=
  h.documents_sublist.flatMap _

/-- More specifications mark what fewer do. -/
private theorem isMarkedBy_marked {fewer specifications : List Specification} (h : fewer ⊆ specifications)
    (entries : List FunctionEntry) :
    List.Forall₂ FunctionEntry.IsMarkedBy (marked fewer entries) (marked specifications entries) := by
  unfold marked
  rw [List.forall₂_map_left_iff, List.forall₂_map_right_iff, List.forall₂_same]
  intro entry _
  refine ⟨rfl, fun before => ?_⟩
  rw [List.contains_iff_mem, List.mem_filterMap] at before ⊢
  obtain ⟨s, hs, mapped⟩ := before
  exact ⟨s, h hs, mapped⟩

/-- Each specification is matched apart from the others, so those that there were are matched as before. -/
theorem reportOf_isExtendedBy (read : List ReadSource) (policy : Policy) {extracted specifications : List Specification}
    (h : extracted.Sublist specifications) :
    (reportOf read extracted policy).IsExtendedBy (reportOf read specifications policy) := by
  have kept : (matchAll extracted ((entriesOf read).map FunctionEntry.name) policy).Sublist
      (matchAll specifications ((entriesOf read).map FunctionEntry.name) policy) := h.map _
  have marks := isMarkedBy_marked kept.subset (entriesOf read)
  exact ⟨marks, rfl, kept, matched_ofEntries_le marks⟩

/-- Documents only add to a report, and it does not matter where they stand among the source files. -/
theorem analyzeWith_isExtendedBy (reader : FunctionReader) (options : Options) (h : AddsDocuments inputs more) :
    (analyzeWith reader inputs options).IsExtendedBy (analyzeWith reader more options) ∧
      ∀ others, AddsDocuments inputs others → documents others = documents more →
        analyzeWith reader others options = analyzeWith reader more options := by
  have read {others : List Input} (h : AddsDocuments inputs others) :
      readSources reader others = readSources reader inputs := by rw [readSources, readSources, h.sources_eq]
  constructor
  · rw [analyzeWith_eq, analyzeWith_eq, read h]
    exact reportOf_isExtendedBy _ _ (h.extractedSpecifications_sublist _)
  · intro others h' sameDocuments
    rw [analyzeWith_eq, analyzeWith_eq, read h, read h', extractedSpecifications, sameDocuments,
      extractedSpecifications]

def loadFile : Input := ⟨"load.js", "function load() \x7b\x7d", false⟩

def loadNotes : Input := ⟨"load.md", "- **load**: Loads.", true⟩

/-- The notes mark the function, in front of its file or behind it. -/
theorem analyze_isExtendedBy_load :
    AddsDocuments [loadFile] [loadNotes, loadFile] ∧ AddsDocuments [loadFile] [loadFile, loadNotes] ∧
      (analyze [loadFile] {}).coverage = ⟨0, 1⟩ ∧ (analyze [loadNotes, loadFile] {}).coverage = ⟨1, 1⟩ ∧
      (analyze [loadFile] {}).IsExtendedBy (analyze [loadNotes, loadFile] {}) ∧
      analyze [loadFile, loadNotes] {} = analyze [loadNotes, loadFile] {} := by
  have before : AddsDocuments [loadFile] [loadNotes, loadFile] := .add rfl (.keep loadFile .nil)
  have behind : AddsDocuments [loadFile] [loadFile, loadNotes] := .keep loadFile (.add rfl .nil)
  obtain ⟨extended, anywhere⟩ := analyzeWith_isExtendedBy readFunctions {} before
  exact ⟨before, behind, by decide +kernel, by decide +kernel, extended, anywhere _ behind rfl⟩

/-! ## Broken source files -/

/-- Whether an input is a source file that the reader cannot read. -/
def isBroken (reader : FunctionReader) (input : Input) : Bool :=
  !input.isDocumentation && (reader input).isNone

private theorem length_skippedOf_readSources (reader : FunctionReader) (inputs : List Input) :
    (skippedOf (readSources reader inputs)).length = inputs.countP (isBroken reader) := by
  rw [skippedOf, List.length_map, readSources, List.filter_map, List.length_map, sources, List.filter_filter,
    List.countP_eq_length_filter]
  congr 2
  funext input
  exact Bool.and_comm _ _

private theorem insertIdx_length_append {α : Type} (front back : List α) (x : α) :
    (front ++ back).insertIdx front.length x = front ++ x :: back :=
  List.modifyTailIdx_add (List.cons x) 0 front back

/-- A source file that is no program leaves its name only. -/
theorem reportOf_append_broken (front back : List ReadSource) (fileName : String) (extracted : List Specification)
    (policy : Policy) :
    reportOf (front ++ ⟨fileName, none⟩ :: back) extracted policy =
      { reportOf (front ++ back) extracted policy with
        skippedFiles := (skippedOf (front ++ back)).insertIdx (skippedOf front).length fileName } := by
  have entries : entriesOf (front ++ ⟨fileName, none⟩ :: back) = entriesOf (front ++ back) := by
    simp [entriesOf]
  have skipped : skippedOf (front ++ ⟨fileName, none⟩ :: back)
      = (skippedOf (front ++ back)).insertIdx (skippedOf front).length fileName := by
    have apart : skippedOf (front ++ back) = skippedOf front ++ skippedOf back := by simp [skippedOf]
    rw [apart, insertIdx_length_append]
    simp [skippedOf]
  rw [reportOf, entries, skipped]
  rfl

/-- A source file that is no program changes a report in one place: its name stands among the files passed over, behind
those of the broken files in front of it. -/
theorem analyzeWith_append_broken (reader : FunctionReader) (options : Options) (front back : List Input)
    {broken : Input} (source : broken.isDocumentation = false) (fails : reader broken = none) :
    front.countP (isBroken reader) ≤ (analyzeWith reader (front ++ back) options).skippedFiles.length ∧
      analyzeWith reader (front ++ [broken] ++ back) options =
        { analyzeWith reader (front ++ back) options with
          skippedFiles := (analyzeWith reader (front ++ back) options).skippedFiles.insertIdx
            (front.countP (isBroken reader)) broken.fileName } := by
  have read : readSources reader (front ++ [broken] ++ back)
      = readSources reader front ++ ⟨broken.fileName, none⟩ :: readSources reader back := by
    simp [readSources, sources, source, fails]
  have extracted : extractedSpecifications options.weights (front ++ [broken] ++ back)
      = extractedSpecifications options.weights (front ++ back) := by
    simp [extractedSpecifications, documents, source]
  constructor
  · show _ ≤ (skippedOf (readSources reader (front ++ back))).length
    rw [length_skippedOf_readSources, List.countP_append]
    exact Nat.le_add_right _ _
  · rw [analyzeWith_eq, read, extracted, reportOf_append_broken, length_skippedOf_readSources,
      ← readSources_append]
    rfl

/-- A file that stops being a program behind `const`. -/
def brokenFile (fileName : String) : Input := ⟨fileName, "const = ;", false⟩

private theorem readFunctions_brokenFile : readFunctions (brokenFile "b.js") = none :=
  Option.isNone_iff_eq_none.1 (by decide +kernel)

/-- Between two other broken files the name stands between theirs. -/
theorem analyze_append_broken_between :
    readFunctions (brokenFile "b.js") = none ∧
      analyze ([brokenFile "a.js", loadFile] ++ [brokenFile "b.js"] ++ [loadNotes, brokenFile "c.js"]) {}
        = { analyze ([brokenFile "a.js", loadFile] ++ [loadNotes, brokenFile "c.js"]) {} with
            skippedFiles := ["a.js", "b.js", "c.js"] } := by
  obtain ⟨-, report⟩ := analyzeWith_append_broken readFunctions {} [brokenFile "a.js", loadFile]
    [loadNotes, brokenFile "c.js"] (show (brokenFile "b.js").isDocumentation = false from rfl)
    readFunctions_brokenFile
  have between : (analyzeWith readFunctions ([brokenFile "a.js", loadFile] ++ [loadNotes, brokenFile "c.js"])
      {}).skippedFiles.insertIdx ([brokenFile "a.js", loadFile].countP (isBroken readFunctions))
        (brokenFile "b.js").fileName = ["a.js", "b.js", "c.js"] := by decide +kernel
  rw [between] at report
  exact ⟨readFunctions_brokenFile, report⟩

end SpecCoverage.Analysis
