import SpecCoverage.Proofs.Analysis.Consistency
import SpecCoverage.Proofs.Reports.Table
import SpecCoverage.Proofs.Specifications.Descriptions

/-!
# Reports of analyses as tables

The report of an analysis says nothing about files and documents that takes more than one line, if the names of the files
do not (`isOrderly_analyze`).  So its table has one line for each row exactly if what it shows of each function is on one
line (`analyze_isTable_iff`).  It need not be: a type is shown as it is written in the source or in a comment, which may
be over several lines (`not_isTable_object`).
-/

namespace SpecCoverage.Analysis

open Functions Reports Specifications Text

variable {inputs : List Input}

private theorem fileName_of_mem_readFunctions {input : Input} {functions : List Function} {f : Function}
    (read : readFunctions input = some functions) (h : f ∈ functions) : f.fileName = input.fileName := by
  unfold readFunctions functionsIn at read
  cases program : Program.readProgram (Source.Dialect.ofFile input.fileName)
      (Source.withoutMark input.content.toList) with
  | error failure => rw [program] at read; cases read
  | ok tree =>
    rw [program] at read
    cases read
    obtain ⟨o, _, rfl⟩ := List.mem_map.1 h
    rfl

private theorem isOneLine_fileName_of_mem_analyze {options : Options}
    (fileNames : ∀ input ∈ inputs, IsOneLine input.fileName)
    {f : FunctionEntry} (h : f ∈ (analyze inputs options).functions) : IsOneLine f.fileName := by
  obtain ⟨entry, hentry, rfl⟩ := List.mem_map.1 h
  obtain ⟨source, hsource, hentry⟩ := List.mem_flatMap.1 hentry
  obtain ⟨input, hinput, rfl⟩ := List.mem_map.1 hsource
  obtain ⟨function, hfunction, rfl⟩ := List.mem_map.1 hentry
  show IsOneLine function.fileName
  cases read : readFunctions input with
  | none => simp [read] at hfunction
  | some functions =>
    rw [read] at hfunction
    rw [fileName_of_mem_readFunctions read hfunction]
    exact fileNames input (List.mem_filter.1 hinput).1

private theorem isOneLine_description_of_mem_extract {text : String} {weights : Weights} {s : Specification}
    (h : s ∈ extract text weights) : IsOneLine s.description := by
  obtain ⟨evidence, f, hf, rfl⟩ := mem_extract_iff.1 h
  obtain ⟨description, name, described, made⟩ := isDescribed_of_mem_foundBy hf
  rw [made]
  simpa [IsOneLine, Specification.ofEvidence] using described.clean.oneLine

/-- Everything in a report but the functions is on one line: the descriptions always, the names of the files if those of
the inputs are. -/
theorem isOrderly_analyze (options : Options) (fileNames : ∀ input ∈ inputs, IsOneLine input.fileName) :
    (analyze inputs options).IsOrderly where
  fileNames _ hf := isOneLine_fileName_of_mem_analyze fileNames hf
  descriptions s hs := by
    obtain ⟨extracted, he, rfl⟩ := List.mem_map.1 hs
    obtain ⟨input, _, he⟩ := List.mem_flatMap.1 he
    rw [matchOne, (Resolution.apply_frame _ _ _).1]
    exact isOneLine_description_of_mem_extract he
  mapped s hs name mapped := by
    obtain ⟨extracted, _, rfl⟩ := List.mem_map.1 hs
    have present := mem_of_function_matchOne mapped
    rwa [← map_name_marked] at present
  skippedFiles file hfile := by
    obtain ⟨source, hsource, rfl⟩ := List.mem_map.1 hfile
    obtain ⟨input, hinput, rfl⟩ := List.mem_map.1 (List.mem_filter.1 hsource).1
    exact fileNames input (List.mem_filter.1 hinput).1

/-- The text of a report is a table with one line for each row exactly if what it shows of each function is on one line;
in every other case it has other lines, and not as many. -/
theorem analyze_isTable_iff (inputs : List Input) (options : Options)
    (fileNames : ∀ input ∈ inputs, IsOneLine input.fileName) :
    ((analyze inputs options).IsTable ↔ ∀ f ∈ (analyze inputs options).functions, f.FitsRow) ∧
      ((lines (renderText (analyze inputs options)).toList).length = (analyze inputs options).lineCount ↔
        ∀ f ∈ (analyze inputs options).functions, f.FitsRow) :=
  ⟨Report.isTable_iff (isOrderly_analyze options fileNames),
    Report.length_lines_renderText_iff (isOrderly_analyze options fileNames)⟩

/-- A program, a document and a file that is no program. -/
def saveInputs : List Input :=
  [⟨"save.ts", "function save(path: string): boolean \x7b return true \x7d", false⟩,
    ⟨"save.md", "- **save**: Saves\n  a file.", true⟩, ⟨"broken.ts", "const = ;", false⟩]

/-- A table with all its parts. -/
theorem analyze_isTable_save :
    (∀ input ∈ saveInputs, IsOneLine input.fileName) ∧ (analyze saveInputs {}).IsTable ∧
      (lines (renderText (analyze saveInputs {})).toList).length = 8 := by
  have fileNames : ∀ input ∈ saveInputs, IsOneLine input.fileName := by decide
  have fits : ∀ f ∈ (analyze saveInputs {}).functions, f.FitsRow := by decide +kernel
  have count : (analyze saveInputs {}).lineCount = 8 := by decide +kernel
  obtain ⟨table, length⟩ := analyze_isTable_iff saveInputs {} fileNames
  exact ⟨fileNames, table.2 fits, count ▸ length.2 fits⟩

/-- A parameter with the type of an object, over three lines. -/
def objectFile : Input := ⟨"a.ts", "function f(a: \x7b\n  x: number\n\x7d) \x7b\x7d", false⟩

theorem not_isTable_object :
    IsOneLine objectFile.fileName ∧ (analyze [objectFile] {}).functions.length = 1 ∧
      ¬ (analyze [objectFile] {}).IsTable ∧
      (lines (renderText (analyze [objectFile] {})).toList).length ≠ (analyze [objectFile] {}).lineCount := by
  have fileNames : ∀ input ∈ [objectFile], IsOneLine input.fileName := by decide
  have orderly := isOrderly_analyze {} fileNames
  have unfit : ¬ ∀ f ∈ (analyze [objectFile] {}).functions, f.FitsRow := by decide +kernel
  exact ⟨by decide, by decide +kernel, mt (Report.isTable_iff orderly).1 unfit,
    mt (Report.length_lines_renderText_iff orderly).1 unfit⟩

end SpecCoverage.Analysis
