import SpecCoverage.Analysis.Analysis
import SpecCoverage.Proofs.Specifications.Resolution

/-!
# Consistency of reports

The functions, the specifications and the numbers of a report agree with one another
(`analyzeWith_isConsistent`): a function is marked exactly when a specification is mapped to it, no
specification is mapped to a function that is not listed, and nothing is matched exactly when nothing is mapped.
This does not depend on how the source files are read, nor on the options.
-/

namespace SpecCoverage.Reports

open Specifications

/-- The parts of a report fit together. -/
structure Report.IsConsistent (r : Report) : Prop where
  marked_iff : ∀ f ∈ r.functions,
    f.hasSpecification = true ↔ ∃ s ∈ r.specifications, s.function = some f.name
  exists_function : ∀ s ∈ r.specifications, ∀ name, s.function = some name →
    ∃ f ∈ r.functions, f.name = name
  wellFormed : ∀ s ∈ r.specifications, s.WellFormed
  total_eq : r.coverage.total = r.functions.length
  matched_eq : r.coverage.matched = r.functions.countP FunctionEntry.hasSpecification
  matched_eq_zero_iff : r.coverage.matched = 0 ↔ ∀ s ∈ r.specifications, s.function = none

/-- The numbers follow from the marks, and nothing is marked exactly when nothing is mapped. -/
private theorem isConsistent_of_marks {functions : List FunctionEntry} {specifications : List Specification}
    (marks : ∀ f ∈ functions, f.hasSpecification = true ↔ ∃ s ∈ specifications, s.function = some f.name)
    (exists_function : ∀ s ∈ specifications, ∀ name, s.function = some name → ∃ f ∈ functions, f.name = name)
    (wellFormed : ∀ s ∈ specifications, s.WellFormed) (skippedFiles : List String) :
    (Report.mk functions specifications (Coverage.ofEntries functions) skippedFiles).IsConsistent := by
  refine ⟨marks, exists_function, wellFormed, rfl, Coverage.matched_ofEntries functions, ?_⟩
  show (Coverage.ofEntries functions).matched = 0 ↔ ∀ s ∈ specifications, s.function = none
  rw [Coverage.matched_ofEntries, List.countP_eq_zero]
  constructor
  · intro unmarked s hs
    rw [Option.eq_none_iff_forall_not_mem]
    intro name mapped
    obtain ⟨f, hf, rfl⟩ := exists_function s hs name mapped
    exact unmarked f hf ((marks f hf).2 ⟨s, hs, mapped⟩)
  · intro unmapped f hf marked
    obtain ⟨s, hs, mapped⟩ := (marks f hf).1 marked
    rw [unmapped s hs] at mapped
    cases mapped

end SpecCoverage.Reports

namespace SpecCoverage.Analysis

open Functions Reports Source Specifications

private theorem marked_iff {specifications : List Specification} {entries : List FunctionEntry} {f : FunctionEntry}
    (h : f ∈ marked specifications entries) :
    f.hasSpecification = true ↔ ∃ s ∈ specifications, s.function = some f.name := by
  obtain ⟨entry, _, rfl⟩ := List.mem_map.1 h
  simp

theorem map_name_marked (specifications : List Specification) (entries : List FunctionEntry) :
    (marked specifications entries).map FunctionEntry.name = entries.map FunctionEntry.name := by
  simp [marked, Function.comp_def]

private theorem wellFormed_of_mem_extractedSpecifications {weights : Weights} {inputs : List Input}
    {s : Specification} (h : s ∈ extractedSpecifications weights inputs) : s.WellFormed := by
  obtain ⟨input, _, hs⟩ := List.mem_flatMap.1 h
  exact wellFormed_of_mem_extract hs

/-- Every analysis gives a consistent report. -/
theorem analyzeWith_isConsistent (reader : FunctionReader) (inputs : List Input) (options : Options) :
    (analyzeWith reader inputs options).IsConsistent := by
  refine isConsistent_of_marks (fun f hf => marked_iff hf) ?_ ?_ _
  · intro s hs name mapped
    obtain ⟨extracted, _, rfl⟩ := List.mem_map.1 hs
    have present := mem_of_function_matchOne mapped
    rw [← map_name_marked] at present
    exact List.mem_map.1 present
  · intro s hs
    obtain ⟨extracted, he, rfl⟩ := List.mem_map.1 hs
    exact (wellFormed_of_mem_extractedSpecifications he).matchOne _ _

end SpecCoverage.Analysis
