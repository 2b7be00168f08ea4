import SpecCoverage.Proofs.Specifications.Stability

/-!
# More functions

What becomes of a match when the program gets more functions.  A firm step asks only whether there is some function of a
kind, so that it does not fail when there are more (`isFirm_resolve_iff`); which of the firm steps applies may change.
The last step of the cascade asks for the only function of a kind, and so a match that it has made may be lost:

* (firm) what a firm step has mapped stays mapped, and by a firm step (`matchOne_of_subset`);
* (carried) what is carried over stays as it is (`carriesOver_of_subset`);
* (exact) a function that has been found by its very name is found again, unless the specification can be carried over
  (`resolveCandidate_eq_exact_iff`).
-/

namespace SpecCoverage.Specifications

open Text

variable {names others : List String} {policy : Policy} {s : Specification}

/-! ## Steps that ask for some function -/

theorem resolveCandidate_eq_exact_iff {candidate name : String} :
    resolveCandidate names candidate = .exact name ↔ candidate ∈ names ∧ name = candidate := by
  constructor
  · intro found
    rcases resolveCandidate_cases names candidate with
      ⟨e, present⟩ | ⟨_, e, -⟩ | ⟨_, e, -⟩ | ⟨e, -⟩ <;> rw [e] at found
    · exact ⟨present, (Resolution.exact.inj found).symm⟩
    all_goals cases found
  · rintro ⟨present, rfl⟩
    simp [resolveCandidate, present]

/-- A name is found firmly exactly if some function has a name that differs in case at most. -/
private theorem isFirm_resolveCandidate_iff {candidate : String} :
    (resolveCandidate names candidate).isFirm = true ↔
      ∃ name ∈ names, lowercase name = lowercase candidate := by
  rcases resolveCandidate_cases names candidate with
    ⟨e, present⟩ | ⟨name, e, -, hfind⟩ | ⟨_, e, folded, -⟩ | ⟨e, folded, -⟩ <;> rw [e]
  · exact iff_of_true rfl ⟨candidate, present, rfl⟩
  · exact iff_of_true rfl ⟨name, List.mem_of_find?_eq_some hfind, by simpa using List.find?_some hfind⟩
  all_goals
    refine iff_of_false Bool.false_ne_true ?_
    rintro ⟨name, present, same⟩
    exact folded name present same

theorem isFirm_resolve_iff :
    (resolve names policy s).isFirm = true ↔
      carriesOver names policy s = true ∨
        ∃ candidate, candidate? s.description = some candidate ∧
          ∃ name ∈ names, lowercase name = lowercase candidate := by
  by_cases carried : carriesOver names policy s = true
  · simp [resolve, carried, Resolution.isFirm]
  rw [resolve, if_neg carried]
  cases h : candidate? s.description with
  | none => simp [carried, Resolution.isFirm]
  | some candidate => simp [carried, isFirm_resolveCandidate_iff]

private theorem exists_function_of_isFirm (firm : (resolve names policy s).isFirm = true) :
    ∃ name ∈ names, (matchOne names policy s).function = some name ∧
      (matchOne names policy s).confidence.isSome = true := by
  have mapped : ∃ name, (matchOne names policy s).function = some name ∧
      (matchOne names policy s).confidence.isSome = true := by
    unfold matchOne
    cases h : resolve names policy s with
    | carried =>
      obtain ⟨name, _, hf, hc, -⟩ := carriesOver_iff.1 (resolve_eq_carried_iff.1 h)
      exact ⟨name, hf, by rw [Resolution.apply, hc]; rfl⟩
    | exact name => exact ⟨name, rfl, rfl⟩
    | caseInsensitive name => exact ⟨name, rfl, rfl⟩
    | fuzzy name => rw [h] at firm; cases firm
    | none => rw [h] at firm; cases firm
  obtain ⟨name, hf, hc⟩ := mapped
  exact ⟨name, mem_of_function_matchOne hf, hf, hc⟩

/-! ## More functions -/

section

variable (subset : names ⊆ others)
include subset

theorem carriesOver_of_subset (carried : carriesOver names policy s = true) : carriesOver others policy s = true := by
  obtain ⟨name, confidence, hf, hc, above, present⟩ := carriesOver_iff.1 carried
  exact carriesOver_iff.2 ⟨name, confidence, hf, hc, above, subset present⟩

private theorem isFirm_resolve_of_subset (firm : (resolve names policy s).isFirm = true) :
    (resolve others policy s).isFirm = true := by
  rw [isFirm_resolve_iff] at firm ⊢
  rcases firm with carried | ⟨candidate, read, name, present, same⟩
  · exact .inl (carriesOver_of_subset subset carried)
  · exact .inr ⟨candidate, read, name, subset present, same⟩

private theorem resolve_of_subset_of_exact {name : String} (found : resolve names policy s = .exact name) :
    resolve others policy s = .carried ∨ resolve others policy s = .exact name := by
  have notCarried : ¬ carriesOver names policy s = true := by
    rw [← resolve_eq_carried_iff, found]
    exact Resolution.noConfusion
  rw [resolve, if_neg notCarried] at found
  cases read : candidate? s.description with
  | none => rw [read] at found; cases found
  | some candidate =>
    rw [read] at found
    obtain ⟨present, rfl⟩ := resolveCandidate_eq_exact_iff.1 found
    by_cases carried : carriesOver others policy s = true
    · exact .inl (resolve_eq_carried_iff.2 carried)
    · refine .inr ?_
      rw [resolve, if_neg carried, read]
      exact resolveCandidate_eq_exact_iff.2 ⟨subset present, rfl⟩

/-- A specification that a firm step has mapped is mapped by a firm step when there are more functions: carried over
and unchanged if it was carried over, and to the same function or carried over if that had its very name.  Only a match
of the last step can be lost. -/
theorem matchOne_of_subset (policy : Policy) (s : Specification) :
    ((resolve names policy s).isFirm = true →
      (resolve others policy s).isFirm = true ∧
        ∃ name ∈ others, (matchOne others policy s).function = some name ∧
          (matchOne others policy s).confidence.isSome = true) ∧
    (resolve names policy s = .carried →
      resolve others policy s = .carried ∧ matchOne others policy s = matchOne names policy s) ∧
    (∀ name, resolve names policy s = .exact name →
      resolve others policy s = .carried ∨ resolve others policy s = .exact name) ∧
    ((matchOne names policy s).function ≠ none → (matchOne others policy s).function = none →
      ∃ name, resolve names policy s = .fuzzy name) := by
  have firmly := @isFirm_resolve_of_subset names others policy s subset
  refine ⟨fun firm => ⟨firmly firm, exists_function_of_isFirm (firmly firm)⟩, fun carried => ?_,
    fun _ => resolve_of_subset_of_exact subset, fun mapped lost => ?_⟩
  · have before := resolve_eq_carried_iff.1 carried
    have behind := carriesOver_of_subset subset before
    refine ⟨resolve_eq_carried_iff.2 behind, ?_⟩
    rw [matchOne_of_carriesOver behind, matchOne_of_carriesOver before]
  · -- a firm step would have kept it
    have notFirm : ¬ (resolve names policy s).isFirm = true := by
      intro firm
      obtain ⟨name, -, found, -⟩ := exists_function_of_isFirm (firmly firm)
      rw [lost] at found
      cases found
    cases h : resolve names policy s with
    | fuzzy name => exact ⟨name, rfl⟩
    | none =>
      rw [matchOne, h] at mapped
      exact absurd rfl mapped
    | carried => exact absurd (by rw [h]; rfl) notFirm
    | exact name => exact absurd (by rw [h]; rfl) notFirm
    | caseInsensitive name => exact absurd (by rw [h]; rfl) notFirm

end

/-- A match up to case becomes one with the very name, and the only function whose name holds `load` is the only one no
longer. -/
theorem matchOne_of_subset_load :
    ["LOAD", "preload"] ⊆ ["send", "load", "LOAD", "preload"] ∧
      resolve ["LOAD", "preload"] {} { description := "load: reads" } = .caseInsensitive "LOAD" ∧
      (resolve ["send", "load", "LOAD", "preload"] {} { description := "load: reads" }).isFirm = true ∧
      matchOne ["send", "load", "LOAD", "preload"] {} { description := "load: reads" }
        = { description := "load: reads", function := some "load", confidence := some 95 } ∧
      ["preload"] ⊆ ["preload", "reload"] ∧
      ∃ name, resolve ["preload"] {} { description := "load: reads" } = .fuzzy name := by
  have subset : ["LOAD", "preload"] ⊆ ["send", "load", "LOAD", "preload"] := by decide
  have subset' : ["preload"] ⊆ ["preload", "reload"] := by decide
  have found : resolve ["LOAD", "preload"] {} { description := "load: reads" } = .caseInsensitive "LOAD" := by
    decide +kernel
  obtain ⟨firm, -⟩ := (matchOne_of_subset subset {} { description := "load: reads" }).1 (by rw [found]; rfl)
  obtain ⟨-, -, -, lost⟩ := matchOne_of_subset subset' {} { description := "load: reads" }
  exact ⟨subset, found, firm, by decide +kernel, subset', lost (by decide +kernel) (by decide +kernel)⟩

end SpecCoverage.Specifications
