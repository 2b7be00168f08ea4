import SpecCoverage.Proofs.Specifications.Extraction
import SpecCoverage.Specifications.Matching

/-!
# How specifications are resolved

* (cascade) What each step of the cascade gives, and what it says about the steps before it
  (`carriesOver_iff`, `resolveCandidate_cases`);
* (mappings) a matched specification keeps its description and its evidence, is mapped to one of the functions
  or to none (`mem_of_function_matchOne`), and has a confidence exactly when it is mapped
  (`Specification.WellFormed`).
-/

namespace SpecCoverage.Specifications

open Text

/-! ## The cascade -/

theorem carriesOver_iff {names : List String} {policy : Policy} {s : Specification} :
    carriesOver names policy s = true ↔ ∃ name confidence, s.function = some name ∧
      s.confidence = some confidence ∧ policy.carryThreshold < confidence ∧ name ∈ names := by
  unfold carriesOver
  split
  · next name confidence hf hc => simp [hf, hc]
  · next h =>
    refine iff_of_false Bool.false_ne_true ?_
    rintro ⟨name, confidence, hf, hc, -⟩
    exact h name confidence hf hc

theorem onlyOne?_eq_some_iff {names : List String} {name : String} :
    onlyOne? names = some name ↔ name ∈ names ∧ ∀ other ∈ names, other = name := by
  cases names with
  | nil => simp [onlyOne?]
  | cons first rest =>
    rw [onlyOne?, Option.ite_none_right_eq_some, Option.some.injEq]
    constructor
    · rintro ⟨same, rfl⟩
      exact ⟨List.mem_cons_self, List.forall_mem_cons.2 ⟨rfl, by simpa using same⟩⟩
    · rintro ⟨-, same⟩
      obtain ⟨rfl, same⟩ := List.forall_mem_cons.1 same
      exact ⟨by simpa using same, rfl⟩

/-- Each step is taken only where the steps before it have failed. -/
theorem resolveCandidate_cases (names : List String) (candidate : String) :
    (resolveCandidate names candidate = .exact candidate ∧ candidate ∈ names) ∨
    (∃ name, resolveCandidate names candidate = .caseInsensitive name ∧ candidate ∉ names ∧
      names.find? (fun name => lowercase name = lowercase candidate) = some name) ∨
    (∃ name, resolveCandidate names candidate = .fuzzy name ∧
      (∀ name ∈ names, lowercase name ≠ lowercase candidate) ∧
      onlyOne? (names.filter fun name => areRelated name candidate) = some name) ∨
    (resolveCandidate names candidate = .none ∧
      (∀ name ∈ names, lowercase name ≠ lowercase candidate) ∧
      onlyOne? (names.filter fun name => areRelated name candidate) = none) := by
  by_cases present : candidate ∈ names
  · exact .inl ⟨by simp [resolveCandidate, present], present⟩
  right
  cases hfind : names.find? fun name => lowercase name = lowercase candidate with
  | some name =>
    exact .inl ⟨name, by simp [resolveCandidate, present, hfind], present, rfl⟩
  | none =>
    right
    have folded : ∀ name ∈ names, lowercase name ≠ lowercase candidate := by
      simpa [List.find?_eq_none] using hfind
    cases honly : onlyOne? (names.filter fun name => areRelated name candidate) with
    | some name => exact .inl ⟨name, by simp [resolveCandidate, present, hfind, honly], folded, rfl⟩
    | none => exact .inr ⟨by simp [resolveCandidate, present, hfind, honly], folded, rfl⟩

private theorem resolveCandidate_ne_carried (names : List String) (candidate : String) :
    resolveCandidate names candidate ≠ .carried := by
  rcases resolveCandidate_cases names candidate with ⟨e, -⟩ | ⟨_, e, -⟩ | ⟨_, e, -⟩ | ⟨e, -⟩ <;> simp [e]

theorem resolve_eq_carried_iff {names : List String} {policy : Policy} {s : Specification} :
    resolve names policy s = .carried ↔ carriesOver names policy s = true := by
  unfold resolve
  split
  · next h => simp [h]
  · next h =>
    refine iff_of_false ?_ h
    split
    · exact resolveCandidate_ne_carried _ _
    · simp

theorem matchOne_of_carriesOver {names : List String} {policy : Policy} {s : Specification}
    (h : carriesOver names policy s = true) : matchOne names policy s = s := by
  rw [matchOne, resolve_eq_carried_iff.2 h]
  rfl

/-- Only the description decides about a specification that is not carried over. -/
theorem resolve_congr {names : List String} {policy : Policy} {s t : Specification}
    (hs : carriesOver names policy s ≠ true) (ht : carriesOver names policy t ≠ true)
    (h : s.description = t.description) : resolve names policy s = resolve names policy t := by
  simp [resolve, hs, ht, h]

/-! ## Carrying a resolution out -/

/-- A resolution changes the mapping only. -/
theorem Resolution.apply_frame (policy : Policy) (s : Specification) (r : Resolution) :
    (r.apply policy s).description = s.description ∧ (r.apply policy s).evidence = s.evidence := by
  cases r <;> exact ⟨rfl, rfl⟩

/-- A resolution that carries nothing over does not look at the mapping that there was. -/
theorem Resolution.apply_apply (policy : Policy) (s : Specification) {r : Resolution} (h : r ≠ carried)
    (first : Resolution) : r.apply policy (first.apply policy s) = r.apply policy s := by
  cases r with
  | carried => exact absurd rfl h
  | exact name => cases first <;> rfl
  | caseInsensitive name => cases first <;> rfl
  | fuzzy name => cases first <;> rfl
  | none => cases first <;> rfl

/-! ## Mappings -/

private theorem mem_of_function_resolveCandidate {names : List String} {candidate : String} {policy : Policy}
    {s : Specification} {name : String}
    (h : ((resolveCandidate names candidate).apply policy s).function = some name) : name ∈ names := by
  rcases resolveCandidate_cases names candidate with
    ⟨e, present⟩ | ⟨found, e, -, hfind⟩ | ⟨found, e, -, honly⟩ | ⟨e, -⟩ <;> rw [e] at h
  · cases h; exact present
  · cases h; exact List.mem_of_find?_eq_some hfind
  · cases h; exact (List.mem_filter.1 (onlyOne?_eq_some_iff.1 honly).1).1
  · cases h

theorem mem_of_function_matchOne {names : List String} {policy : Policy} {s : Specification} {name : String}
    (h : (matchOne names policy s).function = some name) : name ∈ names := by
  by_cases carried : carriesOver names policy s = true
  · obtain ⟨name', _, hf, -, -, present⟩ := carriesOver_iff.1 carried
    rw [matchOne_of_carriesOver carried, hf] at h
    cases h
    exact present
  · rw [matchOne, resolve, if_neg carried] at h
    split at h
    · exact mem_of_function_resolveCandidate h
    · cases h

/-- The confidence stands with the mapping, and is one in percent. -/
structure Specification.WellFormed (s : Specification) : Prop where
  isSome_eq : s.function.isSome = s.confidence.isSome
  confidence_le : ∀ c, s.confidence = some c → c ≤ maxConfidence

theorem Specification.wellFormed_of_mapped {s : Specification} {function : String} {confidence : Nat}
    (hf : s.function = some function) (hc : s.confidence = some (min confidence maxConfidence)) :
    s.WellFormed := by
  refine ⟨by rw [hf, hc]; rfl, ?_⟩
  rw [hc]
  rintro _ ⟨⟩
  exact Nat.min_le_right _ _

theorem Specification.wellFormed_unmapped (s : Specification) : s.unmapped.WellFormed :=
  ⟨rfl, fun _ h => nomatch h⟩

theorem Specification.WellFormed.matchOne {s : Specification} (h : s.WellFormed) (names : List String)
    (policy : Policy) : (matchOne names policy s).WellFormed := by
  unfold Specifications.matchOne
  cases resolve names policy s with
  | carried => exact h
  | exact name => exact Specification.wellFormed_of_mapped rfl rfl
  | caseInsensitive name => exact Specification.wellFormed_of_mapped rfl rfl
  | fuzzy name => exact Specification.wellFormed_of_mapped rfl rfl
  | none => exact s.wellFormed_unmapped

theorem wellFormed_of_mem_extract {text : String} {weights : Weights} {s : Specification}
    (h : s ∈ extract text weights) : s.WellFormed := by
  obtain ⟨evidence, description, name, rfl, -⟩ := isMade_of_mem_extract h
  exact Specification.wellFormed_of_mapped rfl rfl

end SpecCoverage.Specifications
