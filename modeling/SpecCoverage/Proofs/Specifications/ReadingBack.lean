import SpecCoverage.Proofs.Specifications.Resolution

/-!
# Names that are read back

Extraction writes the name of a specification at the start of its description, and matching reads it from
there when the confidence is not above the threshold.  The two agree on the names of documents, but a name from
script code may have letters that matching does not take for parts of a name: then nothing is read
(`candidate?_of_isHeadedBy`), and the specification loses the function that it names
(`keepsName_extract_iff`).
-/

namespace SpecCoverage.Specifications

open Text

/-- The specification `r` that `s` becomes keeps the name, with its own confidence if that is above the
threshold and else with that of an exact match. -/
def KeepsName (policy : Policy) (name : String) (s r : Specification) : Prop :=
  r.function = some name ∧ r.confidence = s.confidence.map fun c =>
    if policy.carryThreshold < c then c else min policy.exact maxConfidence

/-- Matching reads the name that heads a description if it knows all characters of the name, and nothing
otherwise: then it stops within the name, in front of no mark. -/
theorem candidate?_of_isHeadedBy {description name : List Char} (h : IsHeadedBy description name) :
    candidate? (String.ofList description)
      = if name.all isNameChar then some (String.ofList name) else none := by
  obtain ⟨hne, unmarked, mark, rest, hmark, rfl⟩ := h
  unfold candidate?
  rw [String.toList_ofList]
  by_cases all : name.all isNameChar = true
  · have hstop : isNameChar mark = false := by rcases hmark with rfl | rfl <;> decide
    rw [if_pos all, run?_append hne (List.all_eq_true.1 all) hstop]
    rcases hmark with rfl | rfl <;> rfl
  · obtain ⟨front, c, back, rfl, hfront, hc⟩ := exists_first_not all
    have unmarkedStop : c ≠ '(' ∧ c ≠ ':' := unmarked c (by simp)
    rw [if_neg all, List.append_assoc, List.cons_append]
    cases front with
    | nil => simp [run?, hc]
    | cons d ds =>
      rw [run?_append (by simp) hfront hc]
      split <;> simp_all

/-! ## Matching what extraction has made -/

private theorem matchOne_of_isMade {weights : Weights} {evidence : Evidence} {s : Specification} {name : String}
    {names : List String} (made : IsMade weights evidence s) (rule : evidence ≠ .sectionMention)
    (named : s.function = some name) (present : name ∈ names) (policy : Policy) :
    matchOne names policy s =
      if policy.carryThreshold < min (weights.weight evidence) maxConfidence then s
      else if name.toList.all isNameChar then s.mappedTo name policy.exact
      else s.unmapped := by
  obtain ⟨description, letters, rfl, headed, -⟩ := made
  obtain rfl : String.ofList letters = name := by simpa [Specification.ofEvidence] using named
  rw [String.toList_ofList]
  split
  · next above => exact matchOne_of_carriesOver (carriesOver_iff.2 ⟨_, _, rfl, rfl, above, present⟩)
  · next notAbove =>
    have notCarried : ¬ carriesOver names policy
        (.ofEvidence (String.ofList description) (String.ofList letters) evidence weights) = true := by
      rw [carriesOver_iff]
      rintro ⟨_, _, _, ⟨⟩, above, _⟩
      exact notAbove above
    have read : candidate? (Specification.ofEvidence (String.ofList description) (String.ofList letters) evidence
        weights).description = if letters.all isNameChar then some (String.ofList letters) else none :=
      candidate?_of_isHeadedBy (headed rule)
    unfold matchOne resolve
    rw [if_neg notCarried, read]
    by_cases all : letters.all isNameChar = true
    · simp [all, resolveCandidate, present, Resolution.apply]
    · simp [all, Resolution.apply]

private theorem keepsName_matchOne_iff {weights : Weights} {evidence : Evidence} {s : Specification} {name : String}
    {names : List String} (made : IsMade weights evidence s) (rule : evidence ≠ .sectionMention)
    (named : s.function = some name) (present : name ∈ names) (policy : Policy) :
    (KeepsName policy name s (matchOne names policy s) ↔
      policy.carryThreshold < min (weights.weight evidence) maxConfidence ∨ name.toList.all isNameChar = true) ∧
    (¬ KeepsName policy name s (matchOne names policy s) → matchOne names policy s = s.unmapped) := by
  have confident : s.confidence = some (min (weights.weight evidence) maxConfidence) := made.confidence_eq
  rw [matchOne_of_isMade made rule named present policy]
  split
  · next above =>
    have keeps : KeepsName policy name s s := ⟨named, by simp [confident, above]⟩
    exact ⟨iff_of_true keeps (.inl above), fun h => absurd keeps h⟩
  · next notAbove =>
    split
    · next all =>
      have keeps : KeepsName policy name s (s.mappedTo name policy.exact) :=
        ⟨rfl, by simp [confident, notAbove, Specification.mappedTo]⟩
      exact ⟨iff_of_true keeps (.inr all), fun h => absurd keeps h⟩
    · next notAll =>
      have loses : ¬ KeepsName policy name s s.unmapped := fun h => nomatch h.1
      exact ⟨iff_of_false loses fun h => h.elim notAbove notAll, fun _ => rfl⟩

/-- A specification that a rule other than that of mentions has found, and that names one of the functions, keeps
the name exactly when its confidence is above the threshold or matching knows all characters of the name.  The
names of call signatures and of bold bullets have no others; a specification that does not keep its name is
mapped to nothing. -/
theorem keepsName_extract_iff {text : String} {weights : Weights} {names : List String} {policy : Policy}
    {i : Nat} {s : Specification} {evidence : Evidence} {name : String}
    (found : (extract text weights)[i]? = some s) (marked : s.evidence = some evidence)
    (rule : evidence ≠ .sectionMention) (named : s.function = some name) (present : name ∈ names) :
    ∃ r, (matchAll (extract text weights) names policy)[i]? = some r ∧
      (KeepsName policy name s r ↔
        policy.carryThreshold < min (weights.weight evidence) maxConfidence ∨
          ∀ c ∈ name.toList, isNameChar c = true) ∧
      (evidence ≠ .codeBlock → ∀ c ∈ name.toList, isNameChar c = true) ∧
      (¬ KeepsName policy name s r → r = s.unmapped) := by
  obtain ⟨evidence', made⟩ := isMade_of_mem_extract (List.mem_of_getElem? found)
  obtain rfl : evidence' = evidence := Option.some.inj (made.evidence_eq.symm.trans marked)
  obtain ⟨keeps_iff, loses⟩ := keepsName_matchOne_iff made rule named present policy
  refine ⟨matchOne names policy s, by simp [matchAll, found], ?_, ?_, loses⟩
  · rw [keeps_iff, List.all_eq_true]
  · intro notCode
    exact made.isNameChar_of_mem named notCode

/-- The name of a bullet is read back where its confidence does not exceed the threshold. -/
theorem keepsName_load :
    (extract "- **load**: Reads.\n" { boldBullet := 80 })[0]?
        = some ⟨"load: Reads.", some "load", some 80, some .boldBullet⟩ ∧
      ∃ r, (matchAll (extract "- **load**: Reads.\n" { boldBullet := 80 }) ["Load", "load"] {})[0]? = some r ∧
        (KeepsName {} "load" ⟨"load: Reads.", some "load", some 80, some .boldBullet⟩ r ↔
          80 < min 80 maxConfidence ∨ ∀ c ∈ "load".toList, isNameChar c = true) ∧
        (Evidence.boldBullet ≠ .codeBlock → ∀ c ∈ "load".toList, isNameChar c = true) ∧
        (¬ KeepsName {} "load" ⟨"load: Reads.", some "load", some 80, some .boldBullet⟩ r →
          r = ⟨"load: Reads.", none, none, some .boldBullet⟩) := by
  have found : (extract "- **load**: Reads.\n" { boldBullet := 80 })[0]?
      = some ⟨"load: Reads.", some "load", some 80, some .boldBullet⟩ := by decide +kernel
  exact ⟨found, keepsName_extract_iff found rfl (by decide) rfl (by decide)⟩

/-- With the usual weights and policy, a function with an accent in its name is not found by the name that
script code gives it. -/
theorem not_keepsName_accented :
    ∃ s r, (extract "```js\nfunction café() \x7b\n\x7d\n```\n" {})[0]? = some s ∧
      s.evidence = some .codeBlock ∧ s.function = some "café" ∧ "café" ∈ ["café"] ∧
      (matchAll (extract "```js\nfunction café() \x7b\n\x7d\n```\n" {}) ["café"] {})[0]? = some r ∧
      ¬ KeepsName {} "café" s r := by
  refine ⟨⟨"café(): Extracted from code block", some "café", some 80, some .codeBlock⟩,
    ⟨"café(): Extracted from code block", none, none, some .codeBlock⟩, ?_, rfl, rfl, by decide, ?_, ?_⟩
  · decide +kernel
  · decide +kernel
  · exact fun h => nomatch h.1

end SpecCoverage.Specifications
