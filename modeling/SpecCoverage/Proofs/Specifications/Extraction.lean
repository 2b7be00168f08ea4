import SpecCoverage.Proofs.Specifications.Forms
import SpecCoverage.Proofs.Sorting

/-!
# What extraction finds

Each rule makes its specifications from matches of its pattern.  The description of a call signature, a bold
bullet or a definition in script code begins with the name, in front of a parenthesis or a colon; trimming the
end of the description never reaches that far (`isMade_of_mem_extract`).
-/

namespace SpecCoverage.Specifications

open Documents Sorting Text

/-! ## Descriptions -/

/-- A description that begins with a name, in front of its first parenthesis or colon. -/
structure IsHeadedBy (description name : List Char) : Prop where
  ne_nil : name ≠ []
  unmarked : ∀ c ∈ name, c ≠ '(' ∧ c ≠ ':'
  splits : ∃ mark rest, (mark = '(' ∨ mark = ':') ∧ description = name ++ mark :: rest

private theorem isHeadedBy_append {p : Char → Bool} (hopen : p '(' = false) (hcolon : p ':' = false)
    {name : List Char} (hne : name ≠ []) (h : ∀ c ∈ name, p c = true) {mark : Char}
    (hmark : mark = '(' ∨ mark = ':') (rest : List Char) : IsHeadedBy (name ++ mark :: rest) name := by
  refine ⟨hne, ?_, mark, rest, hmark, rfl⟩
  intro c hc
  have hp := h c hc
  constructor
  · rintro rfl; rw [hopen] at hp; cases hp
  · rintro rfl; rw [hcolon] at hp; cases hp

private theorem isHeadedBy_describedSignature {s : Signature} (hne : s.name ≠ [])
    (h : ∀ c ∈ s.name, isNameChar c = true) (words : List Char) :
    IsHeadedBy (describedSignature s words) s.name := by
  have e : describedSignature s words = s.name ++ '(' :: trimEnd (s.parameters ++ "): ".toList ++ words) := by
    rw [← trimEnd_append_cons s.name (by decide)]
    simp [describedSignature]
  rw [e]
  exact isHeadedBy_append (by decide) (by decide) hne h (.inl rfl) _

private theorem isHeadedBy_describedName {name : List Char} (hne : name ≠ [])
    (h : ∀ c ∈ name, isNameChar c = true) (words : List Char) :
    IsHeadedBy (describedName name words) name := by
  have e : describedName name words = name ++ ':' :: trimEnd (' ' :: words) := by
    rw [← trimEnd_append_cons name (by decide)]
    simp [describedName]
  rw [e]
  exact isHeadedBy_append (by decide) (by decide) hne h (.inr rfl) _

private theorem isHeadedBy_codeDescription {s : Signature} (hne : s.name ≠ [])
    (h : ∀ c ∈ s.name, continuesIdentifier c = true) : IsHeadedBy (codeDescription s) s.name := by
  have e : codeDescription s = s.name ++ '(' :: (joined [' '] (words s.parameters)
      ++ "): Extracted from code block".toList) := by
    simp [codeDescription]
  rw [e]
  exact isHeadedBy_append (by decide) (by decide) hne h (.inl rfl) _

/-! ## The rules -/

/-- What a specification is that some evidence has made: mentions apart, the name heads the description, and
only a name from script code has other characters than those of names in documents. -/
def IsMade (weights : Weights) (evidence : Evidence) (s : Specification) : Prop :=
  ∃ description name : List Char,
    s = .ofEvidence (String.ofList description) (String.ofList name) evidence weights ∧
      (evidence ≠ .sectionMention → IsHeadedBy description name) ∧
      (evidence ≠ .codeBlock → ∀ c ∈ name, isNameChar c = true)

section

variable {weights : Weights} {evidence : Evidence} {s : Specification}

theorem IsMade.evidence_eq (made : IsMade weights evidence s) : s.evidence = some evidence := by
  obtain ⟨description, name, rfl, -⟩ := made
  rfl

theorem IsMade.confidence_eq (made : IsMade weights evidence s) :
    s.confidence = some (min (weights.weight evidence) maxConfidence) := by
  obtain ⟨description, name, rfl, -⟩ := made
  rfl

theorem IsMade.isNameChar_of_mem {name : String} (made : IsMade weights evidence s)
    (named : s.function = some name) (rule : evidence ≠ .codeBlock) :
    ∀ c ∈ name.toList, isNameChar c = true := by
  obtain ⟨description, letters, rfl, -, all⟩ := made
  obtain rfl : String.ofList letters = name := by simpa [Specification.ofEvidence] using named
  rw [String.toList_ofList]
  exact all rule

end

theorem mem_of_mem_describedMatches {α : Type} {text : List Char} {consumed : Nat} {found : List (Match α)}
    {m : Match α} {block : Block} (h : (m, block) ∈ describedMatches text consumed found) : m ∈ found := by
  induction found generalizing consumed with
  | nil => simp [describedMatches] at h
  | cons first rest ih =>
    unfold describedMatches at h
    split at h
    · exact List.mem_cons_of_mem _ (ih h)
    · rcases List.mem_cons.1 h with h | h
      · cases h; exact List.mem_cons_self
      · exact List.mem_cons_of_mem _ (ih h)

theorem isMade_of_mem_callSignatures {text : List Char} {weights : Weights} {f : Found}
    (h : f ∈ callSignatures text weights) : IsMade weights .callSignature f.specification := by
  obtain ⟨⟨m, block⟩, hm, rfl⟩ := List.mem_map.1 h
  obtain ⟨_, _, _, _, read⟩ := exists_of_mem_allMatches (mem_of_mem_describedMatches hm)
  obtain ⟨call, -⟩ := callSignature_eq_some read
  exact ⟨_, _, rfl, fun _ => isHeadedBy_describedSignature call.ne_nil call.named block.words, fun _ => call.named⟩

theorem isMade_of_mem_boldBullets {text : List Char} {weights : Weights} {f : Found}
    (h : f ∈ boldBullets text weights) : IsMade weights .boldBullet f.specification := by
  obtain ⟨⟨m, block⟩, hm, rfl⟩ := List.mem_map.1 h
  obtain ⟨⟨position, line⟩, _, hline⟩ := List.mem_filterMap.1 (mem_of_mem_describedMatches hm)
  obtain ⟨⟨name, rest⟩, read, rfl⟩ := Option.map_eq_some_iff.1 hline
  obtain ⟨bullet, -⟩ := isBullet_of_boldBullet read
  exact ⟨_, _, rfl, fun _ => isHeadedBy_describedName bullet.ne_nil bullet.named block.words, fun _ => bullet.named⟩

theorem isMade_of_mem_codeBlocks {text : List Char} {weights : Weights} {f : Found}
    (h : f ∈ codeBlocks text weights) : IsMade weights .codeBlock f.specification := by
  obtain ⟨block, _, hf⟩ := List.mem_flatMap.1 h
  obtain ⟨m, hm, rfl⟩ := List.mem_map.1 hf
  obtain ⟨_, _, _, _, read⟩ := exists_of_mem_allMatches (List.mem_filter.1 hm).1
  obtain ⟨_, definition, -⟩ := codeDefinition_eq_some read
  have named := definition.isIdentifier
  exact ⟨_, _, rfl, fun _ => isHeadedBy_codeDescription named.ne_nil named.continues, fun h => absurd rfl h⟩

private theorem isMade_of_itemMention? {weights : Weights} {trimmed : List Char} {s : Specification}
    (h : itemMention? weights trimmed = some s) : IsMade weights .sectionMention s := by
  unfold itemMention? at h
  split at h
  · split at h
    · obtain ⟨name, hname, rfl⟩ := Option.map_eq_some_iff.1 h
      obtain ⟨_, _, _, _, read, -⟩ := exists_of_firstMatch? hname
      exact ⟨_, _, rfl, fun h => absurd rfl h, fun _ => (mention_eq_some read).2.1⟩
    · cases h
  · cases h

theorem isMade_of_mem_sectionMentionsFrom {weights : Weights} {inSection : Bool}
    {lines : List (Nat × List Char)} {f : Found} (h : f ∈ sectionMentionsFrom weights inSection lines) :
    IsMade weights .sectionMention f.specification := by
  induction lines generalizing inSection with
  | nil => simp [sectionMentionsFrom] at h
  | cons first rest ih =>
    simp only [sectionMentionsFrom] at h
    split at h
    · exact ih h
    · rcases List.mem_append.1 h with h | h
      · split at h
        · obtain ⟨s, hs, rfl⟩ := Option.map_eq_some_iff.1 (Option.mem_toList.1 h)
          exact isMade_of_itemMention? hs
        · cases h
      · exact ih h

private theorem isMade_of_mem_foundByRules {text : List Char} {weights : Weights} {f : Found}
    (h : f ∈ foundByRules text weights) : ∃ evidence, IsMade weights evidence f.specification := by
  simp only [foundByRules, List.mem_append] at h
  rcases h with ((h | h) | h) | h
  · exact ⟨_, isMade_of_mem_callSignatures h⟩
  · exact ⟨_, isMade_of_mem_boldBullets h⟩
  · exact ⟨_, isMade_of_mem_codeBlocks h⟩
  · exact ⟨_, isMade_of_mem_sectionMentionsFrom h⟩

/-- Every specification of a document has been made by some evidence. -/
theorem isMade_of_mem_extract {text : String} {weights : Weights} {s : Specification}
    (h : s ∈ extract text weights) : ∃ evidence, IsMade weights evidence s := by
  obtain ⟨f, hf, rfl⟩ := List.mem_map.1 h
  exact isMade_of_mem_foundByRules ((sorted_perm _ _).mem_iff.1 hf)

end SpecCoverage.Specifications
