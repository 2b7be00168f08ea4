import SpecCoverage.Proofs.Sorting
import SpecCoverage.Proofs.Specifications.Extraction

/-!
# The rules apart

The specifications of a document that some evidence has made are those that its rule finds, in the order of the document
(`filter_extract`).  A rule that finds them in this order finds them as they stand among the specifications
(`filter_extract_of_pairwise`).
-/

namespace SpecCoverage.Specifications

open Sorting Text

/-- What the rule for a kind of evidence finds. -/
def foundBy : Evidence → List Char → Weights → List Found
  | .callSignature => callSignatures
  | .boldBullet => boldBullets
  | .codeBlock => codeBlocks
  | .sectionMention => sectionMentions

theorem evidence_of_mem_foundBy {evidence : Evidence} {text : List Char} {weights : Weights} {f : Found}
    (h : f ∈ foundBy evidence text weights) : f.specification.evidence = some evidence := by
  cases evidence with
  | callSignature => exact (isMade_of_mem_callSignatures h).evidence_eq
  | boldBullet => exact (isMade_of_mem_boldBullets h).evidence_eq
  | codeBlock => exact (isMade_of_mem_codeBlocks h).evidence_eq
  | sectionMention => exact (isMade_of_mem_sectionMentionsFrom h).evidence_eq

private theorem filter_foundBy (evidence other : Evidence) (text : List Char) (weights : Weights) :
    ((foundBy other text weights).filter fun f => f.specification.evidence = some evidence)
      = if other = evidence then foundBy other text weights else [] := by
  split
  · next same =>
    subst same
    exact List.filter_eq_self.2 fun f hf => decide_eq_true (evidence_of_mem_foundBy hf)
  · next differs =>
    refine List.filter_eq_nil_iff.2 fun f hf => ?_
    rw [evidence_of_mem_foundBy hf]
    simpa using differs

private theorem foundByRules_eq (text : List Char) (weights : Weights) :
    foundByRules text weights = Evidence.all.flatMap fun evidence => foundBy evidence text weights := by
  simp [foundByRules, Evidence.all, foundBy]

theorem mem_extract_iff {text : String} {weights : Weights} {s : Specification} :
    s ∈ extract text weights ↔ ∃ evidence, ∃ f ∈ foundBy evidence text.toList weights, f.specification = s := by
  have all : ∀ evidence : Evidence, evidence ∈ Evidence.all := by rintro (_ | _ | _ | _) <;> simp [Evidence.all]
  simp only [extract, List.mem_map, (sorted_perm _ _).mem_iff, foundByRules_eq, List.mem_flatMap, all, true_and]
  constructor
  · rintro ⟨f, ⟨evidence, hf⟩, made⟩
    exact ⟨evidence, f, hf, made⟩
  · rintro ⟨evidence, f, hf, made⟩
    exact ⟨f, ⟨evidence, hf⟩, made⟩

private theorem filter_foundByRules (evidence : Evidence) (text : List Char) (weights : Weights) :
    ((foundByRules text weights).filter fun f => f.specification.evidence = some evidence)
      = foundBy evidence text weights := by
  rw [foundByRules_eq, List.filter_flatMap]
  simp only [filter_foundBy]
  cases evidence <;> simp [Evidence.all]

/-- The specifications made by some evidence are those that its rule finds, in the order of the document. -/
theorem filter_extract (evidence : Evidence) (text : String) (weights : Weights) :
    ((extract text weights).filter fun s => s.evidence = some evidence)
      = (sorted (fun f g => f.position ≤ g.position) (foundBy evidence text.toList weights)).map
          Found.specification := by
  have total : ∀ f g : Found, decide (f.position ≤ g.position) = true ∨ decide (g.position ≤ f.position) = true := by
    intro f g
    simpa using Nat.le_total f.position g.position
  have trans : ∀ f g h : Found, decide (f.position ≤ g.position) = true →
      decide (g.position ≤ h.position) = true → decide (f.position ≤ h.position) = true := by
    intro f g h
    simpa using Nat.le_trans
  have part := filter_sorted total trans (fun f => f.specification.evidence = some evidence)
    (foundByRules text.toList weights)
  rw [filter_foundByRules] at part
  rw [← part, extract, List.filter_map]
  rfl

theorem filter_extract_of_pairwise {evidence : Evidence} {text : String} {weights : Weights}
    (ordered : (foundBy evidence text.toList weights).Pairwise fun f g => f.position < g.position) :
    ((extract text weights).filter fun s => s.evidence = some evidence)
      = (foundBy evidence text.toList weights).map Found.specification := by
  rw [filter_extract, sorted_eq_self (ordered.imp fun lt => by simpa using Nat.le_of_lt lt)]

end SpecCoverage.Specifications
