import SpecCoverage.Proofs.Documents.LineEnding
import SpecCoverage.Proofs.Specifications.Definitions
import SpecCoverage.Proofs.Specifications.Marks

/-!
# Extraction under other line endings

A document has the same specifications with returns in front of its line feeds.  Each rule finds with returns what it
finds in the text, at the place that corresponds (`Found.Corresponds`), and such places stand in the same order:

* call signatures, bold bullets and definitions are read by patterns that see no difference, apart from the parameters
  of a definition, whose line ends are not kept in the description (`codeDefinition_withReturns`);
* descriptions are made of the words of blocks, which are the same (`describedMatches_withReturns`);
* mentions are read from trimmed lines, which are the same (`sectionMentions_withReturns`).
-/

namespace SpecCoverage.Specifications

open Documents Sorting Text

/-- What is found in a text, without and with returns. -/
structure Found.Corresponds (text : List Char) (f f' : Found) : Prop where
  specification_eq : f'.specification = f.specification
  place : AtSamePlace text f.position f'.position

/-! ## Patterns -/

private theorem run_isNameChar_withReturns : IsBlindTo id (run? isNameChar) := run?_withReturns rfl rfl

private theorem callSignature_withReturns : IsBlindTo id callSignature :=
  .behind (by decide) (by decide) <| .bind run_isNameChar_withReturns fun _ => .behind (by decide) (by decide) <|
    .upTo (by decide) (by decide) (by decide) (by decide) fun _ => isBlindTo_optionally (by decide) (by decide) _

private theorem boldBullet_withReturns : IsBlindTo id boldBullet := by
  have closed (name : List Char) : IsBlindTo id fun cs =>
      (behind? "**".toList cs).bind fun rest => some (name, optionally [':'] rest) :=
    .behind (by decide) (by decide) <| isBlindTo_optionally (by decide) (by decide) _
  have named := IsBlindTo.bind run_isNameChar_withReturns closed
  exact @IsBlindTo.dropWhile _ _ _ rfl (fun cs => (behind? ['-'] cs).bind _) <| .behind (by decide) (by decide) <|
    @IsBlindTo.dropWhile _ _ _ rfl (fun cs => (behind? "**".toList cs).bind _) <| .behind (by decide) (by decide) named

/-- The signature of a definition in a text with returns. -/
def Signature.withReturns (s : Signature) : Signature := ⟨s.name, Text.withReturns s.parameters⟩

private theorem identifier_withReturns : IsBlindTo id identifier := by
  intro cs
  cases cs with
  | nil => rfl
  | cons c cs =>
    by_cases hc : c = '\n'
    · subst hc
      rfl
    · have read := run?_withReturns (p := continuesIdentifier) (by decide +kernel) (by decide +kernel) (c :: cs)
      rw [withReturns_cons hc] at read ⊢
      rw [identifier, identifier, read]
      split <;> rfl

private theorem definedSignature_withReturns : IsBlindTo Signature.withReturns definedSignature := by
  intro cs
  simp only [definedSignature, bind]
  rw [identifier_withReturns]
  cases identifier cs with
  | none => rfl
  | some read =>
    simp only [Option.map_some, Option.bind_some, id]
    rw [trimStart_withReturns, behind?_withReturns (by decide) (by decide)]
    cases behind? ['('] (trimStart read.2) with
    | none => rfl
    | some inner =>
      simp only [Option.map_some, Option.bind_some]
      rw [dropWhile_withReturns rfl, takeWhile_withReturns rfl, behind?_withReturns (by decide) (by decide)]
      cases behind? [')'] (inner.dropWhile (· ≠ ')')) with
      | none => rfl
      | some outer =>
        simp only [Option.map_some, Option.bind_some]
        rw [dropWhile_withReturns rfl, behind?_withReturns (by decide) (by decide)]
        cases behind? ['\x7b'] (outer.dropWhile _) <;> rfl

theorem codeDefinition_withReturns : IsBlindTo Signature.withReturns codeDefinition := by
  intro cs
  have keyword : behind? "function".toList (withReturns cs) = (behind? "function".toList cs).map withReturns :=
    behind?_withReturns (by decide) (by decide) cs
  have defined : (((behind? "function".toList cs).map withReturns).bind behindBlanks?).bind definedSignature
      = (((behind? "function".toList cs).bind behindBlanks?).bind definedSignature).map
          fun (s, rest) => (s.withReturns, withReturns rest) := by
    cases behind? "function".toList cs with
    | none => rfl
    | some rest =>
      rw [Option.map_some, Option.bind_some, Option.bind_some, behindBlanks?_withReturns]
      cases behindBlanks? rest with
      | none => rfl
      | some rest => exact definedSignature_withReturns rest
  rw [codeDefinition, codeDefinition, keyword, defined, definedSignature_withReturns cs, Option.map_or]

private theorem codeDescription_withReturns (s : Signature) : codeDescription s.withReturns = codeDescription s := by
  rw [codeDescription, Signature.withReturns, words_withReturns, codeDescription]

/-! ## Rules -/

theorem describedMatches_withReturns {α : Type} {text : List Char} {found found' : List (Match α)}
    (h : List.Forall₂ (Match.Corresponds text id) found found') {consumed consumed' : Nat}
    (start : AtSamePlace text consumed consumed') :
    List.Forall₂ (fun m m' => m.1.Corresponds text id m'.1 ∧ m'.2.words = m.2.words)
      (describedMatches text consumed found) (describedMatches (withReturns text) consumed' found') := by
  induction h generalizing consumed consumed' with
  | nil => exact .nil
  | @cons m m' rest rest' hm _ ih =>
    have within : m.start < consumed ↔ m'.start < consumed' := by
      have := start.le_iff_le hm.start
      omega
    rw [describedMatches, describedMatches]
    simp only [within]
    split
    · exact ih start
    · obtain ⟨words, stop⟩ := blockAt_withReturns hm.stop
      exact .cons ⟨hm, words⟩ (ih stop)

private theorem callSignatures_withReturns (text : List Char) (weights : Weights) :
    List.Forall₂ (Found.Corresponds text) (callSignatures text weights)
      (callSignatures (withReturns text) weights) := by
  have found := allMatches_withReturns takes_callSignature callSignature_withReturns (fun _ => rfl) text
  refine List.rel_map ?_ (describedMatches_withReturns found (.of_append (List.nil_append text).symm))
  rintro ⟨m, block⟩ ⟨m', block'⟩ ⟨hm, words⟩
  have value : m'.value = m.value := hm.value
  have words : block'.words = block.words := words
  refine ⟨?_, hm.start⟩
  simp only [value, words]

private theorem boldBulletMatches_withReturns (text : List Char) :
    List.Forall₂ (Match.Corresponds text id) (boldBulletMatches text) (boldBulletMatches (withReturns text)) := by
  refine List.rel_filterMap ?_ (positionedLines_withReturns text)
  rintro ⟨position, line⟩ ⟨position', line'⟩ ⟨-, rfl, front, back, split, rfl, rfl⟩
  simp only [boldBullet_withReturns line]
  cases read : boldBullet line with
  | none => exact .none
  | some found =>
    obtain ⟨name, rest⟩ := found
    obtain ⟨found, rfl⟩ := boldBullet_isLineBound.suffix read
    refine .some ⟨rfl, .of_append split, front ++ found, rest ++ back, by simp [split], ?_, ?_⟩
    · simp only [byteLength_append, Nat.add_sub_cancel]
    · simp only [withReturns_append, byteLength_append, Nat.add_sub_cancel]

private theorem boldBullets_withReturns (text : List Char) (weights : Weights) :
    List.Forall₂ (Found.Corresponds text) (boldBullets text weights) (boldBullets (withReturns text) weights) := by
  have found := boldBulletMatches_withReturns text
  refine List.rel_map ?_ (describedMatches_withReturns found (.of_append (List.nil_append text).symm))
  rintro ⟨m, block⟩ ⟨m', block'⟩ ⟨hm, words⟩
  have value : m'.value = m.value := hm.value
  have words : block'.words = block.words := words
  refine ⟨?_, hm.start⟩
  simp only [value, words]

private theorem definitionsIn_withReturns {text : List Char} {b b' : ScriptBlock} (h : b.Corresponds text b')
    (weights : Weights) :
    List.Forall₂ (Found.Corresponds text) (definitionsIn weights b) (definitionsIn weights b') := by
  obtain ⟨front, back, split, hstart, hstart'⟩ := h.place
  have found := allMatches_withReturns takes_codeDefinition codeDefinition_withReturns (fun _ => rfl) b.body
  unfold definitionsIn
  rw [h.body_eq]
  refine List.rel_map ?_ (List.rel_filter ?_ found)
  · intro m m' hm
    refine ⟨?_, ?_⟩
    · dsimp only
      rw [hm.value, codeDescription_withReturns, Signature.withReturns]
    · rw [hstart, hstart']
      exact hm.start.within split
  · intro m m' hm
    simp only [hm.value, Signature.withReturns]

private theorem codeBlocks_withReturns (text : List Char) (weights : Weights) :
    List.Forall₂ (Found.Corresponds text) (codeBlocks text weights) (codeBlocks (withReturns text) weights) :=
  List.rel_flatMap (scriptBlocks_withReturns text) fun _ _ h => definitionsIn_withReturns h weights

private theorem sectionMentionsFrom_withReturns {text : List Char} {ls ls' : List (Nat × List Char)}
    (h : List.Forall₂ (AtSameLine text) ls ls') (weights : Weights) (inSection : Bool) :
    List.Forall₂ (Found.Corresponds text) (sectionMentionsFrom weights inSection ls)
      (sectionMentionsFrom weights inSection ls') := by
  induction h generalizing inSection with
  | nil => exact .nil
  | @cons l l' rest rest' hl _ ih =>
    have trimmed : trim l'.2 = trim l.2 := by rw [hl.line_eq, trim_withReturns hl.mem]
    obtain ⟨position, line⟩ := l
    obtain ⟨position', line'⟩ := l'
    simp only [sectionMentionsFrom, trimmed]
    split
    · exact ih _
    · refine List.rel_append ?_ (ih _)
      split
      · cases itemMention? weights (trim line) with
        | none => exact .nil
        | some s => exact .cons ⟨rfl, hl.atSamePlace⟩ .nil
      · exact .nil

theorem sectionMentions_withReturns (text : List Char) (weights : Weights) :
    List.Forall₂ (Found.Corresponds text) (sectionMentions text weights)
      (sectionMentions (withReturns text) weights) :=
  sectionMentionsFrom_withReturns (positionedLines_withReturns text) weights false

/-! ## The whole -/

private theorem foundByRules_withReturns (text : List Char) (weights : Weights) :
    List.Forall₂ (Found.Corresponds text) (foundByRules text weights) (foundByRules (withReturns text) weights) := by
  have calls := callSignatures_withReturns text weights
  have bullets := boldBullets_withReturns text weights
  have code := codeBlocks_withReturns text weights
  have mentions := sectionMentions_withReturns text weights
  exact List.rel_append (List.rel_append (List.rel_append calls bullets) code) mentions

/-- A document in which lines end with a carriage return and a line feed has the same specifications as with line feeds
alone, in the same order. -/
theorem extract_withReturns (text : String) (weights : Weights) :
    extract (String.ofList (withReturns text.toList)) weights = extract text weights := by
  have same : ∀ f g f' g' : Found, f.Corresponds text.toList f' → g.Corresponds text.toList g' →
      decide (f.position ≤ g.position) = decide (f'.position ≤ g'.position) :=
    fun f g f' g' hf hg => decide_eq_decide.2 (hf.place.le_iff_le hg.place)
  have ordered := forall₂_sorted same (foundByRules_withReturns text.toList weights)
  unfold extract
  rw [String.toList_ofList]
  symm
  rw [← List.forall₂_eq_eq_eq]
  exact List.rel_map (fun f f' hf => hf.specification_eq.symm) ordered

end SpecCoverage.Specifications
