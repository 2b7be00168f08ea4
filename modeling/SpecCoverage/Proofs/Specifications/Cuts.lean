import SpecCoverage.Proofs.Specifications.Descriptions

/-!
# Where extraction cuts the text

Byte positions come from the matches of patterns and from adding up the bytes of lines.  Wherever the text is cut at them,
they stand in order, within the text, and on boundaries of it (`IsCut`):

* (marks) the text behind a mark, and its block (`isCutOut_callSignature`, `isCutOut_boldBullet`);
* (script code) what stands between the line of an opening fence and that of the closing one, which is the body of the
  script block (`forall₂_scriptCuts`), and the definitions in it (`isCut_definition`);
* (items) the text behind the mark of an item (`slice?_item`).

So nothing is cut where it cannot be, and the specifications are proper ones (`extract_isSafe`).
-/

namespace SpecCoverage.Text

/-- Two positions between which a text can be cut. -/
structure IsCut (text : List Char) (start stop : Nat) : Prop where
  inOrder : start ≤ stop
  inRange : stop ≤ byteLength text
  start_isBoundary : IsBoundary text start
  stop_isBoundary : IsBoundary text stop

theorem isCut_append (a b c : List Char) : IsCut (a ++ (b ++ c)) (byteLength a) (byteLength (a ++ b)) where
  inOrder := by
    rw [byteLength_append]
    exact Nat.le_add_right _ _
  inRange := by
    rw [← List.append_assoc, byteLength_append (a ++ b)]
    exact Nat.le_add_right _ _
  start_isBoundary := ⟨a, b ++ c, rfl, rfl⟩
  stop_isBoundary := ⟨a ++ b, c, (List.append_assoc a b c).symm, rfl⟩

end SpecCoverage.Text

namespace SpecCoverage.Specifications

open Documents Text

/-! ## Marks -/

/-- A match can be cut out of the text, and so can the text behind it and the block at the start of that. -/
structure IsCutOut {α : Type} (text : List Char) (m : Match α) : Prop where
  mark : IsCut text m.start m.stop
  behind : IsCut text m.stop (byteLength text)
  block : IsCut text m.stop (blockAt text m.stop).stop

private theorem isCutOut_of_split {α : Type} {front found rest : List Char} {m : Match α}
    (start : m.start = byteLength front)
    (stop : m.stop = byteLength (front ++ found)) : IsCutOut (front ++ (found ++ rest)) m := by
  obtain ⟨tail, split, -⟩ := exists_append_blockLines rest
  have ends : (blockAt (front ++ (found ++ rest)) m.stop).stop
      = byteLength (front ++ found ++ (blockLines rest).flatten) := by
    rw [stop, ← List.append_assoc, blockAt, dropBytes?_append, Option.getD_some, byteLength_append (front ++ found)]
  refine ⟨?_, ?_, ?_⟩
  · rw [start, stop]
    exact isCut_append front found rest
  · have cut := isCut_append (front ++ found) rest []
    rwa [List.append_nil, List.append_assoc, ← stop] at cut
  · have cut := isCut_append (front ++ found) (blockLines rest).flatten tail
    rwa [← split, List.append_assoc front found rest, ← stop, ← ends] at cut

section

variable {text : List Char}

theorem isCutOut_callSignature {m : Match Signature} (h : m ∈ allMatches callSignature text) : IsCutOut text m := by
  obtain ⟨front, found, rest, rfl, -, -, -, start, stop⟩ :=
    (isAt_of_mem_allMatches takes_callSignature h).exists_split
  rw [Nat.zero_add] at start
  exact isCutOut_of_split start (by rw [stop, start, byteLength_append])

theorem isCutOut_boldBullet {m : Match (List Char)} (h : m ∈ boldBulletMatches text) : IsCutOut text m := by
  obtain ⟨line, rest, here, read, stop⟩ := exists_line_of_mem_boldBulletMatches h
  obtain ⟨-, front, back, rfl, start⟩ := exists_of_mem_positionedLines here
  obtain ⟨found, rfl⟩ := boldBullet_isLineBound.suffix read
  have split : front ++ (found ++ rest) ++ back = front ++ (found ++ (rest ++ back)) := by simp
  rw [split]
  refine isCutOut_of_split start ?_
  rw [stop, start, byteLength_append, byteLength_append, Nat.add_sub_cancel]

/-! ## Script code -/

/-- The positions between which script blocks are cut out of a text: the end of the line of an opening fence that allows
script code, and the start of the line of the closing one. -/
def scriptCutsFrom : Option (Bool × Nat) → List (Nat × List Char) → List (Nat × Nat)
  | _, [] => []
  | none, (position, line) :: rest =>
    match fenceInfo? line with
    | none => scriptCutsFrom none rest
    | some info => scriptCutsFrom (some (isScriptInfo info, position + byteLength line)) rest
  | some (isScript, start), (position, line) :: rest =>
    match fenceInfo? line with
    | none => scriptCutsFrom (some (isScript, start)) rest
    | some _ => (if isScript then [(start, position)] else []) ++ scriptCutsFrom none rest

def scriptCuts (text : List Char) : List (Nat × Nat) := scriptCutsFrom none (positionedLines text)

/-- A script block is what stands between two positions. -/
structure IsBlockAt (text : List Char) (cut : Nat × Nat) (block : ScriptBlock) : Prop where
  isCut : IsCut text cut.1 cut.2
  start_eq : block.start = cut.1
  slice?_eq : slice? text cut.1 cut.2 = some block.body

private theorem isBlockAt_append (outer inner back : List Char) :
    IsBlockAt (outer ++ (inner ++ back)) (byteLength outer, byteLength (outer ++ inner)) ⟨byteLength outer, inner⟩ where
  isCut := isCut_append outer inner back
  start_eq := rfl
  slice?_eq := by
    rw [byteLength_append]
    exact slice?_append outer inner back

/-- What closes a block is cut between the start of the block and the line of the fence. -/
private theorem forall₂_close {before rest : List (List Char)} {f : OpenFence} (last : f.IsLastOf before) :
    List.Forall₂ (IsBlockAt (before ++ rest).flatten)
      (if f.isScript then [(f.start, byteLength before.flatten)] else []) f.close := by
  obtain ⟨outer, rfl, start⟩ := last
  unfold OpenFence.close
  split
  · have isBlockAt := isBlockAt_append outer.flatten f.lines.reverse.flatten rest.flatten
    rw [← List.flatten_append, ← List.flatten_append, ← List.flatten_append, ← List.append_assoc, ← start] at isBlockAt
    exact .cons isBlockAt .nil
  · exact .nil

private theorem forall₂_scriptCutsFrom {before ls : List (List Char)} {opened : Option OpenFence}
    (last : ∀ f, opened = some f → f.IsLastOf before) :
    List.Forall₂ (IsBlockAt (before ++ ls).flatten)
      (scriptCutsFrom (opened.map fun f => (f.isScript, f.start)) (withPositions (byteLength before.flatten) ls))
      (scriptBlocksFrom opened (withPositions (byteLength before.flatten) ls)) := by
  induction ls generalizing before opened with
  | nil => cases opened <;> exact .nil
  | cons line rest ih =>
    -- the line joins those in front of the next one
    have joined : before ++ line :: rest = (before ++ [line]) ++ rest := by simp
    have place : byteLength before.flatten + byteLength line = byteLength (before ++ [line]).flatten := by
      simp [byteLength_append]
    rw [withPositions, place]
    cases opened with
    | none =>
      rw [Option.map_none, scriptCutsFrom, scriptBlocksFrom]
      cases fenceInfo? line with
      | none =>
        rw [joined]
        exact @ih _ none (by simp)
      | some info =>
        rw [joined, place]
        refine @ih _ (some ⟨isScriptInfo info, byteLength (before ++ [line]).flatten, []⟩) ?_
        rintro f ⟨⟩
        exact ⟨before ++ [line], by simp, rfl⟩
    | some f =>
      rw [Option.map_some, scriptCutsFrom, scriptBlocksFrom]
      cases fenceInfo? line with
      | none =>
        obtain ⟨outer, rfl, start⟩ := last f rfl
        rw [joined]
        refine @ih _ (some { f with lines := line :: f.lines }) ?_
        rintro g ⟨⟩
        exact ⟨outer, by simp, start⟩
      | some info =>
        refine List.rel_append (forall₂_close (last f rfl)) ?_
        rw [joined]
        exact @ih _ none (by simp)

theorem forall₂_scriptCuts (text : List Char) :
    List.Forall₂ (IsBlockAt text) (scriptCuts text) (scriptBlocks text) := by
  have cuts := @forall₂_scriptCutsFrom [] (lines text) none (by simp)
  rwa [List.nil_append, flatten_lines] at cuts

theorem isCut_definition {block : ScriptBlock} (h : block ∈ scriptBlocks text) {m : Match Signature}
    (hm : m ∈ allMatches codeDefinition block.body) : IsCut text (block.start + m.start) (block.start + m.stop) := by
  obtain ⟨front, back, rfl, -, hfront⟩ := exists_split_of_mem_scriptBlocks h
  obtain ⟨inner, found, rest, split, -, -, -, start, stop⟩ :=
    (isAt_of_mem_allMatches takes_codeDefinition hm).exists_split
  have cut := isCut_append (front ++ inner) found (rest ++ back)
  rw [Nat.zero_add] at start
  rw [split, hfront, stop, start]
  simpa [byteLength_append, Nat.add_assoc] using cut

/-! ## Items -/

/-- The text of an item behind its mark, which is one byte long. -/
theorem slice?_item {line cs : List Char} {mark : Char} (h : trim line = mark :: cs) (item : mark = '-' ∨ mark = '*') :
    slice? (trim line) 1 (byteLength (trim line)) = some cs := by
  have size : byteLength [mark] = 1 := by
    rcases item with rfl | rfl <;> rfl
  have cut := slice?_append [mark] cs []
  rwa [size, List.append_nil, List.singleton_append, ← size, ← byteLength_append, List.singleton_append, ← h, size] at cut

end

/-! ## All cuts -/

/-- Every place where the rules cut a text allows it. -/
structure IsSafe (text : List Char) : Prop where
  signatures : ∀ m ∈ allMatches callSignature text, IsCutOut text m
  bullets : ∀ m ∈ boldBulletMatches text, IsCutOut text m
  scripts : List.Forall₂ (IsBlockAt text) (scriptCuts text) (scriptBlocks text)
  definitions : ∀ block ∈ scriptBlocks text, ∀ m ∈ allMatches codeDefinition block.body,
    IsCut text (block.start + m.start) (block.start + m.stop)
  items : ∀ line ∈ lines text, ∀ mark cs, trim line = mark :: cs → mark = '-' ∨ mark = '*' →
    slice? (trim line) 1 (byteLength (trim line)) = some cs

/-- A specification with a clean description, mapped to a name in it, with the weight of the evidence up to the limit. -/
structure IsProper (weights : Weights) (evidence : Evidence) (s : Specification) : Prop where
  clean : IsClean s.description.toList
  mapped : ∃ name, s.function = some name ∧ name ≠ "" ∧ name.toList <:+: s.description.toList
  evidence_eq : s.evidence = some evidence
  confidence_eq : s.confidence = some (min 100 (weights.weight evidence))

private theorem IsDescribed.isProper {weights : Weights} {evidence : Evidence} {s : Specification}
    (h : IsDescribed weights evidence s) : IsProper weights evidence s := by
  obtain ⟨description, name, isDescription, rfl⟩ := h
  refine ⟨?_, ⟨String.ofList name, rfl, ?_, ?_⟩, rfl, ?_⟩
  · simpa [Specification.ofEvidence] using isDescription.clean
  · simpa using isDescription.name_ne_nil
  · simpa [Specification.ofEvidence] using isDescription.occurs
  · rw [Nat.min_comm]
    rfl

/-- Extraction is safe on any text: it cuts the text only where that is possible, and what each rule finds is a proper
specification. -/
theorem extract_isSafe (text : String) (weights : Weights) :
    IsSafe text.toList ∧ ∀ s ∈ extract text weights, ∃ evidence,
      (∃ f ∈ foundBy evidence text.toList weights, f.specification = s) ∧ IsProper weights evidence s := by
  constructor
  · exact {
      signatures := fun _ h => isCutOut_callSignature h
      bullets := fun _ h => isCutOut_boldBullet h
      scripts := forall₂_scriptCuts text.toList
      definitions := fun _ h _ hm => isCut_definition h hm
      items := fun _ _ _ _ h item => slice?_item h item }
  · intro s h
    obtain ⟨evidence, f, hf, rfl⟩ := mem_extract_iff.1 h
    exact ⟨evidence, ⟨f, hf, rfl⟩, (isDescribed_of_mem_foundBy hf).isProper⟩

/-- An item with characters of several bytes, in front of a fence that is never closed. -/
theorem extract_isSafe_accented :
    IsSafe "## Features\n-\u3000é: load(ä) liest \n```".toList ∧
      .ofEvidence "é: load(ä) liest" "load" .sectionMention {}
        ∈ extract "## Features\n-\u3000é: load(ä) liest \n```" {} ∧
      ∃ evidence, (∃ f ∈ foundBy evidence "## Features\n-\u3000é: load(ä) liest \n```".toList {},
          f.specification = .ofEvidence "é: load(ä) liest" "load" .sectionMention {}) ∧
        IsProper {} evidence (.ofEvidence "é: load(ä) liest" "load" .sectionMention {}) := by
  have found : .ofEvidence "é: load(ä) liest" "load" .sectionMention {}
      ∈ extract "## Features\n-\u3000é: load(ä) liest \n```" {} := by decide +kernel
  exact ⟨(extract_isSafe _ {}).1, found, (extract_isSafe _ {}).2 _ found⟩

end SpecCoverage.Specifications
