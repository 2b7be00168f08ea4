import SpecCoverage.Proofs.Documents.Fence
import SpecCoverage.Proofs.Documents.Block
import SpecCoverage.Proofs.Text.LineEnding

/-!
# Blocks and fences under other line endings

A block has the same words with returns, and it ends at the same place (`blockAt_withReturns`).  A fence line is one
with returns too, so that the script blocks are the same up to the returns in their bodies
(`scriptBlocks_withReturns`).
-/

namespace SpecCoverage.Documents

open Text

/-! ## Blocks -/

private theorem isBlockBoundary_withReturns (line : List Char) :
    isBlockBoundary (withReturns line) = isBlockBoundary line := by
  unfold isBlockBoundary
  rw [trimStart_withReturns]
  cases h : trimStart line with
  | nil => rfl
  | cons c cs =>
    have visible : ¬ isBlank c = true := by
      have first := List.head?_dropWhile_not isBlank line
      rw [show line.dropWhile isBlank = c :: cs from h] at first
      simpa using first
    have hc : c ≠ '\n' := by
      rintro rfl
      exact visible rfl
    have marked : fence.isPrefixOf (c :: withReturns cs) = fence.isPrefixOf (c :: cs) := by
      rw [← withReturns_cons hc]
      exact isPrefixOf_withReturns (by decide) (by decide) _
    rw [withReturns_cons hc]
    simp only [marked]

private theorem blockLines_withReturns (text : List Char) :
    blockLines (withReturns text) = (blockLines text).map withReturns := by
  unfold blockLines
  rw [lines_withReturns]
  cases lines text with
  | nil => rfl
  | cons first rest =>
    have same : (fun line => !isBlockBoundary line) ∘ withReturns = fun line => !isBlockBoundary line := by
      funext line
      simp [isBlockBoundary_withReturns]
    simp only [List.map_cons, List.takeWhile_map, same]

private theorem flowed_withReturns {ls : List (List Char)} {text : List Char} (h : ∀ line ∈ ls, line ∈ lines text) :
    flowed (ls.map withReturns) = flowed ls := by
  have trimmed : (ls.map withReturns).map trim = ls.map trim := by
    rw [List.map_map]
    exact List.map_congr_left fun line hline => trim_withReturns (h line hline)
  rw [flowed, trimmed, flowed]

theorem blockAt_withReturns {text : List Char} {n n' : Nat} (h : AtSamePlace text n n') :
    (blockAt (withReturns text) n').words = (blockAt text n).words ∧
      AtSamePlace text (blockAt text n).stop (blockAt (withReturns text) n').stop := by
  obtain ⟨front, back, rfl, rfl, rfl⟩ := h
  obtain ⟨others, split, -⟩ := exists_append_blockLines back
  simp only [blockAt, withReturns_append, dropBytes?_append, Option.getD_some, blockLines_withReturns]
  refine ⟨flowed_withReturns fun line => mem_lines_of_mem_blockLines, ?_⟩
  refine ⟨front ++ (blockLines back).flatten, others, by rw [List.append_assoc, ← split], ?_, ?_⟩
  · rw [byteLength_append]
  · rw [withReturns_append, byteLength_append, withReturns_flatten]

/-! ## Fences -/

private theorem fenceInfo?_withReturns {line text : List Char} (h : line ∈ lines text) :
    fenceInfo? (withReturns line) = fenceInfo? line := by
  rw [fenceInfo?, trim_withReturns h, fenceInfo?]

/-- The same part of a text, without and with returns. -/
structure ScriptBlock.Corresponds (text : List Char) (b b' : ScriptBlock) : Prop where
  body_eq : b'.body = withReturns b.body
  place : ∃ front back, text = front ++ (b.body ++ back) ∧ b.start = byteLength front ∧
    b'.start = byteLength (withReturns front)

/-- Open fences whose lines reach up to the same place, without and with returns. -/
structure OpenFence.Corresponds (text : List Char) (f f' : OpenFence) : Prop where
  isScript_eq : f'.isScript = f.isScript
  lines_eq : f'.lines = f.lines.map withReturns
  place : ∃ front, text = front ++ f.lines.reverse.flatten ∧ f.start = byteLength front ∧
    f'.start = byteLength (withReturns front)

theorem OpenFence.Corresponds.close {text : List Char} {f f' : OpenFence} (h : f.Corresponds text f')
    (back : List Char) : List.Forall₂ (ScriptBlock.Corresponds (text ++ back)) f.close f'.close := by
  obtain ⟨front, rfl, hstart, hstart'⟩ := h.place
  unfold OpenFence.close
  rw [h.isScript_eq]
  split
  · refine .cons ⟨?_, front, back, by simp, hstart, hstart'⟩ .nil
    rw [h.lines_eq, ← List.map_reverse, withReturns_flatten]
  · exact .nil

theorem OpenFence.Corresponds.add {text : List Char} {f f' : OpenFence} (h : f.Corresponds text f')
    (line : List Char) :
    OpenFence.Corresponds (text ++ line) { f with lines := line :: f.lines }
      { f' with lines := withReturns line :: f'.lines } := by
  obtain ⟨front, rfl, hstart, hstart'⟩ := h.place
  refine ⟨h.isScript_eq, by simp [h.lines_eq], front, by simp, hstart, hstart'⟩

private theorem scriptBlocksFrom_withReturns {text : List Char} {ls : List (List Char)} {front : List Char}
    (split : text = front ++ ls.flatten) (known : ∀ line ∈ ls, fenceInfo? (withReturns line) = fenceInfo? line)
    {opened opened' : Option OpenFence} (h : Option.Rel (OpenFence.Corresponds front) opened opened') :
    List.Forall₂ (ScriptBlock.Corresponds text) (scriptBlocksFrom opened (withPositions (byteLength front) ls))
      (scriptBlocksFrom opened' (withPositions (byteLength (withReturns front)) (ls.map withReturns))) := by
  induction ls generalizing front opened opened' with
  | nil => cases h <;> exact .nil
  | cons line rest ih =>
    have info_eq : fenceInfo? (withReturns line) = fenceInfo? line := known line List.mem_cons_self
    have next := @ih (front ++ line) (by simp [split]) fun other hother => known other (List.mem_cons_of_mem _ hother)
    rw [withReturns_append, byteLength_append, byteLength_append] at next
    cases h with
    | none =>
      simp only [List.map_cons, withPositions, scriptBlocksFrom, info_eq]
      cases fenceInfo? line with
      | none => exact next .none
      | some info =>
        refine next (.some ⟨rfl, rfl, front ++ line, by simp, ?_, ?_⟩)
        · rw [byteLength_append]
        · rw [withReturns_append, byteLength_append]
    | some open_ =>
      simp only [List.map_cons, withPositions, scriptBlocksFrom, info_eq]
      cases fenceInfo? line with
      | none => exact next (.some (open_.add line))
      | some info =>
        refine List.rel_append ?_ (next .none)
        rw [split]
        exact open_.close _

/-- The script blocks of a text with returns are those of the text, with returns. -/
theorem scriptBlocks_withReturns (text : List Char) :
    List.Forall₂ (ScriptBlock.Corresponds text) (scriptBlocks text) (scriptBlocks (withReturns text)) := by
  unfold scriptBlocks positionedLines
  rw [lines_withReturns]
  exact @scriptBlocksFrom_withReturns text (lines text) [] (flatten_lines text).symm
    (fun line h => fenceInfo?_withReturns h) none none .none

end SpecCoverage.Documents
