import SpecCoverage.Documents.Fence
import SpecCoverage.Proofs.Text.LineBound

/-!
# Fences in pairs

Fence lines begin and end blocks by turns.  Behind an even number of them no block is open, so that the script
blocks of whole lines and of what follows are found apart (`scriptBlocks_append`).  A script block stands in its
text behind whole lines (`exists_split_of_mem_scriptBlocks`), and what stands between two fence lines behind an even
number of others is one (`ScriptDocument.block_mem_scriptBlocks`).
-/

namespace SpecCoverage.Documents

open Text

/-- Whether a line begins or ends a fenced block. -/
def isFenceLine (line : List Char) : Bool := (fenceInfo? line).isSome

/-- A fence line is one that, trimmed, begins with a fence and holds no other. -/
theorem isFenceLine_iff {line : List Char} :
    isFenceLine line = true ↔ ∃ info, trim line = fence ++ info ∧ occursIn fence info = false := by
  simp only [isFenceLine, fenceInfo?, Option.isSome_iff_exists, Option.filter_eq_some_iff, behind?_eq_some_iff,
    Bool.not_eq_true']

/-- The number of fence lines in a text. -/
def fenceCount (cs : List Char) : Nat := (lines cs).countP isFenceLine

def ScriptBlock.shift (offset : Nat) (b : ScriptBlock) : ScriptBlock := ⟨offset + b.start, b.body⟩

def OpenFence.shift (offset : Nat) (f : OpenFence) : OpenFence := { f with start := offset + f.start }

private theorem scriptBlocksFrom_shift (offset : Nat) (opened : Option OpenFence) (ls : List (Nat × List Char)) :
    scriptBlocksFrom (opened.map (OpenFence.shift offset)) (ls.map fun (start, line) => (offset + start, line))
      = (scriptBlocksFrom opened ls).map (ScriptBlock.shift offset) := by
  induction ls generalizing opened with
  | nil => cases opened <;> rfl
  | cons first rest ih =>
    obtain ⟨position, line⟩ := first
    cases opened with
    | none =>
      simp only [Option.map_none, List.map_cons, scriptBlocksFrom]
      cases fenceInfo? line with
      | none => exact ih none
      | some info =>
        simp only [Nat.add_assoc]
        exact ih (some ⟨isScriptInfo info, position + byteLength line, []⟩)
    | some f =>
      simp only [Option.map_some, List.map_cons, scriptBlocksFrom]
      cases fenceInfo? line with
      | none => exact ih (some { f with lines := line :: f.lines })
      | some info =>
        have closed : (f.shift offset).close = f.close.map (ScriptBlock.shift offset) := by
          unfold OpenFence.close OpenFence.shift
          split <;> simp_all [ScriptBlock.shift]
        simp only [List.map_append, closed]
        exact congrArg _ (ih none)

/-- Behind an even number of fences no block is open, and behind an odd number one that was open is closed. -/
private theorem scriptBlocksFrom_append (a b : List (Nat × List Char)) :
    ((a.countP fun l => isFenceLine l.2) % 2 = 0 →
      scriptBlocksFrom none (a ++ b) = scriptBlocksFrom none a ++ scriptBlocksFrom none b) ∧
    ∀ f, (a.countP fun l => isFenceLine l.2) % 2 = 1 →
      scriptBlocksFrom (some f) (a ++ b) = scriptBlocksFrom (some f) a ++ scriptBlocksFrom none b := by
  induction a with
  | nil => simp [scriptBlocksFrom]
  | cons first rest ih =>
    obtain ⟨position, line⟩ := first
    obtain ⟨ihNone, ihSome⟩ := ih
    rw [List.countP_cons]
    cases h : fenceInfo? line with
    | none =>
      have notFence : isFenceLine line = false := by simp [isFenceLine, h]
      simp only [notFence, List.cons_append, scriptBlocksFrom, h]
      exact ⟨ihNone, fun f => ihSome _⟩
    | some info =>
      have isFence : isFenceLine line = true := by simp [isFenceLine, h]
      simp only [isFence, List.cons_append, scriptBlocksFrom, h, if_true]
      constructor
      · intro even
        exact ihSome _ (by omega)
      · intro f odd
        rw [List.append_assoc, ihNone (by omega)]

theorem countP_withPositions (p : List Char → Bool) (position : Nat) (ls : List (List Char)) :
    (withPositions position ls).countP (fun l => p l.2) = ls.countP p := by
  have counted := @List.countP_map _ _ p Prod.snd (withPositions position ls)
  rw [map_snd_withPositions] at counted
  exact counted.symm

theorem scriptBlocks_append {a : List Char} (whole : IsWhole a) (even : fenceCount a % 2 = 0) (b : List Char) :
    scriptBlocks (a ++ b) = scriptBlocks a ++ (scriptBlocks b).map (ScriptBlock.shift (byteLength a)) := by
  unfold scriptBlocks
  rw [positionedLines_append whole, (scriptBlocksFrom_append _ _).1]
  · exact congrArg _ (scriptBlocksFrom_shift (byteLength a) none _)
  · rw [positionedLines, countP_withPositions]
    exact even

/-! ## Extent -/

/-- The lines of an open fence are the last ones of those in front of the next line. -/
def OpenFence.IsLastOf (before : List (List Char)) (f : OpenFence) : Prop :=
  ∃ outer, before = outer ++ f.lines.reverse ∧ f.start = byteLength outer.flatten

private theorem exists_lines_of_mem_scriptBlocksFrom {before ls : List (List Char)} {opened : Option OpenFence}
    (last : ∀ f, opened = some f → f.IsLastOf before) {block : ScriptBlock}
    (h : block ∈ scriptBlocksFrom opened (withPositions (byteLength before.flatten) ls)) :
    ∃ front inner closing back, before ++ ls = front ++ (inner ++ closing :: back) ∧ block.body = inner.flatten ∧
      block.start = byteLength front.flatten := by
  induction ls generalizing before opened with
  | nil => cases opened <;> simp [withPositions, scriptBlocksFrom] at h
  | cons line rest ih =>
    -- the line joins those in front of the next one
    have joined : before ++ line :: rest = (before ++ [line]) ++ rest := by simp
    have place : byteLength before.flatten + byteLength line = byteLength (before ++ [line]).flatten := by
      simp [byteLength_append]
    rw [withPositions, place] at h
    rw [joined]
    cases opened with
    | none =>
      rw [scriptBlocksFrom] at h
      split at h
      · exact ih (by simp) h
      · next info _ =>
        refine ih ?_ h
        rintro f ⟨⟩
        exact ⟨before ++ [line], by simp, place⟩
    | some f =>
      obtain ⟨outer, rfl, start⟩ := last f rfl
      rw [scriptBlocksFrom] at h
      split at h
      · refine ih ?_ h
        rintro g ⟨⟩
        exact ⟨outer, by simp, start⟩
      · rcases List.mem_append.1 h with h | h
        · unfold OpenFence.close at h
          split at h
          · obtain rfl := List.mem_singleton.1 h
            exact ⟨outer, f.lines.reverse, line, rest, by simp, rfl, start⟩
          · cases h
        · exact ih (by simp) h

/-- A script block stands in its text, behind whole lines. -/
theorem exists_split_of_mem_scriptBlocks {cs : List Char} {block : ScriptBlock} (h : block ∈ scriptBlocks cs) :
    ∃ front back, cs = front ++ (block.body ++ back) ∧ IsWhole front ∧ block.start = byteLength front := by
  obtain ⟨front, inner, closing, back, lines_eq, body, start⟩ :=
    @exists_lines_of_mem_scriptBlocksFrom [] (lines cs) none (by simp) block h
  rw [List.nil_append] at lines_eq
  refine ⟨front.flatten, (closing :: back).flatten, ?_, ?_, start⟩
  · rw [body, ← flatten_lines cs, lines_eq, List.flatten_append, List.flatten_append]
  · obtain ⟨line, others, behind⟩ := List.exists_cons_of_ne_nil (List.append_ne_nil_of_right_ne_nil inner
      (List.cons_ne_nil closing back))
    rw [behind] at lines_eq
    exact (lines_eq_append lines_eq).1

theorem stop_le_of_mem_scriptBlocks {cs : List Char} {block : ScriptBlock} (h : block ∈ scriptBlocks cs) :
    block.start + byteLength block.body ≤ byteLength cs := by
  obtain ⟨front, back, rfl, -, start⟩ := exists_split_of_mem_scriptBlocks h
  rw [start, byteLength_append, byteLength_append, ← Nat.add_assoc]
  exact Nat.le_add_right _ _

/-! ## Blocks between two fences -/

/-- A document with a block of script code: behind an even number of fence lines stand a fence line that allows script
code, lines without a fence, and a fence line. -/
structure ScriptDocument where
  before : List Char
  opening : List Char
  info : List Char
  body : List Char
  closing : List Char
  after : List Char
  before_whole : IsWhole before
  before_even : fenceCount before % 2 = 0
  opening_whole : IsWhole opening
  lines_opening : lines opening = [opening]
  fenceInfo?_opening : fenceInfo? opening = some info
  isScriptInfo_info : isScriptInfo info = true
  body_whole : IsWhole body
  fenceCount_body : fenceCount body = 0
  lines_closing : lines (closing ++ after) = closing :: lines after
  isFenceLine_closing : isFenceLine closing = true

namespace ScriptDocument

def text (d : ScriptDocument) : List Char := d.before ++ (d.opening ++ (d.body ++ (d.closing ++ d.after)))

def block (d : ScriptDocument) : ScriptBlock := ⟨byteLength (d.before ++ d.opening), d.body⟩

end ScriptDocument

/-- Lines without a fence are put to the block that is open. -/
private theorem scriptBlocksFrom_withoutFences {ls : List (List Char)} (noFence : ∀ line ∈ ls, isFenceLine line = false)
    (f : OpenFence) (position : Nat) (rest : List (List Char)) :
    scriptBlocksFrom (some f) (withPositions position (ls ++ rest))
      = scriptBlocksFrom (some { f with lines := ls.reverse ++ f.lines })
          (withPositions (position + byteLength ls.flatten) rest) := by
  induction ls generalizing f position with
  | nil => simp [byteLength]
  | cons line others ih =>
    have none : fenceInfo? line = none := by simpa [isFenceLine] using noFence line List.mem_cons_self
    rw [List.cons_append, withPositions, scriptBlocksFrom, none]
    rw [ih fun other h => noFence other (List.mem_cons_of_mem _ h)]
    simp [byteLength_append, Nat.add_assoc]

/-- The block between the two fence lines is one of the script blocks. -/
theorem ScriptDocument.block_mem_scriptBlocks (d : ScriptDocument) : d.block ∈ scriptBlocks d.text := by
  have noFence : ∀ line ∈ lines d.body, isFenceLine line = false := by
    intro line h
    have none := List.countP_eq_zero.1 d.fenceCount_body line h
    simpa using none
  have closes : ∃ info, fenceInfo? d.closing = some info := Option.isSome_iff_exists.1 d.isFenceLine_closing
  obtain ⟨info, closes⟩ := closes
  have split : positionedLines (d.opening ++ (d.body ++ (d.closing ++ d.after)))
      = (0, d.opening) :: withPositions (byteLength d.opening) (lines d.body ++ d.closing :: lines d.after) := by
    rw [positionedLines, lines_append d.opening_whole, lines_append d.body_whole, d.lines_closing, d.lines_opening]
    simp [withPositions]
  -- the opening fence opens the block, the lines of the body are put to it, and the closing fence closes it
  have first : ⟨byteLength d.opening, d.body⟩ ∈ scriptBlocks (d.opening ++ (d.body ++ (d.closing ++ d.after))) := by
    rw [scriptBlocks, split, scriptBlocksFrom, d.fenceInfo?_opening]
    simp only
    rw [scriptBlocksFrom_withoutFences noFence, withPositions, scriptBlocksFrom, closes]
    refine List.mem_append_left _ ?_
    simp [OpenFence.close, d.isScriptInfo_info, flatten_lines]
  rw [text, scriptBlocks_append d.before_whole d.before_even]
  refine List.mem_append_right _ (List.mem_map.2 ⟨_, first, ?_⟩)
  rw [ScriptBlock.shift, block, byteLength_append]

end SpecCoverage.Documents
