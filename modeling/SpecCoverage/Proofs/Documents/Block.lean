import SpecCoverage.Documents.Block
import SpecCoverage.Proofs.Text.LineBound

/-!
# Where blocks end

A block takes in the first lines from its start on (`blockLines_prefix_lines`).  It ends within its text
(`stop_blockAt_le`), at the end of the text or in front of a boundary (`exists_append_blockLines`).  It does not reach into
what follows whole lines if that begins with a boundary (`blockAt_append`), and it depends only on the text from its start
on (`blockAt_add`).
-/

namespace SpecCoverage.Documents

open Text

/-- The block in a text that has `offset` more bytes in front. -/
def Block.shift (offset : Nat) (b : Block) : Block := ⟨b.words, offset + b.stop⟩

/-- Whether a text begins with a line that no block reaches into. -/
def BeginsWithBoundary (cs : List Char) : Prop := ∃ line rest, lines cs = line :: rest ∧ isBlockBoundary line = true

theorem beginsWithBoundary_of_lines {line rest : List Char} (h : lines (line ++ rest) = line :: lines rest)
    (boundary : isBlockBoundary line = true) : BeginsWithBoundary (line ++ rest) := ⟨line, lines rest, h, boundary⟩

theorem blockLines_prefix_lines (cs : List Char) : blockLines cs <+: lines cs := by
  unfold blockLines
  cases lines cs with
  | nil => exact List.prefix_rfl
  | cons first rest => exact (List.prefix_cons_inj first).2 (List.takeWhile_prefix _)

theorem mem_lines_of_mem_blockLines {line text : List Char} (h : line ∈ blockLines text) : line ∈ lines text :=
  (blockLines_prefix_lines text).subset h

/-- The lines of a block are those of the text that it takes in. -/
theorem lines_flatten_blockLines (cs : List Char) : lines (blockLines cs).flatten = blockLines cs :=
  lines_flatten_of_prefix (blockLines_prefix_lines cs)

theorem flatten_blockLines_ne_nil {cs : List Char} (hne : cs ≠ []) : (blockLines cs).flatten ≠ [] := by
  intro none
  have same := lines_flatten_blockLines cs
  rw [none] at same
  unfold blockLines at same
  split at same
  · next h => exact hne (eq_nil_of_lines_eq_nil h)
  · cases same

/-- A block ends with its text, or it ends with a line feed and a boundary stands behind it. -/
theorem exists_append_blockLines (cs : List Char) :
    ∃ tail, cs = (blockLines cs).flatten ++ tail ∧
      (tail = [] ∨ (blockLines cs).flatten.getLast? = some '\n' ∧ BeginsWithBoundary tail) := by
  unfold blockLines
  cases h : lines cs with
  | nil => exact ⟨[], eq_nil_of_lines_eq_nil h, .inl rfl⟩
  | cons first rest =>
    have joined := flatten_lines cs
    have split := @List.takeWhile_append_dropWhile _ (fun line => !isBlockBoundary line) rest
    have stops := List.head?_dropWhile_not (fun line => !isBlockBoundary line) rest
    rw [← split, ← List.cons_append] at h
    rw [h, List.flatten_append] at joined
    refine ⟨_, joined.symm, ?_⟩
    cases behind : rest.dropWhile (fun line => !isBlockBoundary line) with
    | nil => exact .inl rfl
    | cons line others =>
      rw [behind] at h stops
      obtain ⟨whole, -, lines_eq⟩ := lines_eq_append h
      have visible : first ≠ [] := line_ne_nil (h ▸ List.mem_append_left _ List.mem_cons_self)
      exact .inr ⟨whole.resolve_left (by simp [visible]), line, others, lines_eq, by simpa using stops⟩

private theorem blockLines_append {a b : List Char} (whole : IsWhole a) (hne : a ≠ [])
    (boundary : BeginsWithBoundary b) :
    blockLines (a ++ b) = blockLines a := by
  obtain ⟨line, others, hb, hline⟩ := boundary
  unfold blockLines
  rw [lines_append whole, hb]
  cases h : lines a with
  | nil => exact absurd (eq_nil_of_lines_eq_nil h) hne
  | cons first rest =>
    have stops : (line :: others).takeWhile (fun line => !isBlockBoundary line) = [] :=
      List.takeWhile_cons_of_neg (by simp [hline])
    simp only [List.cons_append, List.takeWhile_append, stops, List.append_nil]
    split
    · next all => rw [(List.takeWhile_prefix _).eq_of_length all]
    · rfl

/-- A block ends with its text or behind a line feed. -/
theorem exists_of_stop_blockAt (front rest : List Char) :
    ∃ a b, front ++ rest = a ++ b ∧ (blockAt (front ++ rest) (byteLength front)).stop = byteLength a ∧
      (b = [] ∨ IsWhole a) := by
  obtain ⟨tail, h, ends⟩ := exists_append_blockLines rest
  refine ⟨front ++ (blockLines rest).flatten, tail, by rw [List.append_assoc, ← h], ?_, ?_⟩
  · simp only [blockAt, dropBytes?_append, Option.getD_some, byteLength_append]
  · exact ends.imp id fun ⟨feed, _⟩ => .inr (by rw [List.getLast?_append, feed, Option.some_or])

theorem stop_blockAt_le {front rest : List Char} : (blockAt (front ++ rest) (byteLength front)).stop
    ≤ byteLength (front ++ rest) := by
  obtain ⟨a, b, h, hstop, -⟩ := exists_of_stop_blockAt front rest
  rw [hstop, h, byteLength_append]
  exact Nat.le_add_right _ _

theorem blockAt_append {front rest b : List Char} (whole : IsWhole (front ++ rest)) (hne : rest ≠ [])
    (boundary : BeginsWithBoundary b) :
    blockAt (front ++ rest ++ b) (byteLength front) = blockAt (front ++ rest) (byteLength front) := by
  simp only [blockAt, List.append_assoc, dropBytes?_append, Option.getD_some]
  rw [blockLines_append whole.of_append hne boundary]

/-- A block of whole lines ends with them, if a boundary stands behind. -/
theorem stop_blockAt_le_of_boundary {α : Type} {a b : List Char} (whole : IsWhole a) (boundary : BeginsWithBoundary b)
    {m : Match α} (inLine : m.StopsInLine a) : (blockAt (a ++ b) m.stop).stop ≤ byteLength a := by
  obtain ⟨front, rest, rfl, feed, hstop⟩ := inLine
  rw [hstop, blockAt_append whole (List.ne_nil_of_mem feed) boundary]
  exact stop_blockAt_le

theorem blockAt_add (a b : List Char) (start : Nat) :
    blockAt (a ++ b) (byteLength a + start) = (blockAt b start).shift (byteLength a) := by
  simp only [blockAt, dropBytes?_add, Block.shift, Nat.add_assoc]

end SpecCoverage.Documents
