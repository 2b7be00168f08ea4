import SpecCoverage.Proofs.Specifications.Cuts

/-!
# The text of a block

A block begins at any boundary of the text.  It takes in the line there, goes on up to a line that begins something else,
and gives the trimmed lines that it takes in, without the blank ones and with single spaces between (`blockAt_isBlockOf`).

* (lines) The lines that a block takes in are those of the text that it takes in (`lines_flatten_blockLines`).
* (end) What stands behind the block begins a line of the whole text, too, as a line feed stands in front of it
  (`mem_positionedLines_of_isWhole`).
-/

namespace SpecCoverage.Documents

open Text Specifications

/-- A line into which no block goes on: it is blank, or begins a fence, an item, a heading or a numbered item behind its
blanks. -/
inductive BeginsAnew (line : List Char) : Prop
  | blank : (∀ c ∈ line, isBlank c = true) → BeginsAnew line
  | fenced : fence <+: trimStart line → BeginsAnew line
  | marked {c : Char} {rest : List Char} : trimStart line = c :: rest → c ∈ ['-', '*', '#'] ∨ c.isDigit = true →
      BeginsAnew line

private theorem isBlockBoundary_iff {line : List Char} : isBlockBoundary line = true ↔ BeginsAnew line := by
  rw [isBlockBoundary]
  split
  · next h => exact iff_of_true rfl (.blank (List.dropWhile_eq_nil_iff.1 h))
  · next c cs h =>
    simp only [Bool.or_eq_true, List.isPrefixOf_iff_prefix, decide_eq_true_eq]
    constructor
    · rintro ((((hfence | hc) | hc) | hc) | hc)
      · exact .fenced (h ▸ hfence)
      all_goals exact .marked h (by simp [hc])
    · rintro (blank | hfence | ⟨h', hc⟩)
      · rw [trimStart, List.dropWhile_eq_nil_iff.2 blank] at h
        cases h
      · exact .inl (.inl (.inl (.inl (h ▸ hfence))))
      · obtain ⟨rfl, rfl⟩ := List.cons_eq_cons.1 (h.symm.trans h')
        have marks : (c = '-' ∨ c = '*' ∨ c = '#') ∨ c.isDigit = true := by simpa using hc
        tauto

/-- A block goes on with lines that begin nothing else. -/
private theorem not_beginsAnew_of_mem_tail {cs line : List Char} (h : line ∈ (blockLines cs).tail) :
    ¬ BeginsAnew line := by
  rw [← isBlockBoundary_iff]
  unfold blockLines at h
  split at h
  · cases h
  · simpa using List.mem_takeWhile_imp h

private theorem flowed_eq_intercalate (ls : List (List Char)) :
    flowed ls = [' '].intercalate ((ls.map trim).filter (· ≠ [])) := by
  have visible : ∀ line : List Char, (!line.isEmpty) = decide (line ≠ []) := by
    rintro (_ | _) <;> simp
  simp only [flowed, joined, List.intercalate, visible]

/-- What a block from some position on takes in and gives. -/
structure IsBlockOf (text : List Char) (start : Nat) (b : Block) : Prop where
  isCut : IsCut text start b.stop
  takesIn : start < byteLength text → start < b.stop
  goesOn : ∃ taken, slice? text start b.stop = some taken ∧ (∀ line ∈ (lines taken).tail, ¬ BeginsAnew line) ∧
    b.words = [' '].intercalate (((lines taken).map trim).filter (· ≠ []))
  ends : b.stop = byteLength text ∨
    (∃ front, takeBytes? b.stop text = some front ∧ front.getLast? = some '\n') ∧
      ∃ line, (b.stop, line) ∈ positionedLines text ∧ BeginsAnew line
  oneLine : '\n' ∉ b.words

theorem blockAt_isBlockOf {text : List Char} {start : Nat} (h : IsBoundary text start) :
    IsBlockOf text start (blockAt text start) := by
  obtain ⟨front, cs, rfl, rfl⟩ := h
  obtain ⟨tail, split, ends⟩ := exists_append_blockLines cs
  have block_eq : blockAt (front ++ cs) (byteLength front)
      = ⟨flowed (blockLines cs), byteLength (front ++ (blockLines cs).flatten)⟩ := by
    rw [blockAt, dropBytes?_append, Option.getD_some, byteLength_append]
  have oneLine := lineFeed_not_mem_words_blockAt (front ++ cs) (byteLength front)
  rw [block_eq] at oneLine ⊢
  -- the text falls apart into what stands in front of the block, the block and what stands behind it
  have parts : front ++ cs = front ++ ((blockLines cs).flatten ++ tail) := congrArg (front ++ ·) split
  refine {
    isCut := ?isCut
    takesIn := ?takesIn
    goesOn := ⟨(blockLines cs).flatten, ?taken, ?others, ?words⟩
    ends := ?ends
    oneLine }
  case isCut =>
    rw [parts]
    exact isCut_append _ _ _
  case takesIn =>
    intro more
    have some : cs ≠ [] := by
      rintro rfl
      exact absurd more (by simp)
    have visible : 0 < byteLength (blockLines cs).flatten := byteLength_pos (flatten_blockLines_ne_nil some)
    rw [byteLength_append]
    exact Nat.lt_add_of_pos_right visible
  case taken =>
    rw [parts, byteLength_append]
    exact slice?_append _ _ _
  case others =>
    rw [lines_flatten_blockLines]
    exact fun _ => not_beginsAnew_of_mem_tail
  case words => rw [lines_flatten_blockLines, flowed_eq_intercalate]
  case ends =>
    rw [parts, ← List.append_assoc]
    rcases ends with rfl | ⟨feed, line, others, lines_eq, boundary⟩
    · exact .inl (by rw [List.append_nil])
    · have last : (front ++ (blockLines cs).flatten).getLast? = some '\n' := by
        rw [List.getLast?_append, feed, Option.some_or]
      exact .inr ⟨⟨_, takeBytes?_append _ _, last⟩, line, mem_positionedLines_of_isWhole (.inr last) lines_eq,
        isBlockBoundary_iff.1 boundary⟩

/-- A block from within a line on, with two kinds of line ends and blanks of several bytes. -/
theorem blockAt_isBlockOf_accented :
    IsBoundary "é one\r\n\u3000two \n- three".toList 2 ∧
      IsBlockOf "é one\r\n\u3000two \n- three".toList 2 ⟨"one two".toList, 16⟩ := by
  have boundary : IsBoundary "é one\r\n\u3000two \n- three".toList 2 :=
    ⟨['é'], " one\r\n\u3000two \n- three".toList, by decide +kernel, by decide⟩
  have block_eq : blockAt "é one\r\n\u3000two \n- three".toList 2 = ⟨"one two".toList, 16⟩ := by decide +kernel
  exact ⟨boundary, block_eq ▸ blockAt_isBlockOf boundary⟩

end SpecCoverage.Documents
