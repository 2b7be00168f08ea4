import SpecCoverage.Proofs.Text.Bytes
import SpecCoverage.Text.Line

/-!
# Texts of whole lines

A text that is empty or ends with a line feed consists of whole lines: what follows it begins a line of its
own, and so the lines of both together are those of the one and then those of the other (`lines_append`), the
second ones moved by the bytes of the first (`positionedLines_append`).  The other way round, what stands in front of
a line consists of whole lines (`positionedLines_eq_append`), and the lines of a text stand one behind the other
(`pairwise_positionedLines`).  Rows that are ended by a line feed each are the lines of the text they make exactly if no
row has a line feed in it (`lines_flatMap_ended_iff`).
-/

namespace SpecCoverage.Text

/-- Whether the last line of a text, if there is one, is complete. -/
def IsWhole (cs : List Char) : Prop := cs = [] ∨ cs.getLast? = some '\n'

theorem IsWhole.of_append {front cs : List Char} (whole : IsWhole (front ++ cs)) : IsWhole cs := by
  rcases whole with h | h
  · exact .inl (List.append_eq_nil_iff.1 h).2
  · rw [List.getLast?_append] at h
    cases hcs : cs.getLast? with
    | none => exact .inl (List.getLast?_eq_none_iff.1 hcs)
    | some c => rw [hcs] at h; exact .inr (hcs.trans h)

theorem IsWhole.tail {c : Char} {cs : List Char} (whole : IsWhole (c :: cs)) : IsWhole cs :=
  @of_append [c] cs whole

theorem IsWhole.mem_lineFeed {cs : List Char} (whole : IsWhole cs) (hne : cs ≠ []) : '\n' ∈ cs :=
  List.mem_of_getLast? (whole.resolve_left hne)

theorem IsWhole.append {a b : List Char} (ha : IsWhole a) (hb : IsWhole b) : IsWhole (a ++ b) := by
  rcases hb with rfl | hb
  · rwa [List.append_nil]
  · exact .inr (by rw [List.getLast?_append, hb, Option.some_or])

theorem eq_nil_of_lines_eq_nil {cs : List Char} (h : lines cs = []) : cs = [] := by
  have joined := flatten_lines cs
  rw [h] at joined
  exact joined.symm

theorem lines_append {a : List Char} (whole : IsWhole a) (b : List Char) :
    lines (a ++ b) = lines a ++ lines b := by
  induction a with
  | nil => rfl
  | cons c cs ih =>
    rw [List.cons_append, lines, lines, ih whole.tail]
    split
    · rfl
    · next hc =>
      have hne : cs ≠ [] := by
        rintro rfl
        exact hc (List.mem_singleton.1 (whole.mem_lineFeed (by simp))).symm
      cases hlines : lines cs with
      | nil => exact absurd (eq_nil_of_lines_eq_nil hlines) hne
      | cons line rest => rfl

theorem line_ne_nil {line cs : List Char} (h : line ∈ lines cs) : line ≠ [] := by
  induction cs generalizing line with
  | nil => simp [lines] at h
  | cons c cs ih =>
    rw [lines] at h
    split at h
    · rcases List.mem_cons.1 h with rfl | h
      · simp
      · exact ih h
    · split at h
      · obtain rfl := List.mem_singleton.1 h
        simp
      · next first rest hlines =>
        rcases List.mem_cons.1 h with rfl | h
        · simp
        · exact ih (by rw [hlines]; exact List.mem_cons_of_mem _ h)

/-- Every line of a text of whole lines has a line feed. -/
theorem IsWhole.mem_lineFeed_of_mem_lines {a line : List Char} (whole : IsWhole a) (h : line ∈ lines a) :
    '\n' ∈ line := by
  induction a generalizing line with
  | nil => simp [lines] at h
  | cons c cs ih =>
    rw [lines] at h
    split at h
    · next hc =>
      rcases List.mem_cons.1 h with rfl | h
      · exact List.mem_singleton.2 hc.symm
      · exact ih whole.tail h
    · next hc =>
      split at h
      · next hlines =>
        obtain rfl := List.mem_singleton.1 h
        obtain rfl := eq_nil_of_lines_eq_nil hlines
        exact whole.mem_lineFeed (by simp)
      · next first rest hlines =>
        rcases List.mem_cons.1 h with rfl | h
        · exact List.mem_cons_of_mem _ (ih whole.tail (by rw [hlines]; exact List.mem_cons_self))
        · exact ih whole.tail (by rw [hlines]; exact List.mem_cons_of_mem _ h)

/-- Behind the first line of a text stand the others, and if there are any the first one is complete. -/
private theorem lines_eq_cons {cs line : List Char} {rest : List (List Char)} (h : lines cs = line :: rest) :
    cs = line ++ rest.flatten ∧ lines rest.flatten = rest ∧ (rest ≠ [] → IsWhole line) := by
  have joined := flatten_lines cs
  rw [h, List.flatten_cons] at joined
  refine ⟨joined.symm, ?_⟩
  induction cs generalizing line with
  | nil => cases h
  | cons c cs ih =>
    rw [lines] at h
    split at h
    · next hc =>
      obtain ⟨rfl, rfl⟩ := List.cons_eq_cons.1 h
      exact ⟨by rw [flatten_lines], fun _ => .inr (by rw [hc]; rfl)⟩
    · split at h
      · obtain ⟨rfl, rfl⟩ := List.cons_eq_cons.1 h
        exact ⟨rfl, fun some => absurd rfl some⟩
      · next first others hlines =>
        obtain ⟨rfl, rfl⟩ := List.cons_eq_cons.1 h
        obtain ⟨same, whole⟩ := ih hlines (by simpa [hlines] using flatten_lines cs)
        refine ⟨same, fun some => ?_⟩
        have visible : first ≠ [] := line_ne_nil (hlines ▸ List.mem_cons_self)
        have feed := (whole some).resolve_left visible
        exact .inr (by rw [List.getLast?_cons, feed]; rfl)

/-- What stands in front of a line consists of whole lines. -/
theorem lines_eq_append {cs line : List Char} {before after : List (List Char)}
    (h : lines cs = before ++ line :: after) :
    IsWhole before.flatten ∧ lines before.flatten = before ∧ lines (line ++ after.flatten) = line :: after := by
  induction before generalizing cs with
  | nil =>
    rw [List.nil_append] at h
    obtain ⟨split, -, -⟩ := lines_eq_cons h
    exact ⟨.inl rfl, rfl, by rw [← split, h]⟩
  | cons first others ih =>
    rw [List.cons_append] at h
    obtain ⟨split, same, whole⟩ := lines_eq_cons h
    have whole : IsWhole first := whole (by simp)
    obtain ⟨wholeOthers, sameOthers, behind⟩ := ih same
    have alone : lines first = [first] := by
      rw [split, lines_append whole, same, ← List.singleton_append] at h
      exact List.append_cancel_right h
    refine ⟨?_, ?_, behind⟩
    · rw [List.flatten_cons]
      exact whole.append wholeOthers
    · rw [List.flatten_cons, lines_append whole, alone, sameOthers, List.singleton_append]

/-- The first lines of a text are the lines of a text of their own. -/
theorem lines_flatten_of_prefix {cs : List Char} {before : List (List Char)} (h : before <+: lines cs) :
    lines before.flatten = before := by
  obtain ⟨after, split⟩ := h
  cases after with
  | nil => rw [List.append_nil] at split; rw [split, flatten_lines]
  | cons line others => exact (lines_eq_append split.symm).2.1

/-- Whole lines are counted by their line feeds. -/
private theorem IsWhole.length_lines {cs : List Char} (whole : IsWhole cs) : (lines cs).length = cs.count '\n' := by
  induction cs with
  | nil => rfl
  | cons c cs ih =>
    have counted := ih whole.tail
    rw [lines]
    split
    · next hc => rw [hc, List.length_cons, List.count_cons_self, counted]
    · next hc =>
      have hne : cs ≠ [] := by
        rintro rfl
        exact hc (List.mem_singleton.1 (whole.mem_lineFeed (by simp))).symm
      rw [List.count_cons_of_ne hc, ← counted]
      cases hlines : lines cs with
      | nil => exact absurd (eq_nil_of_lines_eq_nil hlines) hne
      | cons line rest => rfl

/-! ## Rows -/

/-- A row with the line feed behind it. -/
def ended (row : List Char) : List Char := row ++ ['\n']

private theorem isWhole_ended (row : List Char) : IsWhole (ended row) := .inr List.getLast?_concat

private theorem isWhole_flatMap_ended (rows : List (List Char)) : IsWhole (rows.flatMap ended) := by
  induction rows with
  | nil => exact .inl rfl
  | cons row rows ih => exact (isWhole_ended row).append ih

private theorem lines_ended {row : List Char} (h : '\n' ∉ row) : lines (ended row) = [ended row] := by
  induction row with
  | nil => rfl
  | cons c cs ih =>
    obtain ⟨hc, hcs⟩ := not_or.1 (mt List.mem_cons.2 h)
    rw [show ended (c :: cs) = c :: ended cs from rfl, lines, if_neg (Ne.symm hc), ih hcs]

/-- Every line feed within a row makes one line more. -/
private theorem length_lines_flatMap_ended (rows : List (List Char)) :
    (lines (rows.flatMap ended)).length = rows.length + rows.flatten.count '\n' := by
  rw [(isWhole_flatMap_ended rows).length_lines]
  induction rows with
  | nil => rfl
  | cons row rows ih =>
    rw [List.flatMap_cons, List.count_append, ih, ended, List.count_append, List.flatten_cons, List.count_append,
      List.length_cons, List.count_singleton_self]
    omega

/-- There are as many lines as rows exactly if no row has a line feed in it. -/
theorem length_lines_flatMap_ended_iff {rows : List (List Char)} :
    (lines (rows.flatMap ended)).length = rows.length ↔ ∀ row ∈ rows, '\n' ∉ row := by
  rw [length_lines_flatMap_ended, Nat.add_eq_left, List.count_eq_zero, List.mem_flatten]
  simp only [not_exists, not_and]

/-- The rows are the lines exactly then, too. -/
theorem lines_flatMap_ended_iff {rows : List (List Char)} :
    lines (rows.flatMap ended) = rows.map ended ↔ ∀ row ∈ rows, '\n' ∉ row := by
  constructor
  · intro h
    rw [← length_lines_flatMap_ended_iff, h, List.length_map]
  · intro oneLine
    induction rows with
    | nil => rfl
    | cons row rows ih =>
      obtain ⟨first, others⟩ := List.forall_mem_cons.1 oneLine
      rw [List.flatMap_cons, lines_append (isWhole_ended row), lines_ended first, ih others]
      rfl

/-- Whole lines do not end within a piece of a line. -/
theorem IsWhole.byteLength_le_or_le {a b front piece rest : List Char} (whole : IsWhole a)
    (h : a ++ b = front ++ (piece ++ rest)) (inLine : '\n' ∉ piece) :
    byteLength a ≤ byteLength front ∨ byteLength (front ++ piece) ≤ byteLength a := by
  refine Classical.byContradiction fun between => ?_
  obtain ⟨behind, before⟩ := not_or.1 between
  obtain ⟨e, rfl, split⟩ := exists_append_of_byteLength_le h.symm (Nat.le_of_not_le behind)
  have shorter : byteLength e ≤ byteLength piece := by
    rw [byteLength_append, byteLength_append] at before
    omega
  obtain ⟨e', rfl, -⟩ := exists_append_of_byteLength_le split.symm shorter
  have visible : e ≠ [] := by
    rintro rfl
    exact behind (by simp)
  exact inLine (List.mem_append_left _ (whole.of_append.mem_lineFeed visible))

/-! ## Positions -/

theorem map_snd_withPositions (position : Nat) (ls : List (List Char)) : (withPositions position ls).map Prod.snd = ls := by
  induction ls generalizing position with
  | nil => rfl
  | cons line rest ih => rw [withPositions, List.map_cons, ih]

private theorem withPositions_append (position : Nat) (a b : List (List Char)) :
    withPositions position (a ++ b)
      = withPositions position a ++ withPositions (position + byteLength a.flatten) b := by
  induction a generalizing position with
  | nil => simp [withPositions, byteLength]
  | cons line rest ih =>
    simp only [List.cons_append, withPositions, ih, List.flatten_cons, byteLength_append, Nat.add_assoc]

private theorem withPositions_add (offset position : Nat) (a : List (List Char)) :
    withPositions (offset + position) a
      = (withPositions position a).map fun (start, line) => (offset + start, line) := by
  induction a generalizing position with
  | nil => rfl
  | cons line rest ih => simp only [withPositions, List.map_cons, Nat.add_assoc, ih]

theorem positionedLines_append {a : List Char} (whole : IsWhole a) (b : List Char) :
    positionedLines (a ++ b) = positionedLines a
      ++ (positionedLines b).map fun (start, line) => (byteLength a + start, line) := by
  have moved := withPositions_add (byteLength a) 0 (lines b)
  rw [positionedLines, lines_append whole, withPositions_append, flatten_lines, Nat.zero_add]
  rw [Nat.add_zero] at moved
  rw [moved]
  rfl

/-- The first line behind whole lines stands where they end. -/
theorem mem_positionedLines_of_isWhole {front cs line : List Char} {others : List (List Char)} (whole : IsWhole front)
    (h : lines cs = line :: others) : (byteLength front, line) ∈ positionedLines (front ++ cs) := by
  rw [positionedLines, lines_append whole, withPositions_append, flatten_lines, h, withPositions, Nat.zero_add]
  exact List.mem_append_right _ List.mem_cons_self

/-- A positioned line cuts its text in three. -/
private theorem exists_of_mem_withPositions {position start : Nat} {line : List Char} {a : List (List Char)}
    (h : (start, line) ∈ withPositions position a) :
    line ∈ a ∧ ∃ front back, a.flatten = front ++ line ++ back ∧ start = position + byteLength front := by
  induction a generalizing position with
  | nil => simp [withPositions] at h
  | cons first rest ih =>
    rcases List.mem_cons.1 h with h | h
    · obtain ⟨rfl, rfl⟩ := Prod.mk.inj h
      exact ⟨List.mem_cons_self, [], rest.flatten, by simp, by simp [byteLength]⟩
    · obtain ⟨hmem, front, back, e, hstart⟩ := ih h
      refine ⟨List.mem_cons_of_mem _ hmem, first ++ front, back, by simp [e], ?_⟩
      rw [hstart, byteLength_append, Nat.add_assoc]

theorem exists_of_mem_positionedLines {start : Nat} {line cs : List Char}
    (h : (start, line) ∈ positionedLines cs) :
    line ∈ lines cs ∧ ∃ front back, cs = front ++ line ++ back ∧ start = byteLength front := by
  simpa [flatten_lines] using exists_of_mem_withPositions h

theorem start_lt_of_mem_positionedLines {start : Nat} {line cs : List Char}
    (h : (start, line) ∈ positionedLines cs) : start < byteLength cs := by
  obtain ⟨hline, front, back, rfl, rfl⟩ := exists_of_mem_positionedLines h
  have := byteLength_pos (line_ne_nil hline)
  simp only [byteLength_append]
  omega

private theorem withPositions_eq_append {position start : Nat} {line : List Char} {ls : List (List Char)}
    {before after : List (Nat × List Char)} (h : withPositions position ls = before ++ (start, line) :: after) :
    ∃ front back, ls = front ++ line :: back ∧ withPositions position front = before ∧
      start = position + byteLength front.flatten := by
  induction ls generalizing position before with
  | nil => simp [withPositions] at h
  | cons first rest ih =>
    cases before with
    | nil =>
      obtain ⟨here, -⟩ := List.cons_eq_cons.1 h
      obtain ⟨rfl, rfl⟩ := Prod.mk.inj here
      exact ⟨[], rest, rfl, rfl, by simp [byteLength]⟩
    | cons one others =>
      obtain ⟨rfl, behind⟩ := List.cons_eq_cons.1 h
      obtain ⟨front, back, rfl, rfl, hstart⟩ := ih behind
      refine ⟨first :: front, back, rfl, rfl, ?_⟩
      rw [hstart, List.flatten_cons, byteLength_append, Nat.add_assoc]

/-- A positioned line stands behind whole lines, and those are the positioned lines in front of it. -/
theorem positionedLines_eq_append {start : Nat} {line cs : List Char} {before after : List (Nat × List Char)}
    (h : positionedLines cs = before ++ (start, line) :: after) :
    ∃ a b, cs = a ++ (line ++ b) ∧ IsWhole a ∧ start = byteLength a ∧ positionedLines a = before ∧
      lines (line ++ b) = line :: lines b := by
  obtain ⟨front, back, split, hbefore, hstart⟩ := withPositions_eq_append h
  obtain ⟨whole, same, behind⟩ := lines_eq_append split
  refine ⟨front.flatten, back.flatten, ?_, whole, by rw [hstart, Nat.zero_add], ?_, ?_⟩
  · rw [← flatten_lines cs, split, List.flatten_append, List.flatten_cons]
  · rw [positionedLines, same, hbefore]
  · rw [behind, (lines_eq_cons behind).2.1]

private theorem pairwise_withPositions (position : Nat) (ls : List (List Char)) :
    (withPositions position ls).Pairwise fun l l' => l.1 + byteLength l.2 ≤ l'.1 := by
  induction ls generalizing position with
  | nil => exact .nil
  | cons line rest ih =>
    refine List.pairwise_cons.2 ⟨fun l hl => ?_, ih _⟩
    obtain ⟨-, front, -, -, hstart⟩ := exists_of_mem_withPositions hl
    rw [hstart]
    exact Nat.le_add_right _ _

theorem pairwise_positionedLines (cs : List Char) : (positionedLines cs).Pairwise fun l l' => l.1 < l'.1 := by
  refine List.Pairwise.imp_of_mem (fun {l l'} hl _ apart => ?_) (pairwise_withPositions 0 (lines cs))
  have := byteLength_pos (line_ne_nil (exists_of_mem_positionedLines hl).1)
  omega

end SpecCoverage.Text
