import SpecCoverage.Proofs.Functions.Passage

/-!
# Where two searches for a doc comment meet

A search that begins further on meets one that begins at an earlier place if all that stands between the two places is
skipped (`settle_of_isSkipped`), and in no other case, if the searches stop behind a comment (`isSkipped_of_settle_eq`).

Each step of the later search either stays behind the earlier place, or reaches in front of it: then this place is in a line
comment, or among the blanks in front of one, because no modifier begins with another one.
-/

namespace SpecCoverage.Functions

open Text

/-- What a search skips behind some text, so that it goes on as if it had begun there: blanks, modifiers that do not continue
an identifier, line comments that begin their lines, and what such a line comment has behind the text. -/
inductive IsSkipped (front : List Char) : List Char → Prop
  | nil : IsSkipped front []
  | blank {skipped : List Char} {c : Char} : IsSkipped front skipped → isBlank c = true →
      IsSkipped front (skipped ++ [c])
  | modifier {skipped : List Char} {word : String} : IsSkipped front skipped → word ∈ modifierWords →
      (∀ c ∈ (front ++ skipped).getLast?, isIdentifierChar c = false) → IsSkipped front (skipped ++ word.toList)
  | lineComment {skipped text : List Char} : IsSkipped front skipped →
      (∀ c ∈ (front ++ skipped).reverse.takeWhile (· ≠ '\n'), isBlank c = true) → '\n' ∉ text →
      IsSkipped front (skipped ++ '/' :: '/' :: text)
  | inLineComment {skipped text : List Char} : IsSkipped front skipped →
      endsInLineComment (front ++ skipped).reverse = true → '\n' ∉ text → IsSkipped front (skipped ++ text)

theorem IsSkipped.blanks {front skipped : List Char} (h : IsSkipped front skipped) {blanks : List Char}
    (blank : ∀ c ∈ blanks, isBlank c = true) : IsSkipped front (skipped ++ blanks) :=
  append_blanks .blank h blank

/-! ## Last lines -/

/-- The last line of a text. -/
private theorem takeWhile_reverse_append {before line : List Char} (whole : IsWhole before) (noFeed : '\n' ∉ line) :
    (before ++ line).reverse.takeWhile (· ≠ '\n') = line.reverse := by
  have inLine : ∀ c ∈ line.reverse, decide (c ≠ '\n') = true :=
    forall_ne_of_not_mem fun mem => noFeed (List.mem_reverse.1 mem)
  rw [List.reverse_append, List.takeWhile_append_of_pos inLine]
  rcases whole with rfl | last
  · simp
  · obtain ⟨others, rfl⟩ := List.getLast?_eq_some_iff.1 last
    simp

private theorem endsInLineComment_reverse_append {before line : List Char} (whole : IsWhole before)
    (noFeed : '\n' ∉ line) :
    endsInLineComment (before ++ line).reverse = "//".toList.isPrefixOf (trimStart line) := by
  rw [endsInLineComment, takeWhile_reverse_append whole noFeed, List.reverse_reverse]

private theorem blank_lastLine {before blanks : List Char} (whole : IsWhole before) (noFeed : '\n' ∉ blanks)
    (blank : ∀ c ∈ blanks, isBlank c = true) :
    ∀ c ∈ (before ++ blanks).reverse.takeWhile (· ≠ '\n'), isBlank c = true := by
  rw [takeWhile_reverse_append whole noFeed]
  exact fun c hc => blank c (List.mem_reverse.1 hc)

/-- From within a line comment that begins its line, the search goes to the start of this line. -/
private theorem settle_inLineComment {cs text : List Char} (h : endsInLineComment cs = true) (noFeed : '\n' ∉ text) :
    settle (text ++ cs) = settle (cs.dropWhile (· ≠ '\n')) := by
  obtain ⟨blanks, begun, blank, noFeed', hline⟩ := exists_of_endsInLineComment h
  have noFeed' : '\n' ∉ blanks ∧ '\n' ∉ begun := by simpa using noFeed'
  have split : text ++ cs
      = (text ++ begun.reverse) ++ '/' :: '/' :: (blanks.reverse ++ cs.dropWhile (· ≠ '\n')) := by
    have line : cs.takeWhile (· ≠ '\n') = (blanks ++ '/' :: '/' :: begun).reverse := by rw [← hline, List.reverse_reverse]
    conv => lhs; rw [← @List.takeWhile_append_dropWhile _ (fun c => decide (c ≠ '\n')) cs, line]
    simp
  have lastLine := blank_lastLine (isWhole_reverse_dropWhile cs) noFeed'.1 blank
  rw [List.reverse_append, List.reverse_reverse] at lastLine
  rw [split, settle_openingLineComment (by simp [noFeed, noFeed'.2]) lastLine,
    settle_of_isBlank fun c hc => blank c (List.mem_reverse.1 hc)]

/-! ## What is skipped -/

theorem settle_of_isSkipped {front skipped : List Char} (h : IsSkipped front skipped) :
    settle (front ++ skipped).reverse = settle front.reverse := by
  induction h with
  | nil => rw [List.append_nil]
  | blank _ blank ih => rw [settle_reverse_blank front _ blank, ih]
  | modifier _ mem alone ih => rw [← List.append_assoc, settle_append_modifier mem alone, ih]
  | @lineComment skipped text _ blank noFeed ih =>
    have split : (front ++ (skipped ++ '/' :: '/' :: text)).reverse
        = text.reverse ++ '/' :: '/' :: (front ++ skipped).reverse := by simp
    rw [split, settle_openingLineComment (by simpa using noFeed) blank, ih]
  | @inLineComment skipped text _ line noFeed ih =>
    have noFeed : '\n' ∉ text.reverse := by simpa using noFeed
    rw [← List.append_assoc, List.reverse_append, settle_inLineComment line noFeed,
      ← @settle_inLineComment _ [] line (by simp), List.nil_append, ih]

/-! ## Nothing else is skipped -/

/-- Where a search gets to that stops behind a comment. -/
def IsAtComment (reversed : List Char) : Prop := ∃ others, reversed = '/' :: '*' :: others

/-- Text that ends in a visible character and in which no step is possible is what the search is left with. -/
private theorem settle_of_stuck {front : List Char} {c : Char} (visible : isBlank c = false)
    (noModifier : behindModifier? (front ++ [c]).reverse = none)
    (noComment : endsInLineComment (front ++ [c]).reverse = false) :
    settle (front ++ [c]).reverse = (front ++ [c]).reverse := by
  have trimmed : trimStart (front ++ [c]).reverse = (front ++ [c]).reverse := by
    rw [List.reverse_concat, trimStart, List.dropWhile_cons_of_neg (by simp [visible])]
  have stuck : stepBack? (front ++ [c]).reverse = none := by
    unfold stepBack?
    dsimp only
    rw [trimmed, noModifier, noComment]
    rfl
  rw [settle_of_eq_none stuck, trimmed]

private theorem eq_of_prefix_of_mem_modifierWords :
    ∀ word ∈ modifierWords, ∀ longer ∈ modifierWords, word.toList <+: longer.toList → word = longer := by
  decide

section

variable {before p skipped : List Char}

/-- The start of a modifier is no modifier. -/
private theorem behindModifier?_eq_none_of_start {word : String} (mem : word ∈ modifierWords)
    (hword : word.toList = p ++ skipped)
    (alone : ∀ c ∈ before.getLast?, isIdentifierChar c = false) (more : skipped ≠ []) :
    behindModifier? (before ++ p).reverse = none := by
  refine Option.eq_none_iff_forall_not_mem.2 fun rest found => ?_
  obtain ⟨shorter, mem', split, -⟩ := behindModifier?_eq_some found
  have inWord : ∀ c ∈ p.reverse, isIdentifierChar c = true := fun c hc =>
    isIdentifierChar_of_mem_modifierWords word mem c (by simp [hword, List.mem_reverse.1 hc])
  have stop : before.reverse.dropWhile isIdentifierChar = before.reverse := by
    cases last : before.reverse with
    | nil => rfl
    | cons c rest =>
      have hc : c ∈ before.getLast? := by rw [← List.head?_reverse, last]; rfl
      rw [List.dropWhile_cons_of_neg (by simp [alone c hc])]
  have hrest : rest = before.reverse := by
    rw [eq_dropWhile_of_behindModifier? found, List.reverse_append, List.dropWhile_append_of_pos inWord, stop]
  rw [hrest, List.reverse_append] at split
  have start : p = shorter.toList := by simpa using List.append_cancel_right split
  obtain rfl := eq_of_prefix_of_mem_modifierWords shorter mem' word mem ⟨skipped, by rw [← start, hword]⟩
  rw [start] at hword
  exact more (List.append_right_eq_self.1 hword.symm)

/-- From within a modifier the search goes on only if the modifier stands in a line comment. -/
private theorem isSkipped_in_modifier {word : String} (mem : word ∈ modifierWords) (hword : word.toList = p ++ skipped)
    (alone : ∀ c ∈ before.getLast?, isIdentifierChar c = false) (more : skipped ≠ [])
    (settled : IsAtComment (settle (before ++ p).reverse)) : IsSkipped (before ++ p) skipped := by
  have inWord : ∀ c ∈ p ++ skipped, isIdentifierChar c = true := by
    rw [← hword]
    exact isIdentifierChar_of_mem_modifierWords word mem
  rcases List.eq_nil_or_concat' p with rfl | ⟨others, c, rfl⟩
  · rw [List.append_nil]
    rw [List.nil_append] at hword
    have whole := (@IsSkipped.nil before).modifier mem (by rwa [List.append_nil])
    rwa [List.nil_append, hword] at whole
  cases line : endsInLineComment (before ++ (others ++ [c])).reverse with
  | true =>
    refine @IsSkipped.inLineComment _ [] _ .nil (by rwa [List.append_nil]) fun feed => ?_
    exact absurd (inWord _ (List.mem_append_right _ feed)) (by decide)
  | false =>
    have continues : isIdentifierChar c = true := inWord c (by simp)
    have visible : isBlank c = false := by
      refine Bool.eq_false_iff.2 fun blank => ?_
      rw [isIdentifierChar_of_isBlank blank] at continues
      cases continues
    have noModifier := behindModifier?_eq_none_of_start mem hword alone more
    rw [← List.append_assoc] at line settled noModifier
    obtain ⟨rest, hrest⟩ := settled
    rw [settle_of_stuck visible noModifier line, List.reverse_concat] at hrest
    obtain ⟨rfl, -⟩ := List.cons_eq_cons.1 hrest
    exact absurd continues (by decide)

/-- A search that begins between the two slashes of a line comment stops there, and not behind a comment. -/
private theorem not_isAtComment_slash {blanks : List Char} (whole : IsWhole before)
    (blank : ∀ c ∈ blanks, isBlank c = true)
    (noFeed : '\n' ∉ blanks) : ¬ IsAtComment (settle (before ++ (blanks ++ ['/'])).reverse) := by
  have noComment : endsInLineComment (before ++ blanks ++ ['/']).reverse = false := by
    rw [List.append_assoc, endsInLineComment_reverse_append whole (by simp [noFeed]),
      trimStart_append blank (by rintro _ ⟨⟩; decide)]
    rfl
  rw [← List.append_assoc,
    settle_of_stuck (by decide) (behindModifier?_concat_eq_none _ (by decide)) noComment, List.reverse_concat]
  rintro ⟨others, split⟩
  -- only blanks and the end of a line stand in front of the slash, and no star
  have star : '*' ∈ (before ++ blanks).getLast? := by
    rw [← List.head?_reverse, (List.cons_eq_cons.1 split).2]
    rfl
  rw [List.getLast?_append] at star
  cases last : blanks.getLast? with
  | some c =>
    have blank := blank c (List.mem_of_getLast? last)
    rw [last] at star
    obtain rfl : c = '*' := Option.some.inj star
    cases blank
  | none =>
    rw [last] at star
    rcases whole with rfl | feed
    · cases star
    · rw [feed] at star
      cases star

private theorem isSkipped_in_lineComment {blanks text : List Char} (whole : IsWhole before)
    (blank : ∀ c ∈ blanks, isBlank c = true) (noFeed : '\n' ∉ blanks ++ text)
    (hline : blanks ++ '/' :: '/' :: text = p ++ skipped) (settled : IsAtComment (settle (before ++ p).reverse)) :
    IsSkipped (before ++ p) skipped := by
  obtain ⟨inBlanks, inText⟩ : '\n' ∉ blanks ∧ '\n' ∉ text := by simpa using noFeed
  rcases List.append_eq_append_iff.1 hline with ⟨e, rfl, ends⟩ | ⟨e, rfl, rfl⟩
  · rcases e with _ | ⟨c, _ | ⟨d, e⟩⟩
    · -- in front of the slashes
      obtain rfl : '/' :: '/' :: text = skipped := ends
      rw [List.append_nil]
      refine @IsSkipped.lineComment _ [] _ .nil ?_ inText
      rw [List.append_nil]
      exact blank_lastLine whole inBlanks blank
    · obtain ⟨rfl, -⟩ := List.cons_eq_cons.1 ends
      exact absurd settled (not_isAtComment_slash whole blank inBlanks)
    · -- behind the slashes
      obtain ⟨rfl, second⟩ := List.cons_eq_cons.1 ends
      obtain ⟨rfl, rfl⟩ := List.cons_eq_cons.1 second
      obtain ⟨inFront, behind⟩ : '\n' ∉ e ∧ '\n' ∉ skipped := by simpa using inText
      refine @IsSkipped.inLineComment _ [] _ .nil ?_ behind
      rw [List.append_nil, endsInLineComment_reverse_append whole (by simp [inBlanks, inFront]),
        trimStart_append blank (by rintro _ ⟨⟩; decide)]
      rfl
  · -- among the blanks
    have blank := List.forall_mem_append.1 blank
    refine (IsSkipped.nil.blanks blank.2).lineComment ?_ inText
    rw [List.nil_append, List.append_assoc]
    exact blank_lastLine whole inBlanks (List.forall_mem_append.2 blank)

end

theorem IsPiece.ne_nil {front piece : List Char} (h : IsPiece front piece) : piece ≠ [] := by
  cases h with
  | modifier mem => simpa using List.ne_nil_of_length_pos (modifierWords_nonempty _ mem)
  | lineComment => simp

/-- Behind a visible character, a step passes over no blanks. -/
private theorem exists_isPiece_of_visible {front rest : List Char} {c : Char} (visible : isBlank c = false)
    (step : stepBack? (front ++ [c]).reverse = some rest) :
    ∃ piece, IsPiece rest.reverse piece ∧ front ++ [c] = rest.reverse ++ piece := by
  obtain ⟨piece, blanks, isPiece, blank, split⟩ := exists_isPiece_of_stepBack? step
  rw [List.reverse_reverse] at split
  rcases List.eq_nil_or_concat' blanks with rfl | ⟨others, d, rfl⟩
  · exact ⟨piece, isPiece, by rw [split, List.append_nil]⟩
  · rw [← List.append_assoc, ← List.append_assoc] at split
    obtain ⟨-, last⟩ := List.append_inj' split rfl
    have blank := blank d (by simp)
    rw [← List.singleton_inj.1 last, visible] at blank
    cases blank

/-- What a step passes over is skipped behind a skipped text. -/
theorem IsSkipped.piece {front skipped piece : List Char} (h : IsSkipped front skipped)
    (isPiece : IsPiece (front ++ skipped) piece) : IsSkipped front (skipped ++ piece) := by
  cases isPiece with
  | modifier mem alone => exact h.modifier mem alone
  | @lineComment blanks text whole blank noFeed =>
    obtain ⟨inBlanks, inText⟩ : '\n' ∉ blanks ∧ '\n' ∉ text := by simpa using noFeed
    rw [← List.append_assoc]
    refine (h.blanks blank).lineComment ?_ inText
    rw [← List.append_assoc]
    exact blank_lastLine whole inBlanks blank

/-- A search that stops at a visible character behind a text has not come to where the search from this text ends. -/
private theorem settle_ne_of_stepBack?_eq_none {front init : List Char} {c : Char} (visible : isBlank c = false)
    (step : stepBack? (front ++ (init ++ [c])).reverse = none) :
    settle (front ++ (init ++ [c])).reverse ≠ settle front.reverse := by
  intro same
  have shorter := (settle_suffix front.reverse).length_le
  rw [← same, settle_of_eq_none step, ← List.append_assoc, List.reverse_concat, trimStart,
    List.dropWhile_cons_of_neg (by simp [visible])] at shorter
  simp only [List.length_cons, List.length_reverse, List.length_append] at shorter
  omega

/-- The search goes on behind a comment only if all that it began behind is skipped. -/
theorem isSkipped_of_settle_eq {front skipped : List Char} (same : settle (front ++ skipped).reverse = settle front.reverse)
    (settled : IsAtComment (settle front.reverse)) : IsSkipped front skipped := by
  induction h : skipped.length using Nat.strong_induction_on generalizing skipped with
  | _ n ih =>
    rcases List.eq_nil_or_concat' skipped with rfl | ⟨init, c, rfl⟩
    · exact .nil
    cases visible : isBlank c with
    | true =>
      rw [settle_reverse_blank front init visible] at same
      exact (ih init.length (by simp [← h]) same rfl).blank visible
    | false =>
      cases step : stepBack? (front ++ (init ++ [c])).reverse with
      | none => exact absurd same (settle_ne_of_stepBack?_eq_none visible step)
      | some rest =>
        rw [settle_of_eq_some step] at same
        rw [← List.append_assoc] at step
        obtain ⟨piece, isPiece, split⟩ := exists_isPiece_of_visible visible step
        rw [List.append_assoc] at split
        rcases List.append_eq_append_iff.1 split with ⟨q, hrest, hskipped⟩ | ⟨p, rfl, hpiece⟩
        · -- the step stays behind the first text
          have shorter : q.length < n := by
            have := List.length_pos_iff.2 isPiece.ne_nil
            rw [← h, hskipped, List.length_append]
            omega
          have behind : IsSkipped front q := ih q.length shorter (by rw [← hrest, List.reverse_reverse, same]) rfl
          rw [hrest] at isPiece
          rw [hskipped]
          exact behind.piece isPiece
        · -- the first text ends within what the step passes over
          cases isPiece with
          | modifier mem alone => exact isSkipped_in_modifier mem hpiece alone (by simp) settled
          | lineComment whole blank noFeed => exact isSkipped_in_lineComment whole blank noFeed hpiece settled

end SpecCoverage.Functions
