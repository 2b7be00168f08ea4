import Mathlib.Data.List.Forall2
import Mathlib.Data.List.TakeWhile
import SpecCoverage.Proofs.Text.Matches

/-!
# Line endings

A text in which lines end with a carriage return and a line feed (`withReturns`) is read as the text itself:

* (lines) its lines are those of the text, with returns (`lines_withReturns`), and trimmed they are the same
  (`trim_withReturns`);
* (pieces) a piece without line ends is found at the same places (`behind?_withReturns`), and so is a run of
  characters of a kind that takes both characters of a line end or none (`dropWhile_withReturns`);
* (patterns) a pattern that sees no difference (`IsBlindTo`) and never begins at a line end has the same matches along
  both texts, at places that correspond (`AtSamePlace`, `allMatches_withReturns`).  Places that correspond stand in the
  same order (`AtSamePlace.le_iff_le`).
-/

namespace SpecCoverage.Text

/-- A text with a carriage return in front of each line feed. -/
def withReturns (cs : List Char) : List Char := cs.flatMap fun c => if c = '\n' then ['\r', '\n'] else [c]

@[simp]
theorem withReturns_nil : withReturns [] = [] := rfl

@[simp]
theorem withReturns_lineFeed (cs : List Char) : withReturns ('\n' :: cs) = '\r' :: '\n' :: withReturns cs := rfl

theorem withReturns_cons {c : Char} (h : c ≠ '\n') (cs : List Char) : withReturns (c :: cs) = c :: withReturns cs := by
  simp [withReturns, h]

@[simp]
theorem withReturns_append (a b : List Char) : withReturns (a ++ b) = withReturns a ++ withReturns b :=
  List.flatMap_append

private theorem withReturns_eq_self {cs : List Char} (h : '\n' ∉ cs) : withReturns cs = cs := by
  induction cs with
  | nil => rfl
  | cons c cs ih =>
    rw [withReturns_cons (List.ne_of_not_mem_cons h).symm, ih (List.not_mem_of_not_mem_cons h)]

theorem withReturns_flatten (ls : List (List Char)) : withReturns ls.flatten = (ls.map withReturns).flatten := by
  induction ls with
  | nil => rfl
  | cons line rest ih => rw [List.flatten_cons, withReturns_append, ih, List.map_cons, List.flatten_cons]

private theorem length_withReturns (cs : List Char) : cs.length ≤ (withReturns cs).length := by
  induction cs with
  | nil => exact Nat.le_refl _
  | cons c cs ih =>
    by_cases hc : c = '\n'
    · subst hc
      simp only [withReturns_lineFeed, List.length_cons]
      omega
    · rw [withReturns_cons hc, List.length_cons, List.length_cons]
      omega

/-! ## Pieces -/

section

variable {p : Char → Bool}

theorem takeWhile_withReturns (same : p '\r' = p '\n') (cs : List Char) :
    (withReturns cs).takeWhile p = withReturns (cs.takeWhile p) := by
  induction cs with
  | nil => rfl
  | cons c cs ih =>
    by_cases hc : c = '\n'
    · subst hc
      cases h : p '\n' with
      | false => simp [same, h]
      | true => simp [same, h, ih]
    · rw [withReturns_cons hc, List.takeWhile_cons, List.takeWhile_cons, ih]
      split
      · rw [withReturns_cons hc]
      · rfl

theorem dropWhile_withReturns (same : p '\r' = p '\n') (cs : List Char) :
    (withReturns cs).dropWhile p = withReturns (cs.dropWhile p) := by
  induction cs with
  | nil => rfl
  | cons c cs ih =>
    by_cases hc : c = '\n'
    · subst hc
      cases h : p '\n' with
      | false => simp [same, h]
      | true => simp [same, h, ih]
    · rw [withReturns_cons hc, List.dropWhile_cons, List.dropWhile_cons, ih]
      split
      · rfl
      · rw [withReturns_cons hc]

private theorem withReturns_of_stop (stop : p '\n' = false) {cs : List Char} (all : ∀ c ∈ cs, p c = true) :
    withReturns cs = cs := by
  refine withReturns_eq_self fun mem => ?_
  rw [all _ mem] at stop
  cases stop

/-- A run up to the end of a line stops at the line feed or at the return in front of it. -/
private theorem dropWhile_lineEnd (stop : p '\n' = false) {front : List Char} (all : ∀ c ∈ front, p c = true)
    (back : List Char) :
    ∃ c rest, (c = '\r' ∨ c = '\n') ∧ (withReturns (front ++ '\n' :: back)).dropWhile p = c :: rest := by
  rw [withReturns_append, withReturns_of_stop stop all, withReturns_lineFeed]
  cases h : p '\r' with
  | false => exact ⟨_, _, .inl rfl, dropWhile_append_cons all h _⟩
  | true =>
    refine ⟨'\n', withReturns back, .inr rfl, ?_⟩
    rw [List.dropWhile_append_of_pos all, List.dropWhile_cons_of_pos h, List.dropWhile_cons_of_neg (by simp [stop])]

theorem run?_withReturns (hreturn : p '\r' = false) (hfeed : p '\n' = false) (cs : List Char) :
    run? p (withReturns cs) = (run? p cs).map fun (found, rest) => (found, withReturns rest) := by
  have same : p '\r' = p '\n' := hreturn.trans hfeed.symm
  have whole : withReturns (cs.takeWhile p) = cs.takeWhile p :=
    withReturns_of_stop hfeed (List.all_eq_true.1 List.all_takeWhile)
  unfold run?
  rw [takeWhile_withReturns same, whole, dropWhile_withReturns same]
  cases cs.takeWhile p <;> rfl

end

theorem behind?_withReturns {piece : List Char} (hreturn : '\r' ∉ piece) (hfeed : '\n' ∉ piece) (cs : List Char) :
    behind? piece (withReturns cs) = (behind? piece cs).map withReturns := by
  induction piece generalizing cs with
  | nil => cases cs <;> rfl
  | cons q qs ih =>
    have hq : '\r' ≠ q := List.ne_of_not_mem_cons hreturn
    have hq' : '\n' ≠ q := List.ne_of_not_mem_cons hfeed
    cases cs with
    | nil => rfl
    | cons c cs =>
      by_cases hc : c = '\n'
      · subst hc
        rw [withReturns_lineFeed, behind?, behind?, if_neg (Ne.symm hq), if_neg (Ne.symm hq')]
        rfl
      · rw [withReturns_cons hc, behind?, behind?]
        split
        · exact ih (List.not_mem_of_not_mem_cons hreturn) (List.not_mem_of_not_mem_cons hfeed) cs
        · rfl

private theorem behind?_cons_of_not_mem {piece : List Char} (hne : piece ≠ []) {c : Char} (hc : c ∉ piece)
    (rest : List Char) : behind? piece (c :: rest) = none := by
  obtain ⟨q, qs, rfl⟩ := List.exists_cons_of_ne_nil hne
  rw [behind?, if_neg (List.ne_of_not_mem_cons hc).symm]

private theorem optionally_withReturns {piece : List Char} (hreturn : '\r' ∉ piece) (hfeed : '\n' ∉ piece)
    (cs : List Char) : optionally piece (withReturns cs) = withReturns (optionally piece cs) := by
  unfold optionally
  rw [behind?_withReturns hreturn hfeed]
  cases behind? piece cs <;> rfl

theorem isPrefixOf_withReturns {piece : List Char} (hreturn : '\r' ∉ piece) (hfeed : '\n' ∉ piece)
    (cs : List Char) : piece.isPrefixOf (withReturns cs) = piece.isPrefixOf cs := by
  have found : ∀ {ds : List Char}, piece.isPrefixOf ds = true ↔ (behind? piece ds).isSome = true := by
    intro ds
    rw [List.isPrefixOf_iff_prefix, Option.isSome_iff_exists]
    simp only [behind?_eq_some_iff]
    exact ⟨fun ⟨rest, h⟩ => ⟨rest, h.symm⟩, fun ⟨rest, h⟩ => ⟨rest, h.symm⟩⟩
  rw [Bool.eq_iff_iff, found, found, behind?_withReturns hreturn hfeed, Option.isSome_map]

theorem trimStart_withReturns (cs : List Char) : trimStart (withReturns cs) = withReturns (trimStart cs) :=
  dropWhile_withReturns rfl cs

theorem behindBlanks?_withReturns (cs : List Char) :
    behindBlanks? (withReturns cs) = (behindBlanks? cs).map withReturns := by
  cases cs with
  | nil => rfl
  | cons c cs =>
    by_cases hc : c = '\n'
    · subst hc
      have blank : trimStart ('\n' :: withReturns cs) = trimStart (withReturns cs) := rfl
      simp only [withReturns_lineFeed, behindBlanks?, show isBlank '\r' = true from rfl,
        show isBlank '\n' = true from rfl, if_true, Option.map_some, blank, trimStart_withReturns]
    · rw [withReturns_cons hc, behindBlanks?, behindBlanks?, trimStart_withReturns]
      split <;> rfl

/-! ## Lines and words -/

theorem lines_withReturns (cs : List Char) : lines (withReturns cs) = (lines cs).map withReturns := by
  induction cs with
  | nil => rfl
  | cons c cs ih =>
    by_cases hc : c = '\n'
    · subst hc
      simp [lines, ih]
    · rw [withReturns_cons hc, lines, lines, if_neg hc, if_neg hc, ih]
      cases lines cs with
      | nil => simp [withReturns_cons hc]
      | cons line rest => simp [withReturns_cons hc]

/-- A line feed stands at the end of its line. -/
theorem lineFeed_of_mem_lines {line cs : List Char} (h : line ∈ lines cs) :
    '\n' ∉ line ∨ ∃ front, '\n' ∉ front ∧ line = front ++ ['\n'] := by
  induction cs generalizing line with
  | nil => simp [lines] at h
  | cons c cs ih =>
    rw [lines] at h
    split at h
    · next hc =>
      rcases List.mem_cons.1 h with rfl | h
      · exact .inr ⟨[], by simp, by rw [hc]; rfl⟩
      · exact ih h
    · next hc =>
      split at h
      · obtain rfl := List.mem_singleton.1 h
        exact .inl (by simpa using Ne.symm hc)
      · next first rest hlines =>
        rcases List.mem_cons.1 h with rfl | h
        · rcases ih (by rw [hlines]; exact List.mem_cons_self) with none | ⟨front, none, rfl⟩
          · exact .inl (List.not_mem_cons_of_ne_of_not_mem (Ne.symm hc) none)
          · exact .inr ⟨c :: front, List.not_mem_cons_of_ne_of_not_mem (Ne.symm hc) none, rfl⟩
        · exact ih (by rw [hlines]; exact List.mem_cons_of_mem _ h)

private theorem trimEnd_append_blanks (cs : List Char) {blanks : List Char} (h : ∀ c ∈ blanks, isBlank c = true) :
    trimEnd (cs ++ blanks) = trimEnd cs := by
  unfold trimEnd
  rw [List.reverse_append, List.dropWhile_append_of_pos]
  intro c hc
  exact h c (List.mem_reverse.1 hc)

theorem trim_append_blanks (cs : List Char) {blanks : List Char} (h : ∀ c ∈ blanks, isBlank c = true) :
    trim (cs ++ blanks) = trim cs := by
  unfold trim trimStart
  rw [List.dropWhile_append]
  split
  · next empty =>
    rw [List.isEmpty_iff] at empty
    have gone : blanks.dropWhile isBlank = [] := List.dropWhile_eq_nil_iff.2 h
    rw [gone, empty]
  · exact trimEnd_append_blanks _ h

/-- The return behind a line is trimmed away with the line feed. -/
theorem trim_withReturns {line cs : List Char} (h : line ∈ lines cs) : trim (withReturns line) = trim line := by
  rcases lineFeed_of_mem_lines h with none | ⟨front, none, rfl⟩
  · rw [withReturns_eq_self none]
  · have returned : withReturns ['\n'] = ['\r', '\n'] := rfl
    have blanks : ∀ c ∈ ['\r', '\n'], isBlank c = true := List.all_eq_true.1 rfl
    have feed : ∀ c ∈ ['\n'], isBlank c = true := List.all_eq_true.1 rfl
    rw [withReturns_append, withReturns_eq_self none, returned, trim_append_blanks front blanks,
      trim_append_blanks front feed]

/-- What is computed from the end of a text is the same with returns, if a return changes nothing in front of a line
feed. -/
private theorem foldr_withReturns {β : Type} {f : Char → β → β} (same : ∀ b, f '\r' (f '\n' b) = f '\n' b) (b : β)
    (cs : List Char) : (withReturns cs).foldr f b = cs.foldr f b := by
  induction cs with
  | nil => rfl
  | cons c cs ih =>
    by_cases hc : c = '\n'
    · subst hc
      rw [withReturns_lineFeed, List.foldr_cons, List.foldr_cons, List.foldr_cons, ih, same]
    · rw [withReturns_cons hc, List.foldr_cons, List.foldr_cons, ih]

theorem words_withReturns (cs : List Char) : words (withReturns cs) = words cs := by
  unfold words
  rw [foldr_withReturns]
  -- behind a line end no word is begun
  exact fun _ => rfl

/-! ## Places -/

/-- Two positions that stand behind the same part of a text, the second one with returns. -/
def AtSamePlace (text : List Char) (n n' : Nat) : Prop :=
  ∃ front back, text = front ++ back ∧ n = byteLength front ∧ n' = byteLength (withReturns front)

theorem AtSamePlace.of_append {text front back : List Char} (h : text = front ++ back) :
    AtSamePlace text (byteLength front) (byteLength (withReturns front)) := ⟨front, back, h, rfl, rfl⟩

private theorem AtSamePlace.le_of_le {text : List Char} {n n' k k' : Nat} (hn : AtSamePlace text n n')
    (hk : AtSamePlace text k k') (le : n ≤ k) : n' ≤ k' := by
  obtain ⟨front, back, rfl, rfl, rfl⟩ := hn
  obtain ⟨front', back', h, rfl, rfl⟩ := hk
  obtain ⟨between, rfl, -⟩ := exists_append_of_byteLength_le h le
  rw [withReturns_append, byteLength_append]
  omega

private theorem AtSamePlace.lt_of_lt {text : List Char} {n n' k k' : Nat} (hn : AtSamePlace text n n')
    (hk : AtSamePlace text k k') (lt : n < k) : n' < k' := by
  obtain ⟨front, back, rfl, rfl, rfl⟩ := hn
  obtain ⟨front', back', h, rfl, rfl⟩ := hk
  obtain ⟨between, rfl, -⟩ := exists_append_of_byteLength_le h (Nat.le_of_lt lt)
  have some : between ≠ [] := by
    rintro rfl
    simp at lt
  have longer := length_withReturns between
  have some' : withReturns between ≠ [] := by
    intro none
    rw [none] at longer
    exact some (List.length_eq_zero_iff.1 (Nat.le_zero.1 longer))
  have := byteLength_pos some'
  rw [withReturns_append, byteLength_append]
  omega

theorem AtSamePlace.le_iff_le {text : List Char} {n n' k k' : Nat} (hn : AtSamePlace text n n')
    (hk : AtSamePlace text k k') : n ≤ k ↔ n' ≤ k' := by
  refine ⟨hn.le_of_le hk, fun le => ?_⟩
  by_cases lt : k < n
  · have := hk.lt_of_lt hn lt
    omega
  · omega

theorem AtSamePlace.within {text front part back : List Char} (h : text = front ++ (part ++ back)) {n n' : Nat}
    (hn : AtSamePlace part n n') : AtSamePlace text (byteLength front + n) (byteLength (withReturns front) + n') := by
  obtain ⟨before, after, rfl, rfl, rfl⟩ := hn
  refine ⟨front ++ before, after ++ back, by simp [h], ?_, ?_⟩
  · rw [byteLength_append]
  · rw [withReturns_append, byteLength_append]

/-- The same line of a text, without and with returns, and where it begins. -/
structure AtSameLine (text : List Char) (l l' : Nat × List Char) : Prop where
  mem : l.2 ∈ lines text
  line_eq : l'.2 = withReturns l.2
  place : ∃ front back, text = front ++ (l.2 ++ back) ∧ l.1 = byteLength front ∧ l'.1 = byteLength (withReturns front)

theorem AtSameLine.atSamePlace {text : List Char} {l l' : Nat × List Char} (h : AtSameLine text l l') :
    AtSamePlace text l.1 l'.1 := by
  obtain ⟨front, back, split, hstart, hstart'⟩ := h.place
  exact ⟨front, l.2 ++ back, split, hstart, hstart'⟩

private theorem withPositions_withReturns {text : List Char} {ls : List (List Char)}
    (mem : ∀ line ∈ ls, line ∈ lines text)
    {front : List Char} (split : text = front ++ ls.flatten) :
    List.Forall₂ (AtSameLine text) (withPositions (byteLength front) ls)
      (withPositions (byteLength (withReturns front)) (ls.map withReturns)) := by
  induction ls generalizing front with
  | nil => exact .nil
  | cons line rest ih =>
    have next := @ih (fun other h => mem other (List.mem_cons_of_mem _ h)) (front ++ line) (by simp [split])
    rw [withReturns_append, byteLength_append, byteLength_append] at next
    exact .cons ⟨mem line List.mem_cons_self, rfl, front, rest.flatten, split, rfl, rfl⟩ next

theorem positionedLines_withReturns (text : List Char) :
    List.Forall₂ (AtSameLine text) (positionedLines text) (positionedLines (withReturns text)) := by
  unfold positionedLines
  rw [lines_withReturns]
  exact @withPositions_withReturns text (lines text) (fun _ => id) [] (flatten_lines text).symm

/-! ## Patterns -/

variable {α : Type} {change : α → α}

/-- With returns a pattern gives its value in a changed form, and the rest with returns. -/
def IsBlindTo (change : α → α) (pattern : Pattern α) : Prop :=
  ∀ cs, pattern (withReturns cs) = (pattern cs).map fun (value, rest) => (change value, withReturns rest)

theorem IsBlindTo.behind {piece : List Char} (hreturn : '\r' ∉ piece) (hfeed : '\n' ∉ piece) {next : Pattern α}
    (blind : IsBlindTo change next) : IsBlindTo change fun cs => (behind? piece cs).bind next := by
  intro cs
  show (behind? piece (withReturns cs)).bind next = _
  rw [behind?_withReturns hreturn hfeed]
  cases h : behind? piece cs with
  | none => simp [h]
  | some rest => simp [h, blind rest]

theorem IsBlindTo.bind {β : Type} {pattern : Pattern β} (first : IsBlindTo id pattern) {next : β → Pattern α}
    (blind : ∀ value, IsBlindTo change (next value)) :
    IsBlindTo change fun cs => (pattern cs).bind fun (value, rest) => next value rest := by
  intro cs
  show (pattern (withReturns cs)).bind _ = _
  rw [first]
  cases h : pattern cs with
  | none => simp [h]
  | some read => simp [h, blind read.1 read.2]

/-- What stands in front of a piece in the same line has no returns. -/
theorem IsBlindTo.upTo {p : Char → Bool} (stop : p '\n' = false) {piece : List Char} (hne : piece ≠ [])
    (hreturn : '\r' ∉ piece) (hfeed : '\n' ∉ piece) {next : List Char → Pattern α}
    (blind : ∀ found, IsBlindTo change (next found)) :
    IsBlindTo change fun cs => (behind? piece (cs.dropWhile p)).bind (next (cs.takeWhile p)) := by
  intro cs
  dsimp only
  by_cases whole : cs.all p = true
  · have all : ∀ c ∈ cs, p c = true := List.all_eq_true.1 whole
    obtain ⟨q, qs, rfl⟩ := List.exists_cons_of_ne_nil hne
    rw [withReturns_of_stop stop all, List.dropWhile_eq_nil_iff.2 all]
    rfl
  · obtain ⟨front, c, back, rfl, all, hc⟩ := exists_first_not whole
    rw [takeWhile_append_cons all hc, dropWhile_append_cons all hc]
    by_cases atEnd : c = '\n'
    · -- the line ends in front of the piece
      subst atEnd
      obtain ⟨d, rest, hd, dropped⟩ := dropWhile_lineEnd stop all back
      rw [dropped, behind?_cons_of_not_mem hne hfeed, behind?_cons_of_not_mem hne]
      · rfl
      · rcases hd with rfl | rfl
        · exact hreturn
        · exact hfeed
    · have read := behind?_withReturns hreturn hfeed (c :: back)
      rw [withReturns_cons atEnd] at read
      rw [withReturns_append, withReturns_of_stop stop all, withReturns_cons atEnd, takeWhile_append_cons all hc,
        dropWhile_append_cons all hc, read]
      cases behind? piece (c :: back) with
      | none => rfl
      | some rest => exact blind front rest

theorem IsBlindTo.dropWhile {p : Char → Bool} (same : p '\r' = p '\n') {next : Pattern α}
    (blind : IsBlindTo change next) : IsBlindTo change fun cs => next (cs.dropWhile p) := by
  intro cs
  show next ((withReturns cs).dropWhile p) = _
  rw [dropWhile_withReturns same, blind]

theorem isBlindTo_optionally {piece : List Char} (hreturn : '\r' ∉ piece) (hfeed : '\n' ∉ piece) (value : α) :
    IsBlindTo id fun cs => some (value, optionally piece cs) := by
  intro cs
  show some (value, optionally piece (withReturns cs)) = _
  rw [optionally_withReturns hreturn hfeed]
  rfl

/-- Matches of a pattern in a text, without and with returns. -/
structure Match.Corresponds (text : List Char) (change : α → α) (m m' : Match α) : Prop where
  value : m'.value = change m.value
  start : AtSamePlace text m.start m'.start
  stop : AtSamePlace text m.stop m'.stop

private theorem Match.corresponds_of_append {text front found rest : List Char} (h : text = front ++ (found ++ rest))
    (value : α) :
    Match.Corresponds text change ⟨byteLength front, byteLength front + byteLength found, value⟩
      ⟨byteLength (withReturns front), byteLength (withReturns front) + byteLength (withReturns found),
        change value⟩ where
  value := rfl
  start := .of_append h
  stop := by
    rw [← byteLength_append, ← byteLength_append, ← withReturns_append]
    exact .of_append (by rw [h, List.append_assoc])

section

variable {pattern : Pattern α} (blind : IsBlindTo change pattern) (lineEnd : ∀ cs, pattern ('\n' :: cs) = none)

include blind lineEnd

/-- No match begins at a line end, nor at the return in front of it. -/
private theorem matchesFrom_withReturns_lineFeed (position : Nat) (cs : List Char) :
    matchesFrom pattern 0 position (withReturns ('\n' :: cs))
      = matchesFrom pattern 0 (position + '\r'.utf8Size + '\n'.utf8Size) (withReturns cs) := by
  have atReturn : pattern ('\r' :: '\n' :: withReturns cs) = none := by
    rw [← withReturns_lineFeed, blind, lineEnd]
    rfl
  rw [withReturns_lineFeed, matchesFrom, atReturn, matchesFrom, lineEnd]

/-- The part of the text that belongs to an earlier match is skipped with its returns. -/
private theorem matchesFrom_withReturns (takes : Takes pattern) {text front cs : List Char} (h : text = front ++ cs)
    (skip : Nat) :
    List.Forall₂ (Match.Corresponds text change) (matchesFrom pattern skip (byteLength front) cs)
      (matchesFrom pattern (withReturns (cs.take skip)).length (byteLength (withReturns front)) (withReturns cs)) := by
  induction cs generalizing front skip with
  | nil =>
    rw [withReturns_nil]
    cases skip <;> exact .nil
  | cons c cs ih =>
    have next := @ih (front ++ [c]) (by rw [h]; simp)
    rw [withReturns_append, byteLength_append, byteLength_append] at next
    by_cases hc : c = '\n'
    · -- two characters instead of one
      subst hc
      have feed : byteLength ['\n'] = '\n'.utf8Size := rfl
      have lineEnd_length : byteLength (withReturns ['\n']) = '\r'.utf8Size + '\n'.utf8Size := rfl
      rw [feed, lineEnd_length, ← Nat.add_assoc] at next
      cases skip with
      | zero =>
        rw [List.take_zero, withReturns_nil, List.length_nil, matchesFrom_withReturns_lineFeed blind lineEnd,
          matchesFrom, lineEnd]
        exact next 0
      | succ skip =>
        rw [List.take_succ_cons, withReturns_lineFeed, withReturns_lineFeed, List.length_cons, List.length_cons]
        exact next skip
    · have one : byteLength [c] = c.utf8Size := rfl
      rw [withReturns_cons hc, withReturns_nil, one] at next
      cases skip with
      | succ skip =>
        rw [List.take_succ_cons, withReturns_cons hc, withReturns_cons hc, List.length_cons]
        exact next skip
      | zero =>
        have read := blind (c :: cs)
        rw [withReturns_cons hc] at read ⊢
        rw [List.take_zero, withReturns_nil, List.length_nil]
        cases hp : pattern (c :: cs) with
        | none =>
          rw [hp] at read
          rw [matchesFrom, matchesFrom, hp, read]
          exact next 0
        | some found =>
          obtain ⟨value, rest⟩ := found
          obtain ⟨found, rfl⟩ := takes.exists_cons hp
          have behind := next found.length
          rw [hp, withReturns_append] at read
          rw [List.take_left, withReturns_append] at behind
          rw [matchesFrom_of_eq_some hp, withReturns_append, matchesFrom_of_eq_some read, ← withReturns_cons hc]
          exact .cons (Match.corresponds_of_append h value) behind

end

/-- Along a text with returns, a pattern that never begins at a line end has the matches that it has in the text. -/
theorem allMatches_withReturns {pattern : Pattern α} (takes : Takes pattern) (blind : IsBlindTo change pattern)
    (lineEnd : ∀ cs, pattern ('\n' :: cs) = none) (text : List Char) :
    List.Forall₂ (Match.Corresponds text change) (allMatches pattern text) (allMatches pattern (withReturns text)) :=
  @matchesFrom_withReturns α change pattern blind lineEnd takes text [] text rfl 0

end SpecCoverage.Text
