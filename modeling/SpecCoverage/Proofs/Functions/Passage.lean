import SpecCoverage.Proofs.Functions.DocComment

/-!
# What the search for a doc comment passes over

The search goes back from the place where a function starts.  Each step leaves less text, so that the search ends
(`exists_stepsBack?`), and each step passes over blanks, a modifier that is a word of its own, or what a line has from its
start up to the search, if that is a line comment (`IsPassed.stepBack`).  So all that lies between a comment that is found
and the function has been passed over in one of these ways (`exists_isPassed_settle`), and the comment is a whole one,
from its only opening on (`isBlock_of_ofReversed?`).
-/

namespace SpecCoverage.Functions

open Text

/-! ## Steps -/

/-- The text that is left after some number of steps back. -/
def stepsBack? : Nat → List Char → Option (List Char)
  | 0, reversed => some reversed
  | n + 1, reversed => (stepBack? reversed).bind (stepsBack? n)

/-- After at most as many steps as there are characters, no step is possible any more. -/
theorem exists_stepsBack? (reversed : List Char) :
    ∃ n ≤ reversed.length, ∃ last, stepsBack? n reversed = some last ∧ stepBack? last = none ∧
      settle reversed = trimStart last := by
  fun_induction settle reversed with
  | case1 reversed rest step ih =>
    obtain ⟨n, le, last, steps, ends, settled⟩ := ih
    have shorter : rest.length < reversed.length := length_stepBack step
    refine ⟨n + 1, by omega, last, ?_, ends, settled⟩
    rw [stepsBack?, step, Option.bind_some, steps]
  | case2 reversed step => exact ⟨0, Nat.zero_le _, reversed, rfl, step, rfl⟩

private theorem settle_of_stepsBack? {n : Nat} {reversed last : List Char} (h : stepsBack? n reversed = some last)
    (ends : stepBack? last = none) : settle reversed = trimStart last := by
  induction n generalizing reversed with
  | zero =>
    cases h
    exact settle_of_eq_none ends
  | succ n ih =>
    obtain ⟨rest, step, h⟩ := Option.bind_eq_some_iff.1 h
    rw [settle_of_eq_some step, ih h]

private theorem exists_append_trimStart (reversed : List Char) :
    ∃ blanks, (∀ c ∈ blanks, isBlank c = true) ∧ reversed.reverse = (trimStart reversed).reverse ++ blanks := by
  obtain ⟨blanks, blank, split⟩ := exists_of_dropWhile_eq (rfl : reversed.dropWhile isBlank = _)
  refine ⟨blanks.reverse, fun c hc => blank c (List.mem_reverse.1 hc), ?_⟩
  rw [trimStart, ← List.reverse_append, ← split]

/-- What is left of a text without its last line consists of whole lines. -/
theorem isWhole_reverse_dropWhile (cs : List Char) : IsWhole (cs.dropWhile (· ≠ '\n')).reverse := by
  have stop := List.head?_dropWhile_not (fun c : Char => decide (c ≠ '\n')) cs
  cases h : cs.dropWhile (fun c => decide (c ≠ '\n')) with
  | nil => exact .inl rfl
  | cons c rest =>
    rw [h] at stop
    refine .inr ?_
    rw [List.getLast?_reverse]
    simpa using stop

/-- The last line of a text that ends in a line comment. -/
theorem exists_of_endsInLineComment {cs : List Char} (h : endsInLineComment cs = true) :
    ∃ blanks text, (∀ c ∈ blanks, isBlank c = true) ∧ '\n' ∉ blanks ++ text ∧
      (cs.takeWhile (· ≠ '\n')).reverse = blanks ++ '/' :: '/' :: text := by
  obtain ⟨text, hline⟩ := List.isPrefixOf_iff_prefix.1 h
  obtain ⟨blanks, blank, split⟩ := exists_of_dropWhile_eq hline.symm
  refine ⟨blanks, text, blank, fun mem => ?_, split⟩
  have within : '\n' ∈ (cs.takeWhile (· ≠ '\n')).reverse := by
    rw [split]
    rcases List.mem_append.1 mem with mem | mem
    · exact List.mem_append_left _ mem
    · exact List.mem_append_right _ (List.mem_append_right _ mem)
  have stops := List.all_eq_true.1 List.all_takeWhile _ (List.mem_reverse.1 within)
  simp at stops

/-- What one step passes over behind some text: a modifier that does not continue an identifier, or a line comment together
with the start of its line. -/
inductive IsPiece (front : List Char) : List Char → Prop
  | modifier {word : String} : word ∈ modifierWords → (∀ c ∈ front.getLast?, isIdentifierChar c = false) →
      IsPiece front word.toList
  | lineComment {blanks text : List Char} : IsWhole front → (∀ c ∈ blanks, isBlank c = true) → '\n' ∉ blanks ++ text →
      IsPiece front (blanks ++ '/' :: '/' :: text)

theorem exists_isPiece_of_stepBack? {reversed rest : List Char} (step : stepBack? reversed = some rest) :
    ∃ piece blanks, IsPiece rest.reverse piece ∧ (∀ c ∈ blanks, isBlank c = true) ∧
      reversed.reverse = rest.reverse ++ (piece ++ blanks) := by
  obtain ⟨blanks, blank, hblanks⟩ := exists_append_trimStart reversed
  unfold stepBack? at step
  dsimp only at step
  split at step
  · next found =>
    rw [step] at found
    obtain ⟨word, mem, hword, boundary⟩ := behindModifier?_eq_some found
    have alone : ∀ c ∈ rest.reverse.getLast?, isIdentifierChar c = false := by
      rw [List.getLast?_reverse]
      intro c hc
      rw [Option.mem_def.1 hc] at boundary
      simpa using boundary
    refine ⟨word.toList, blanks, .modifier mem alone, blank, ?_⟩
    rw [hblanks, hword, List.reverse_append, List.reverse_reverse, List.append_assoc]
  · rw [Option.ite_none_right_eq_some, Option.some.injEq] at step
    obtain ⟨line, rfl⟩ := step
    obtain ⟨indent, text, hindent, noFeed, hline⟩ := exists_of_endsInLineComment line
    refine ⟨_, blanks, .lineComment (isWhole_reverse_dropWhile _) hindent noFeed, blank, ?_⟩
    have parts := @List.takeWhile_append_dropWhile _ (fun c => decide (c ≠ '\n')) (trimStart reversed)
    rw [hblanks]
    conv => lhs; rw [← parts, List.reverse_append, hline]
    simp

/-! ## What is passed over -/

/-- What a search may have passed over between some text and the place where it began: blanks, modifiers that do not
continue an identifier, and line comments together with the start of their line. -/
inductive IsPassed (front : List Char) : List Char → Prop
  | nil : IsPassed front []
  | blank {passed : List Char} {c : Char} : IsPassed front passed → isBlank c = true → IsPassed front (passed ++ [c])
  | modifier {passed : List Char} {word : String} : IsPassed front passed → word ∈ modifierWords →
      (∀ c ∈ (front ++ passed).getLast?, isIdentifierChar c = false) → IsPassed front (passed ++ word.toList)
  | lineComment {passed blanks text : List Char} : IsPassed front passed → IsWhole (front ++ passed) →
      (∀ c ∈ blanks, isBlank c = true) → '\n' ∉ blanks ++ text →
      IsPassed front (passed ++ (blanks ++ '/' :: '/' :: text))

theorem append_blanks {P : List Char → Prop} (step : ∀ {cs : List Char} {c : Char}, P cs → isBlank c = true → P (cs ++ [c]))
    {cs blanks : List Char} (h : P cs) (blank : ∀ c ∈ blanks, isBlank c = true) : P (cs ++ blanks) := by
  induction blanks generalizing cs with
  | nil => rwa [List.append_nil]
  | cons c blanks ih =>
    obtain ⟨here, behind⟩ := List.forall_mem_cons.1 blank
    have longer := ih (step h here) behind
    rwa [List.append_assoc, List.singleton_append] at longer

section

variable {front passed : List Char}

theorem IsPassed.blanks (h : IsPassed front passed) {blanks : List Char} (blank : ∀ c ∈ blanks, isBlank c = true) :
    IsPassed front (passed ++ blanks) :=
  append_blanks .blank h blank

/-- What one step has passed over, with all that the steps behind it pass over. -/
theorem IsPassed.stepBack {reversed rest : List Char} (step : stepBack? reversed = some rest)
    (split : rest.reverse = front ++ passed) (h : IsPassed front passed) :
    ∃ more, reversed.reverse = front ++ (passed ++ more) ∧ IsPassed front (passed ++ more) := by
  obtain ⟨piece, blanks, isPiece, blank, text⟩ := exists_isPiece_of_stepBack? step
  rw [split] at isPiece
  refine ⟨piece ++ blanks, by rw [text, split, List.append_assoc], ?_⟩
  rw [← List.append_assoc]
  cases isPiece with
  | modifier mem alone => exact (h.modifier mem alone).blanks blank
  | lineComment whole hindent noFeed => exact (h.lineComment whole hindent noFeed).blanks blank

end

/-- All that lies between the text that is left and the place where the search began has been passed over. -/
theorem exists_isPassed_settle (reversed : List Char) :
    ∃ passed, reversed.reverse = (settle reversed).reverse ++ passed ∧ IsPassed (settle reversed).reverse passed := by
  fun_induction settle reversed with
  | case1 reversed rest step ih =>
    obtain ⟨passed, split, isPassed⟩ := ih
    obtain ⟨more, split, isPassed⟩ := isPassed.stepBack step split
    exact ⟨passed ++ more, split, isPassed⟩
  | case2 reversed step =>
    obtain ⟨blanks, blank, split⟩ := exists_append_trimStart reversed
    exact ⟨blanks, split, IsPassed.nil.blanks blank⟩

/-! ## The comment -/

/-- A whole doc comment: it begins with its only opening and ends with a closing behind that. -/
structure IsBlock (text : List Char) : Prop where
  opens : "/**".toList <+: text
  closes : "*/".toList <:+ text
  long : 5 ≤ byteLength text
  once : ∀ a b, text = a ++ ("/*".toList ++ b) → a = []

namespace DocComment

theorem isBlock_of_ofReversed? {reversed : List Char} {d : DocComment} (h : ofReversed? reversed = some d) :
    IsBlock d.text ∧ ∃ front, reversed.reverse = front ++ d.text := by
  unfold ofReversed? at h
  split at h
  · next tail =>
    split at h
    · next block found =>
      rw [Option.ite_none_right_eq_some, Option.some.injEq, Bool.and_eq_true, decide_eq_true_eq] at h
      obtain ⟨⟨opens, long⟩, rfl⟩ := h
      obtain ⟨inner, front, split, same, last⟩ := blockFrom_eq_some found
      rw [List.append_nil] at same
      have opens := List.isPrefixOf_iff_prefix.1 opens
      refine ⟨⟨opens, ?_, long, ?_⟩, front.reverse, ?_⟩
      · -- the closing stands behind the opening, since a star does
        rcases inner with _ | ⟨c, _ | ⟨d, inner⟩⟩
        · cases split
        · obtain ⟨rfl, -⟩ := List.cons_eq_cons.1 split
          rw [same] at opens
          exact absurd opens (by decide)
        · obtain ⟨rfl, behind⟩ := List.cons_eq_cons.1 split
          obtain ⟨rfl, -⟩ := List.cons_eq_cons.1 behind
          exact ⟨'/' :: '*' :: inner.reverse, by simp [same]⟩
      · intro a b hblock
        refine Classical.byContradiction fun hne => last ?_
        obtain ⟨first, others, rfl⟩ := List.exists_cons_of_ne_nil hne
        rw [same] at hblock
        have reversed := congrArg List.reverse hblock
        have ends : inner ++ ['*'] ++ ['/'] = b.reverse ++ (['*', '/'] ++ others.reverse) ++ [first] := by
          simpa using reversed
        obtain ⟨inside, -⟩ := List.append_inj' ends rfl
        exact ⟨b.reverse, others.reverse, by rw [inside, List.append_assoc]⟩
      · rw [split, same]
        simp
    · cases h
  · cases h

/-- The search for the comment in front of a place ends.  If it finds one, that is a whole doc comment, and between it and
the place the search has passed over blanks, modifiers that are words of their own and line comments that begin their
lines only. -/
theorem preceding?_passesOver (source : List Char) (position : Nat) :
    (∀ head, takeBytes? position source = some head →
      ∃ n ≤ head.length, ∃ last, stepsBack? n head.reverse = some last ∧ stepBack? last = none ∧
        preceding? source position = ofReversed? (trimStart last)) ∧
    ∀ d, preceding? source position = some d →
      IsBlock d.text ∧ ∃ front passed rest, source = front ++ d.text ++ passed ++ rest ∧
        position = byteLength (front ++ d.text ++ passed) ∧ IsPassed (front ++ d.text) passed := by
  constructor
  · intro head cut
    obtain ⟨n, le, last, steps, ends, settled⟩ := exists_stepsBack? head.reverse
    rw [List.length_reverse] at le
    exact ⟨n, le, last, steps, ends, by rw [preceding?, cut, Option.bind_some, settled]⟩
  · intro d found
    obtain ⟨head, cut, read⟩ := Option.bind_eq_some_iff.1 found
    obtain ⟨rest, rfl, rfl⟩ := exists_of_takeBytes? cut
    obtain ⟨isBlock, front, hfront⟩ := isBlock_of_ofReversed? read
    obtain ⟨passed, split, isPassed⟩ := exists_isPassed_settle head.reverse
    rw [List.reverse_reverse, hfront] at split
    rw [hfront] at isPassed
    exact ⟨isBlock, front, passed, rest, by rw [split], by rw [split], isPassed⟩

/-- Four steps lead back to the comment: over two modifiers, over the last word of a line comment, and over that line. -/
theorem preceding?_passesOver_add :
    ∃ d, preceding? "/** Adds. */\n// for export\nexport async function add(a, b) \x7b\x7d".toList 40 = some d ∧
      IsBlock d.text ∧ ∃ front passed rest,
        "/** Adds. */\n// for export\nexport async function add(a, b) \x7b\x7d".toList
            = front ++ d.text ++ passed ++ rest ∧
          40 = byteLength (front ++ d.text ++ passed) ∧ IsPassed (front ++ d.text) passed := by
  have cut : takeBytes? 40 "/** Adds. */\n// for export\nexport async function add(a, b) \x7b\x7d".toList
      = some "/** Adds. */\n// for export\nexport async ".toList := by decide +kernel
  have steps : stepsBack? 4 "/** Adds. */\n// for export\nexport async ".toList.reverse
      = some "/** Adds. */\n".toList.reverse := by decide +kernel
  have found : preceding? "/** Adds. */\n// for export\nexport async function add(a, b) \x7b\x7d".toList 40
      = some ⟨"/** Adds. */".toList⟩ := by
    rw [preceding?, cut, Option.bind_some, settle_of_stepsBack? steps (by decide +kernel)]
    decide +kernel
  exact ⟨_, found, (preceding?_passesOver _ 40).2 _ found⟩

end DocComment

end SpecCoverage.Functions
