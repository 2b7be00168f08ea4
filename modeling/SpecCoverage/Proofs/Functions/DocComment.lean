import Mathlib.Data.List.DropRight
import Mathlib.Data.List.Infix
import SpecCoverage.Functions.DocComment
import SpecCoverage.Proofs.Text.LineBound

/-!
# Which doc comment is found

The search for a doc comment steps back over the gap between the comment and the function (`settle`), and then takes
what stands behind the last opening of a comment.  Gaps are made of blanks, modifiers and line comments (`IsGap`):

* (steps) blanks and modifiers are stepped over (`settle_of_isBlank`, `settle_modifier`); a line comment is stepped over
  with its whole line, if the line begins with it, and otherwise the search gets stuck in it (`settle_lineComment`);
* (gaps) so a gap is stepped over exactly if each line comment in it begins its line (`settle_gap`,
  `isGap_of_settle_eq`);
* (comments) the comment in front of the gap is found if its last line is no line comment and no opening stands in its
  body (`IsSeen`).
-/

namespace SpecCoverage.Functions

open Text

/-! ## Single steps -/

theorem settle_of_eq_some {reversed rest : List Char} (h : stepBack? reversed = some rest) :
    settle reversed = settle rest := by
  rw [settle]
  split
  · next found => rw [Option.some.inj (found.symm.trans h)]
  · next none => rw [none] at h; cases h

theorem settle_of_eq_none {reversed : List Char} (h : stepBack? reversed = none) :
    settle reversed = trimStart reversed := by
  rw [settle]
  split
  · next found => rw [found] at h; cases h
  · rfl

/-- Only what is left without the blanks at the end matters. -/
private theorem settle_congr {x y : List Char} (h : trimStart x = trimStart y) : settle x = settle y := by
  have same : stepBack? x = stepBack? y := by rw [stepBack?, h, stepBack?]
  cases step : stepBack? y with
  | some rest => rw [settle_of_eq_some (same.trans step), settle_of_eq_some step]
  | none => rw [settle_of_eq_none (same.trans step), settle_of_eq_none step, h]

theorem settle_of_isBlank {blanks : List Char} (h : ∀ c ∈ blanks, isBlank c = true) (x : List Char) :
    settle (blanks ++ x) = settle x :=
  settle_congr (List.dropWhile_append_of_pos h)

theorem behindModifier?_eq_some {cs rest : List Char} (h : behindModifier? cs = some rest) :
    ∃ word ∈ modifierWords, cs = word.toList.reverse ++ rest ∧ rest.head?.any isIdentifierChar = false := by
  obtain ⟨word, mem, h⟩ := List.exists_of_findSome?_eq_some h
  obtain ⟨h, boundary⟩ := Option.filter_eq_some_iff.1 h
  exact ⟨word, mem, behind?_eq_some h, by simpa using boundary⟩

private theorem stepBack?_suffix {cs rest : List Char} (h : stepBack? cs = some rest) : rest <:+ cs := by
  have trimmed : trimStart cs <:+ cs := List.dropWhile_suffix _
  unfold stepBack? at h
  dsimp only at h
  split at h
  · next found =>
    obtain rfl := Option.some.inj h
    obtain ⟨word, -, split, -⟩ := behindModifier?_eq_some found
    exact ((List.suffix_append word.toList.reverse _).trans (split ▸ List.suffix_refl _)).trans trimmed
  · rw [Option.ite_none_right_eq_some, Option.some.injEq] at h
    rw [← h.2]
    exact (List.dropWhile_suffix _).trans trimmed

theorem settle_suffix (x : List Char) : settle x <:+ x := by
  fun_induction settle x with
  | case1 x rest step ih => exact ih.trans (stepBack?_suffix step)
  | case2 x step => exact List.dropWhile_suffix _

private theorem stepBack?_settle (x : List Char) : stepBack? (settle x) = none := by
  fun_induction settle x with
  | case1 x rest step ih => exact ih
  | case2 x step =>
    have idem : trimStart (trimStart x) = trimStart x := List.dropWhile_idempotent isBlank x
    rwa [stepBack?, idem]

/-! ## Modifiers -/

theorem isIdentifierChar_of_isBlank {c : Char} (h : isBlank c = true) : isIdentifierChar c = false :=
  eq_false_of_isBlank (by decide +kernel) h

theorem isIdentifierChar_of_mem_modifierWords :
    ∀ word ∈ modifierWords, ∀ c ∈ word.toList, isIdentifierChar c = true := by
  have all : modifierWords.all (fun word => word.toList.all isIdentifierChar) = true := by decide +kernel
  exact fun word mem => List.all_eq_true.1 (List.all_eq_true.1 all word mem)

private theorem not_mem_of_mem_modifierWords {word : String} (h : word ∈ modifierWords) {c : Char}
    (hc : isIdentifierChar c = false) : c ∉ word.toList.reverse := by
  intro mem
  rw [isIdentifierChar_of_mem_modifierWords word h c (List.mem_reverse.1 mem)] at hc
  cases hc

/-- A modifier that is found is the whole word in front of it. -/
theorem eq_dropWhile_of_behindModifier? {cs rest : List Char} (h : behindModifier? cs = some rest) :
    rest = cs.dropWhile isIdentifierChar := by
  obtain ⟨word, mem, rfl, boundary⟩ := behindModifier?_eq_some h
  have inWord : ∀ c ∈ word.toList.reverse, isIdentifierChar c = true := fun c hc =>
    isIdentifierChar_of_mem_modifierWords word mem c (List.mem_reverse.1 hc)
  rw [List.dropWhile_append_of_pos inWord]
  cases rest with
  | nil => rfl
  | cons c rest => rw [List.dropWhile_cons_of_neg (by simpa using boundary)]

theorem behindModifier?_concat_eq_none (front : List Char) {c : Char} (h : isIdentifierChar c = false) :
    behindModifier? (front ++ [c]).reverse = none := by
  refine Option.eq_none_iff_forall_not_mem.2 fun rest found => ?_
  obtain ⟨word, mem, split, -⟩ := behindModifier?_eq_some found
  obtain ⟨d, letters, hd⟩ := List.exists_cons_of_ne_nil (List.ne_nil_of_length_pos (modifierWords_nonempty word mem))
  rw [List.reverse_concat, hd, List.cons_append] at split
  obtain ⟨rfl, -⟩ := List.cons_eq_cons.1 split
  refine not_mem_of_mem_modifierWords mem h ?_
  rw [hd]
  exact List.mem_cons_self

theorem settle_modifier {word : String} (mem : word ∈ modifierWords) {x : List Char}
    (boundary : x.head?.any isIdentifierChar = false) : settle (word.toList.reverse ++ x) = settle x := by
  have inWord : ∀ c ∈ word.toList.reverse, isIdentifierChar c = true := fun c hc =>
    isIdentifierChar_of_mem_modifierWords word mem c (List.mem_reverse.1 hc)
  have visible : trimStart (word.toList.reverse ++ x) = word.toList.reverse ++ x := by
    have some : word.toList.reverse ≠ [] := List.ne_nil_of_length_pos (modifierWords_nonempty word mem)
    obtain ⟨c, rest, e⟩ := List.exists_cons_of_ne_nil some
    have hc : isIdentifierChar c = true := inWord c (by rw [e]; exact List.mem_cons_self)
    rw [e, List.cons_append, trimStart, List.dropWhile_cons_of_neg]
    intro blank
    rw [isIdentifierChar_of_isBlank blank] at hc
    cases hc
  have found : (behindModifier? (word.toList.reverse ++ x)).isSome = true := by
    rw [behindModifier?, List.findSome?_isSome_iff]
    refine ⟨word, mem, ?_⟩
    rw [behind?_eq_some_iff.2 rfl, Option.filter_some, boundary]
    rfl
  obtain ⟨rest, found⟩ := Option.isSome_iff_exists.1 found
  have whole : rest = x := by
    rw [eq_dropWhile_of_behindModifier? found, List.dropWhile_append_of_pos inWord]
    cases x with
    | nil => rfl
    | cons c x => rw [List.dropWhile_cons_of_neg (by simpa using boundary)]
  refine settle_of_eq_some ?_
  unfold stepBack?
  dsimp only
  rw [visible, found, whole]

theorem settle_append_modifier {front : List Char} {word : String} (mem : word ∈ modifierWords)
    (alone : ∀ c ∈ front.getLast?, isIdentifierChar c = false) :
    settle (front ++ word.toList).reverse = settle front.reverse := by
  have boundary : front.reverse.head?.any isIdentifierChar = false := by
    rw [List.head?_reverse]
    cases last : front.getLast? with
    | none => rfl
    | some c => exact alone c last
  rw [List.reverse_append, settle_modifier mem boundary]

/-! ## Line comments -/

theorem trimStart_append_cons (front : List Char) {c : Char} (h : isBlank c = false) (rest : List Char) :
    trimStart (front ++ c :: rest) = trimStart front ++ c :: rest := by
  unfold trimStart
  rw [List.dropWhile_append]
  split
  · next blank =>
    rw [List.isEmpty_iff.1 blank, List.dropWhile_cons_of_neg (by simp [h])]
    rfl
  · rfl

private theorem inLine_of_not_mem {t : List Char} (noFeed : '\n' ∉ t) :
    ∀ c ∈ t ++ ['/', '/'], decide (c ≠ '\n') = true :=
  forall_ne_of_not_mem fun mem => (List.mem_append.1 mem).elim noFeed (by decide)

/-- Whether the last line is a line comment does not depend on what stands behind two slashes, but on the text in front
of them. -/
private theorem endsInLineComment_append {t : List Char} (noFeed : '\n' ∉ t) (x : List Char) :
    endsInLineComment (t ++ '/' :: '/' :: x)
      = ['/', '/'].isPrefixOf (trimStart (x.takeWhile (· ≠ '\n')).reverse ++ ['/', '/']) := by
  have line : (t ++ '/' :: '/' :: x).takeWhile (· ≠ '\n') = t ++ '/' :: '/' :: x.takeWhile (· ≠ '\n') := by
    have split : t ++ '/' :: '/' :: x = t ++ ['/', '/'] ++ x := by simp
    rw [split, List.takeWhile_append_of_pos (inLine_of_not_mem noFeed)]
    simp
  have reversed : (t ++ '/' :: '/' :: x.takeWhile (· ≠ '\n')).reverse
      = (x.takeWhile (· ≠ '\n')).reverse ++ '/' :: '/' :: t.reverse := by simp
  unfold endsInLineComment
  rw [line, reversed, trimStart_append_cons _ rfl, show "//".toList = ['/', '/'] from rfl]
  rcases trimStart (x.takeWhile (· ≠ '\n')).reverse with _ | ⟨c, _ | ⟨d, rest⟩⟩ <;> simp [List.isPrefixOf]

private theorem endsInLineComment_slashes (x : List Char) : endsInLineComment ('/' :: '/' :: x)
    = ['/', '/'].isPrefixOf (trimStart (x.takeWhile (· ≠ '\n')).reverse ++ ['/', '/']) :=
  endsInLineComment_append (t := []) (by simp) x

/-- A modifier at the end of a line comment stands behind the two slashes, as words have none. -/
private theorem exists_shorter_of_behindModifier? {t x rest : List Char}
    (found : behindModifier? (trimStart (t ++ '/' :: '/' :: x)) = some rest) :
    ∃ t', rest = t' ++ '/' :: '/' :: x ∧ t'.length < t.length ∧ t' ⊆ t := by
  rw [trimStart_append_cons t rfl] at found
  obtain ⟨word, mem, split, -⟩ := behindModifier?_eq_some found
  have noSlash : '/' ∉ word.toList.reverse := not_mem_of_mem_modifierWords mem (by decide)
  obtain ⟨t', ht, rfl⟩ := exists_append_of_not_mem split noSlash
  have trimmed : trimStart t <:+ t := List.dropWhile_suffix _
  refine ⟨t', rfl, ?_, fun c hc => trimmed.subset (ht ▸ List.mem_append_right _ hc)⟩
  have shorter := trimmed.length_le
  have := modifierWords_nonempty word mem
  rw [ht, List.length_append] at shorter
  omega

/-- Without a modifier at the end, the step over a line comment goes to the front of its line, or there is none. -/
private theorem stepBack?_lineComment {t x : List Char} (noFeed : '\n' ∉ t)
    (noModifier : behindModifier? (trimStart (t ++ '/' :: '/' :: x)) = none) :
    stepBack? (t ++ '/' :: '/' :: x)
      = if endsInLineComment ('/' :: '/' :: x) then some (x.dropWhile (· ≠ '\n')) else none := by
  have noFeed' : '\n' ∉ trimStart t := fun mem => noFeed ((List.dropWhile_sublist _).subset mem)
  have dropped : (trimStart t ++ '/' :: '/' :: x).dropWhile (· ≠ '\n') = x.dropWhile (· ≠ '\n') := by
    have split : trimStart t ++ '/' :: '/' :: x = trimStart t ++ ['/', '/'] ++ x := by simp
    rw [split, List.dropWhile_append_of_pos (inLine_of_not_mem noFeed')]
  rw [endsInLineComment_slashes, ← endsInLineComment_append noFeed' x, ← dropped]
  unfold stepBack?
  dsimp only
  rw [noModifier, trimStart_append_cons t rfl]

/-- The search goes over a line comment, and then over its whole line, if the line begins with one; else it stops in the
comment. -/
theorem settle_lineComment {t x : List Char} (noFeed : '\n' ∉ t) :
    (endsInLineComment ('/' :: '/' :: x) = true →
      settle (t ++ '/' :: '/' :: x) = settle (x.dropWhile (· ≠ '\n'))) ∧
    (endsInLineComment ('/' :: '/' :: x) = false →
      ∃ front, settle (t ++ '/' :: '/' :: x) = front ++ '/' :: '/' :: x) := by
  -- the comment gets shorter with each modifier that is found at its end, up to the two slashes
  induction h : t.length using Nat.strong_induction_on generalizing t with
  | _ n ih =>
    cases found : behindModifier? (trimStart (t ++ '/' :: '/' :: x)) with
    | some rest =>
      obtain ⟨t', rfl, shorter, within⟩ := exists_shorter_of_behindModifier? found
      have step : stepBack? (t ++ '/' :: '/' :: x) = some (t' ++ '/' :: '/' :: x) := by
        unfold stepBack?
        dsimp only
        rw [found]
      rw [settle_of_eq_some step]
      exact ih _ (h ▸ shorter) (fun mem => noFeed (within mem)) rfl
    | none =>
      have step := stepBack?_lineComment noFeed found
      constructor
      · intro whole
        rw [whole, if_pos rfl] at step
        exact settle_of_eq_some step
      · intro stuck
        rw [stuck, if_neg (by simp)] at step
        exact ⟨trimStart t, by rw [settle_of_eq_none step, trimStart_append_cons t rfl]⟩

/-- A line comment with nothing but blanks in front of it is stepped over. -/
theorem settle_openingLineComment {t x : List Char} (noFeed : '\n' ∉ t)
    (blank : ∀ c ∈ x.takeWhile (· ≠ '\n'), isBlank c = true) : settle (t ++ '/' :: '/' :: x) = settle x := by
  have gone : trimStart (x.takeWhile (· ≠ '\n')).reverse = [] := by
    rw [trimStart, List.dropWhile_eq_nil_iff]
    exact fun c hc => blank c (List.mem_reverse.1 hc)
  have opens : endsInLineComment ('/' :: '/' :: x) = true := by
    rw [endsInLineComment_slashes, gone]
    rfl
  have whole : x.takeWhile (· ≠ '\n') ++ x.dropWhile (· ≠ '\n') = x := List.takeWhile_append_dropWhile
  calc settle (t ++ '/' :: '/' :: x) = settle (x.dropWhile (· ≠ '\n')) := (settle_lineComment noFeed).1 opens
    _ = settle (x.takeWhile (· ≠ '\n') ++ x.dropWhile (· ≠ '\n')) := (settle_of_isBlank blank _).symm
    _ = settle x := by rw [whole]

private theorem isBlank_of_endsInLineComment {x : List Char} (noSlash : '/' ∉ x.takeWhile (· ≠ '\n'))
    (h : endsInLineComment ('/' :: '/' :: x) = true) : ∀ c ∈ x.takeWhile (· ≠ '\n'), isBlank c = true := by
  rw [endsInLineComment_slashes] at h
  cases front : trimStart (x.takeWhile (· ≠ '\n')).reverse with
  | nil =>
    intro c hc
    exact List.dropWhile_eq_nil_iff.1 front c (List.mem_reverse.2 hc)
  | cons c rest =>
    rw [front] at h
    have slash : '/' = c := (List.cons_prefix_cons.1 (List.isPrefixOf_iff_prefix.1 h)).1
    have mem : c ∈ trimStart (x.takeWhile (· ≠ '\n')).reverse := by rw [front]; exact List.mem_cons_self
    rw [← slash] at mem
    exact absurd (List.mem_reverse.1 ((List.dropWhile_sublist _).subset mem)) noSlash

/-! ## Gaps -/

/-- What may stand between a comment and what it documents: blanks, modifiers that are words of their own, and line
comments where `mayComment` holds of what stands in front of them. -/
inductive IsGap (mayComment : List Char → Prop) : List Char → Prop
  | nil : IsGap mayComment []
  | blank {gap : List Char} {c : Char} : IsGap mayComment gap → isBlank c = true → IsGap mayComment (gap ++ [c])
  | modifier {gap : List Char} {word : String} : IsGap mayComment gap → gap.getLast?.all isBlank = true →
      word ∈ modifierWords → IsGap mayComment (gap ++ word.toList)
  | lineComment {gap text : List Char} : IsGap mayComment gap → mayComment gap → '\n' ∉ text →
      IsGap mayComment (gap ++ '/' :: '/' :: (text ++ ['\n']))

theorem IsGap.mono {P Q : List Char → Prop} (imp : ∀ front, P front → Q front) {gap : List Char} (h : IsGap P gap) :
    IsGap Q gap := by
  induction h with
  | nil => exact .nil
  | blank _ blank ih => exact .blank ih blank
  | modifier _ blank mem ih => exact .modifier ih blank mem
  | lineComment _ may noFeed ih => exact .lineComment ih (imp _ may) noFeed

/-- Behind the last line feed of a text there are only blanks. -/
structure OpensLine (cs : List Char) : Prop where
  lineFeed : '\n' ∈ cs
  blank : ∀ c ∈ cs.reverse.takeWhile (· ≠ '\n'), isBlank c = true

/-- Line comments end with their line, so that there is no slash behind the last line feed. -/
theorem IsGap.slash_not_mem {mayComment : List Char → Prop} {gap : List Char} (h : IsGap mayComment gap) :
    '/' ∉ gap.reverse.takeWhile (· ≠ '\n') := by
  induction h with
  | nil => simp
  | @blank gap c _ blank ih =>
    rw [List.reverse_append, List.reverse_singleton, List.singleton_append, List.takeWhile_cons]
    split
    · refine List.not_mem_cons_of_ne_of_not_mem ?_ ih
      rintro rfl
      cases blank
    · simp
  | @modifier gap word _ _ mem ih =>
    have noSlash : '/' ∉ word.toList.reverse := not_mem_of_mem_modifierWords mem (by decide)
    have noFeed : '\n' ∉ word.toList.reverse := not_mem_of_mem_modifierWords mem (by decide)
    rw [List.reverse_append, List.takeWhile_append_of_pos (forall_ne_of_not_mem noFeed), List.mem_append, not_or]
    exact ⟨noSlash, ih⟩
  | lineComment => simp

theorem settle_reverse_blank (front gap : List Char) {c : Char} (blank : isBlank c = true) :
    settle (front ++ (gap ++ [c])).reverse = settle (front ++ gap).reverse := by
  have reversed : (front ++ (gap ++ [c])).reverse = [c] ++ (front ++ gap).reverse := by simp
  rw [reversed, settle_of_isBlank (by simpa using blank)]

private theorem settle_reverse_lineComment (front gap text : List Char) :
    settle (front ++ (gap ++ '/' :: '/' :: (text ++ ['\n']))).reverse
      = settle (text.reverse ++ '/' :: '/' :: (front ++ gap).reverse) := by
  have reversed : (front ++ (gap ++ '/' :: '/' :: (text ++ ['\n']))).reverse
      = ['\n'] ++ (text.reverse ++ '/' :: '/' :: (front ++ gap).reverse) := by simp
  rw [reversed, settle_of_isBlank (List.all_eq_true.1 rfl)]

section

variable {front : List Char} (slash : front.getLast? = some '/')
include slash

private theorem settle_reverse_modifier {gap : List Char} (blank : gap.getLast?.all isBlank = true) {word : String}
    (mem : word ∈ modifierWords) :
    settle (front ++ (gap ++ word.toList)).reverse = settle (front ++ gap).reverse := by
  rw [← List.append_assoc]
  refine settle_append_modifier mem fun c hc => ?_
  rw [List.getLast?_append, slash] at hc
  cases last : gap.getLast? with
  | none =>
    rw [last] at hc
    obtain rfl : '/' = c := Option.some.inj hc
    decide
  | some d =>
    rw [last] at blank hc
    obtain rfl : d = c := Option.some.inj hc
    exact isIdentifierChar_of_isBlank blank

/-- The search steps over a gap whose line comments begin their lines. -/
theorem settle_gap {gap : List Char} (h : IsGap OpensLine gap) :
    settle (front ++ gap).reverse = settle front.reverse := by
  induction h with
  | nil => rw [List.append_nil]
  | @blank gap c _ blank ih =>
    rw [settle_reverse_blank front gap blank, ih]
  | @modifier gap word _ blank mem ih => rw [settle_reverse_modifier slash blank mem, ih]
  | @lineComment gap text _ opens noFeed ih =>
    have blank : ∀ c ∈ (front ++ gap).reverse.takeWhile (· ≠ '\n'), isBlank c = true := by
      rw [List.reverse_append, takeWhile_append_of_stop (by decide) (List.mem_reverse.2 opens.lineFeed)]
      exact opens.blank
    rw [settle_reverse_lineComment, settle_openingLineComment (by simpa using noFeed) blank, ih]

/-- If the search goes over a whole line and stops behind some text, then the line begins behind that text. -/
private theorem lineFeed_mem_of_settle_eq {gap : List Char}
    (settled : settle ((front ++ gap).reverse.dropWhile (· ≠ '\n')) = front.reverse) : '\n' ∈ gap := by
  refine Classical.byContradiction fun noFeed => ?_
  have inLine := forall_ne_of_not_mem fun mem : '\n' ∈ gap.reverse => noFeed (List.mem_reverse.1 mem)
  obtain ⟨others, rfl⟩ := List.getLast?_eq_some_iff.1 slash
  have dropped : ((others ++ ['/']) ++ gap).reverse.dropWhile (· ≠ '\n') = others.reverse.dropWhile (· ≠ '\n') := by
    rw [List.reverse_append, List.dropWhile_append_of_pos inLine, List.reverse_append]
    rfl
  have shorter := (settle_suffix ((others ++ ['/'] ++ gap).reverse.dropWhile (· ≠ '\n'))).length_le
  have less := (List.dropWhile_suffix (· ≠ '\n') (l := others.reverse)).length_le
  rw [settled, dropped] at shorter
  simp only [List.length_reverse, List.length_append, List.length_singleton] at shorter less
  omega

/-- The search steps over no other gaps. -/
theorem isGap_of_settle_eq {gap : List Char} (h : IsGap (fun _ => True) gap)
    (settled : settle (front ++ gap).reverse = front.reverse) : IsGap OpensLine gap := by
  induction h with
  | nil => exact .nil
  | @blank gap c _ blank ih =>
    rw [settle_reverse_blank front gap blank] at settled
    exact .blank (ih settled) blank
  | @modifier gap word _ blank mem ih =>
    rw [settle_reverse_modifier slash blank mem] at settled
    exact .modifier (ih settled) blank mem
  | @lineComment gap text h _ noFeed ih =>
    have noFeed' : '\n' ∉ text.reverse := by simpa using noFeed
    rw [settle_reverse_lineComment] at settled
    cases line : endsInLineComment ('/' :: '/' :: (front ++ gap).reverse) with
    | false =>
      -- the search would stop in the comment
      obtain ⟨others, stuck⟩ := (settle_lineComment noFeed').2 line
      have longer := congrArg List.length (stuck.symm.trans settled)
      simp at longer
      omega
    | true =>
      rw [(settle_lineComment noFeed').1 line] at settled
      have lineFeed : '\n' ∈ gap := lineFeed_mem_of_settle_eq slash settled
      have here : (front ++ gap).reverse.takeWhile (· ≠ '\n') = gap.reverse.takeWhile (· ≠ '\n') := by
        rw [List.reverse_append, takeWhile_append_of_stop (by decide) (List.mem_reverse.2 lineFeed)]
      have blank := isBlank_of_endsInLineComment (by rw [here]; exact h.slash_not_mem) line
      refine .lineComment (ih ?_) ⟨lineFeed, by rw [← here]; exact blank⟩ noFeed
      rw [← settle_openingLineComment noFeed' blank, (settle_lineComment noFeed').1 line, settled]

end

/-! ## Comments -/

/-- The doc comment with some body. -/
def comment (body : List Char) : List Char := '/' :: '*' :: '*' :: (body ++ ['*', '/'])

private theorem getLast?_comment (front body : List Char) : (front ++ comment body).getLast? = some '/' := by
  rw [List.getLast?_eq_some_iff]
  exact ⟨front ++ '/' :: '*' :: '*' :: (body ++ ['*']), by simp [comment]⟩

/-- The comment begins at the last opening. -/
private theorem blockFrom_append {d : List Char} (last : ¬ ['*', '/'] <:+: d ++ ['*']) (behind b : List Char) :
    blockFrom behind (d ++ '*' :: '/' :: b) = some ('/' :: '*' :: (d.reverse ++ behind)) := by
  induction d generalizing behind with
  | nil => rfl
  | cons c d ih =>
    have last' : ¬ ['*', '/'] <:+: d ++ ['*'] := fun h => last (h.trans (List.suffix_cons c _).isInfix)
    have notHere : ∀ rest, c = '*' → d ++ '*' :: '/' :: b ≠ '/' :: rest := by
      rintro rest rfl split
      cases d with
      | nil => cases split
      | cons e d =>
        obtain ⟨rfl, -⟩ := List.cons_eq_cons.1 split
        exact last ⟨[], d ++ ['*'], rfl⟩
    rw [List.cons_append, blockFrom, ih last']
    · simp
    · exact notHere

theorem blockFrom_eq_some {behind cs block : List Char} (h : blockFrom behind cs = some block) :
    ∃ d b, cs = d ++ '*' :: '/' :: b ∧ block = '/' :: '*' :: (d.reverse ++ behind) ∧ ¬ ['*', '/'] <:+: d ++ ['*'] := by
  fun_induction blockFrom behind cs with
  | case1 behind b =>
    obtain rfl := Option.some.inj h
    exact ⟨[], b, rfl, rfl, by decide⟩
  | case2 behind c cs notHere ih =>
    obtain ⟨d, b, rfl, rfl, last⟩ := ih h
    refine ⟨c :: d, b, rfl, by simp, ?_⟩
    rw [List.cons_append, List.infix_cons_iff]
    rintro (here | later)
    · obtain ⟨rfl, next⟩ := List.cons_prefix_cons.1 here
      cases d with
      | nil => exact absurd next (by decide)
      | cons e d =>
        obtain ⟨rfl, -⟩ := List.cons_prefix_cons.1 next
        exact notHere _ rfl rfl
    · exact last later
  | case3 => cases h

/-- Openings in a comment behind its own one stand in the body, or are completed by the star behind it. -/
private theorem opening_infix_iff {body : List Char} :
    ['*', '/'] <:+: '/' :: '*' :: (body.reverse ++ ['*']) ++ ['*'] ↔ ['/', '*'] <:+: body ++ ['*'] := by
  have reversed : '/' :: '*' :: (body.reverse ++ ['*']) ++ ['*']
      = ('*' :: '*' :: (body ++ ['*'] ++ ['/'])).reverse := by simp
  have mark : ['*', '/'] = ['/', '*'].reverse := rfl
  rw [reversed, mark, List.reverse_infix, List.infix_cons_iff, List.infix_cons_iff, List.infix_concat_iff]
  constructor
  · rintro (h | h | h | h)
    · cases (List.cons_prefix_cons.1 h).1
    · cases (List.cons_prefix_cons.1 h).1
    · obtain ⟨front, e⟩ := h
      have last := congrArg List.getLast? e
      simp at last
    · exact h
  · exact fun h => .inr (.inr (.inr h))

/-- When the search finds the comment with some body, in front of a gap and behind some text. -/
structure IsSeen (front body gap : List Char) : Prop where
  gap : IsGap OpensLine gap
  notLineComment : endsInLineComment (front ++ comment body).reverse = false
  noOpening : ¬ ['/', '*'] <:+: body ++ ['*']

namespace DocComment

private theorem preceding?_append (head rest : List Char) :
    preceding? (head ++ rest) (byteLength head) = ofReversed? (settle head.reverse) := by
  rw [preceding?, takeBytes?_append, Option.bind_some]

private theorem ofReversed?_comment {body : List Char} (noOpening : ¬ ['/', '*'] <:+: body ++ ['*'])
    (front : List Char) :
    ofReversed? (front ++ comment body).reverse = some ⟨comment body⟩ := by
  have reversed : (front ++ comment body).reverse
      = '/' :: '*' :: (body.reverse ++ ['*'] ++ '*' :: '/' :: front.reverse) := by simp [comment]
  have block : blockFrom [] ('/' :: '*' :: (body.reverse ++ ['*'] ++ '*' :: '/' :: front.reverse))
      = some (comment body) := by
    have found := blockFrom_append (mt opening_infix_iff.1 noOpening) [] front.reverse
    rw [List.append_nil] at found
    rw [← List.cons_append, ← List.cons_append, found]
    simp [comment]
  have opening : "/**".toList.isPrefixOf (comment body) = true := rfl
  have long : 5 ≤ byteLength (comment body) := by
    simp only [comment, byteLength, byteLength_append, show '/'.utf8Size = 1 from rfl, show '*'.utf8Size = 1 from rfl]
    omega
  rw [reversed, ofReversed?, block]
  dsimp only
  rw [opening, decide_eq_true long]
  rfl

private theorem eq_some_of_ofReversed? {reversed : List Char} {d : DocComment} (h : ofReversed? reversed = some d) :
    blockFrom [] reversed = some d.text := by
  unfold ofReversed? at h
  split at h
  · split at h
    · next block found =>
      rw [Option.ite_none_right_eq_some, Option.some.injEq] at h
      rw [found, ← h.2]
    · cases h
  · cases h

private theorem trimStart_comment (front body : List Char) :
    trimStart (front ++ comment body).reverse = (front ++ comment body).reverse := by
  obtain ⟨others, e⟩ := List.getLast?_eq_some_iff.1 (getLast?_comment front body)
  rw [e, List.reverse_concat, trimStart, List.dropWhile_cons_of_neg (by decide)]

/-- At the end of a comment the search goes on only if a line comment ends there too. -/
private theorem stepBack?_comment_eq_none_iff {front body : List Char} :
    stepBack? (front ++ comment body).reverse = none ↔ endsInLineComment (front ++ comment body).reverse = false := by
  obtain ⟨others, e⟩ := List.getLast?_eq_some_iff.1 (getLast?_comment front body)
  have noModifier : behindModifier? (front ++ comment body).reverse = none := by
    rw [e]
    exact behindModifier?_concat_eq_none others (by decide)
  unfold stepBack?
  dsimp only
  rw [trimStart_comment, noModifier]
  simp

/-- The comment with some body is found behind some text and in front of a gap, if each line comment of the gap begins
its line, the comment does not end in a line comment, and there is no opening in it but its own.  It is found in no other
case, unless the same comment stands at another place too. -/
theorem preceding?_comment {front body gap : List Char} (h : IsGap (fun _ => True) gap) (rest : List Char) :
    (IsSeen front body gap →
      preceding? (front ++ comment body ++ gap ++ rest) (byteLength (front ++ comment body ++ gap))
        = some ⟨comment body⟩) ∧
    (preceding? (front ++ comment body ++ gap ++ rest) (byteLength (front ++ comment body ++ gap))
        = some ⟨comment body⟩ →
      IsSeen front body gap ∨
        ∃ a b, a ≠ front ∧ front ++ comment body ++ gap = a ++ comment body ++ b) := by
  have slash := getLast?_comment front body
  rw [preceding?_append]
  constructor
  · intro seen
    rw [settle_gap slash seen.gap, settle_of_eq_none (stepBack?_comment_eq_none_iff.2 seen.notLineComment),
      trimStart_comment, ofReversed?_comment seen.noOpening]
  · intro found
    obtain ⟨d, b, settled, same, last⟩ := blockFrom_eq_some (eq_some_of_ofReversed? found)
    rw [List.append_nil] at same
    -- the search has stopped behind some text and the comment
    have stopped : settle (front ++ comment body ++ gap).reverse = (b.reverse ++ comment body).reverse := by
      rw [settled, show comment body = '/' :: '*' :: d.reverse from same]
      simp
    by_cases here : b.reverse = front
    · left
      rw [here] at stopped
      refine ⟨isGap_of_settle_eq slash h stopped, ?_, ?_⟩
      · have settled := stepBack?_settle (front ++ comment body ++ gap).reverse
        rwa [stopped, stepBack?_comment_eq_none_iff] at settled
      · have reversed : d = '/' :: '*' :: (body.reverse ++ ['*']) := by
          have tail := congrArg (List.drop 2) same
          simp only [comment, List.drop_succ_cons, List.drop_zero] at tail
          rw [← List.reverse_reverse d, ← tail]
          simp
        rw [reversed] at last
        exact mt opening_infix_iff.2 last
    · right
      obtain ⟨skipped, split⟩ := settle_suffix (front ++ comment body ++ gap).reverse
      refine ⟨b.reverse, skipped.reverse, here, ?_⟩
      rw [stopped] at split
      have text := congrArg List.reverse split
      rw [List.reverse_append, List.reverse_reverse, List.reverse_reverse] at text
      exact text.symm

/-- A comment in front of a line comment and of two modifiers. -/
theorem preceding?_comment_exported :
    IsGap (fun _ => True) "\n// eslint-disable-next-line\nexport async ".toList ∧
      IsSeen "const a = 1;\n".toList " Adds. @returns \x7bnumber\x7d ".toList
        "\n// eslint-disable-next-line\nexport async ".toList ∧
      preceding? ("const a = 1;\n".toList ++ comment " Adds. @returns \x7bnumber\x7d ".toList
            ++ "\n// eslint-disable-next-line\nexport async ".toList ++ "function f() \x7b\x7d".toList)
          (byteLength ("const a = 1;\n".toList ++ comment " Adds. @returns \x7bnumber\x7d ".toList
            ++ "\n// eslint-disable-next-line\nexport async ".toList))
        = some ⟨comment " Adds. @returns \x7bnumber\x7d ".toList⟩ := by
  have parts : "\n// eslint-disable-next-line\nexport async ".toList
      = [] ++ ['\n'] ++ '/' :: '/' :: (" eslint-disable-next-line".toList ++ ['\n']) ++ "export".toList ++ [' ']
        ++ "async".toList ++ [' '] := by decide
  have line : IsGap OpensLine ([] ++ ['\n'] ++ '/' :: '/' :: (" eslint-disable-next-line".toList ++ ['\n'])) :=
    .lineComment (.blank .nil rfl) ⟨by decide, List.all_eq_true.1 (by decide)⟩ (by decide)
  have gap : IsGap OpensLine "\n// eslint-disable-next-line\nexport async ".toList := by
    rw [parts]
    exact .blank (.modifier (.blank (.modifier line (by decide) (by decide)) rfl) (by decide) (by decide)) rfl
  have seen : IsSeen "const a = 1;\n".toList " Adds. @returns \x7bnumber\x7d ".toList
      "\n// eslint-disable-next-line\nexport async ".toList := ⟨gap, by decide +kernel, by decide⟩
  have any : IsGap (fun _ => True) "\n// eslint-disable-next-line\nexport async ".toList := gap.mono fun _ _ => trivial
  exact ⟨any, seen, (preceding?_comment any "function f() \x7b\x7d".toList).1 seen⟩

/-- A comment is missed in front of a line comment on its own line. -/
theorem not_preceding?_comment_note :
    ¬ ∀ front body gap : List Char, ¬ ['*', '/'] <:+: body → body.head? ≠ some '/' → IsGap (fun _ => True) gap →
      preceding? (front ++ comment body ++ gap) (byteLength (front ++ comment body ++ gap)) = some ⟨comment body⟩ := by
  intro findsComment
  have gap : IsGap (fun _ => True) (([] ++ [' ']) ++ '/' :: '/' :: (" note".toList ++ ['\n'])) :=
    .lineComment (.blank .nil rfl) trivial (by decide)
  have found := findsComment [] " @returns \x7bstring\x7d ".toList _ (by decide) (by decide) gap
  have stuck : stepBack? ([] ++ comment " @returns \x7bstring\x7d ".toList
      ++ (([] ++ [' ']) ++ '/' :: '/' :: (" note".toList ++ ['\n']))).reverse = none := by decide +kernel
  have cut := preceding?_append ([] ++ comment " @returns \x7bstring\x7d ".toList
      ++ (([] ++ [' ']) ++ '/' :: '/' :: (" note".toList ++ ['\n']))) []
  rw [List.append_nil, settle_of_eq_none stuck, found] at cut
  exact absurd cut (by decide +kernel)

end DocComment

end SpecCoverage.Functions
