import SpecCoverage.Text.Scan

/-!
# What scanning finds

* (runs) a run is not empty, its characters are of the kind, and it joins with the rest to the whole text
  (`run?_eq_some`); the other way round, `run?_append_of_head?` reads back a run that no further character of the
  kind follows, and a text that is no run has a first character of another kind (`exists_first_not`) and one last such
  character only (`append_cons_inj_of_forall`);
* (matches) every match along a text is an answer of the pattern somewhere in the text
  (`exists_of_mem_allMatches`), and so is the first match (`exists_of_firstMatch?`), which is the leftmost one
  (`firstMatch?_append`, `firstMatch?_eq_none_iff`);
* (blanks) a class of characters that holds no blank is known by the code points of the blanks (`eq_false_of_isBlank`);
* (trimming) what stands in front of a visible character stays when the end is trimmed
  (`trimEnd_append_cons`), and what trimming removes is blank (`exists_append_trim`), so that a trimmed text has the same
  visible characters (`mem_trim_iff`) and no blank at its end (`isBlank_of_mem_getLast?_trimEnd`);
* (words) words have no blanks (`isBlank_of_mem_words`), and what is joined has the characters of its pieces
  (`mem_intercalate_iff`).
-/

namespace SpecCoverage.Text

/-- The code points of the blanks. -/
def blankCodes : List Nat := [9, 10, 11, 12, 13, 32, 0x85, 0xA0, 0x1680, 0x2000, 0x2001, 0x2002, 0x2003, 0x2004, 0x2005,
  0x2006, 0x2007, 0x2008, 0x2009, 0x200A, 0x2028, 0x2029, 0x202F, 0x205F, 0x3000]

/-- What is false of these code points is false of every blank. -/
theorem eq_false_of_isBlank {p : Char → Bool} (h : ∀ n ∈ blankCodes, p (Char.ofNat n) = false) {c : Char}
    (blank : isBlank c = true) : p c = false := by
  have code : c.toNat ∈ blankCodes := by
    simp only [isBlank, Bool.or_eq_true, Bool.and_eq_true, decide_eq_true_eq] at blank
    simp only [blankCodes, List.mem_cons, List.not_mem_nil, or_false]
    omega
  have same := h c.toNat code
  rwa [Char.ofNat_toNat] at same

theorem trimEnd_append_cons (front : List Char) {c : Char} (h : isBlank c = false) (rest : List Char) :
    trimEnd (front ++ c :: rest) = front ++ c :: trimEnd rest := by
  have e : (front ++ c :: rest).reverse = rest.reverse ++ (c :: front.reverse) := by simp
  unfold trimEnd
  rw [e, List.dropWhile_append]
  split
  · next blank =>
    rw [List.isEmpty_iff] at blank
    simp [blank, h]
  · simp

theorem trimEnd_append {front : List Char} (hne : front ≠ []) (visible : ∀ c ∈ front, isBlank c = false)
    (rest : List Char) : trimEnd (front ++ rest) = front ++ trimEnd rest := by
  obtain ⟨init, last⟩ := List.getLast?_eq_some_iff.1 (List.getLast?_eq_some_getLast hne)
  rw [last, List.append_assoc, List.append_assoc, List.singleton_append, List.singleton_append]
  exact trimEnd_append_cons init (visible _ (List.getLast_mem hne)) rest

theorem trimEnd_isPrefix (cs : List Char) : trimEnd cs <+: cs := by
  have dropped := List.reverse_prefix.2 (List.dropWhile_suffix isBlank (l := cs.reverse))
  rwa [List.reverse_reverse] at dropped

theorem isBlank_of_mem_head?_trimStart {cs : List Char} : ∀ c ∈ (trimStart cs).head?, isBlank c = false := by
  intro c hc
  have first := List.head?_dropWhile_not isBlank cs
  rw [show (cs.dropWhile isBlank).head? = some c from hc] at first
  simpa using first

theorem isBlank_of_mem_getLast?_trimEnd {cs : List Char} : ∀ c ∈ (trimEnd cs).getLast?, isBlank c = false := by
  rw [trimEnd, List.getLast?_reverse]
  exact isBlank_of_mem_head?_trimStart

/-- A word and words that have no blanks. -/
def AreVisible (state : List Char × List (List Char)) : Prop :=
  ∀ word ∈ state.1 :: state.2, ∀ c ∈ word, isBlank c = false

private theorem AreVisible.end_word {state : List Char × List (List Char)} (h : AreVisible state) :
    ∀ word ∈ (if state.1.isEmpty then state.2 else state.1 :: state.2), ∀ c ∈ word, isBlank c = false := by
  intro word hword
  split at hword
  · exact h word (List.mem_cons_of_mem _ hword)
  · exact h word hword

theorem isBlank_of_mem_words {cs word : List Char} (h : word ∈ words cs) : ∀ c ∈ word, isBlank c = false := by
  unfold words at h
  refine AreVisible.end_word ?_ word h
  refine List.foldrRecOn (motive := AreVisible) cs _ (by simp [AreVisible]) fun state visible c _ => ?_
  dsimp only
  split
  · exact List.forall_mem_cons.2 ⟨by simp, visible.end_word⟩
  · next hc =>
    obtain ⟨begun, found⟩ := List.forall_mem_cons.1 visible
    exact List.forall_mem_cons.2 ⟨List.forall_mem_cons.2 ⟨Bool.eq_false_iff.2 hc, begun⟩, found⟩

/-- A character that is not in the separator stands in pieces with the separator between them if it stands in a piece. -/
theorem mem_intercalate_iff {separator : List Char} {pieces : List (List Char)} {c : Char} (h : c ∉ separator) :
    c ∈ separator.intercalate pieces ↔ ∃ piece ∈ pieces, c ∈ piece := by
  unfold List.intercalate
  induction pieces with
  | nil => simp
  | cons piece rest ih =>
    cases rest with
    | nil => simp
    | cons next rest =>
      rw [List.intersperse_cons_cons, List.flatten_cons, List.flatten_cons, List.mem_append, List.mem_append, ih]
      simp [h]

/-- What stands in front of the rest, where characters of a kind have been dropped. -/
theorem exists_of_dropWhile_eq {p : Char → Bool} {cs rest : List Char} (h : cs.dropWhile p = rest) :
    ∃ front, (∀ c ∈ front, p c = true) ∧ cs = front ++ rest := by
  refine ⟨cs.takeWhile p, List.all_eq_true.1 List.all_takeWhile, ?_⟩
  rw [← h, List.takeWhile_append_dropWhile]

/-- What trimming removes. -/
theorem exists_append_trim (cs : List Char) : ∃ front back, (∀ c ∈ front, isBlank c = true) ∧
    (∀ c ∈ back, isBlank c = true) ∧ cs = front ++ (trim cs ++ back) := by
  obtain ⟨front, blank, hfront⟩ := @exists_of_dropWhile_eq isBlank cs _ rfl
  obtain ⟨back, blank', hback⟩ := @exists_of_dropWhile_eq isBlank (trimStart cs).reverse _ rfl
  refine ⟨front, back.reverse, blank, fun c hc => blank' c (List.mem_reverse.1 hc), ?_⟩
  have kept : trimStart cs = trim cs ++ back.reverse := by
    rw [← List.reverse_reverse (trimStart cs), hback, List.reverse_append]
    rfl
  rw [← kept]
  exact hfront

theorem mem_trim_iff {c : Char} (h : isBlank c = false) {cs : List Char} : c ∈ trim cs ↔ c ∈ cs := by
  obtain ⟨front, back, blank, blank', split⟩ := exists_append_trim cs
  have apart (blanks : List Char) (blank : ∀ d ∈ blanks, isBlank d = true) : c ∉ blanks := fun mem => by
    rw [blank c mem] at h
    cases h
  rw [split, List.mem_append, List.mem_append]
  simp [apart front blank, apart back blank', ← split]

theorem trimStart_append {front rest : List Char} (blank : ∀ c ∈ front, isBlank c = true)
    (stop : ∀ c ∈ rest.head?, isBlank c = false) : trimStart (front ++ rest) = rest := by
  rw [trimStart, List.dropWhile_append_of_pos blank]
  cases rest with
  | nil => rfl
  | cons c rest => rw [List.dropWhile_cons_of_neg (by simp [stop c rfl])]

theorem behindBlanks?_append {blanks rest : List Char} (hne : blanks ≠ []) (blank : ∀ c ∈ blanks, isBlank c = true)
    (stop : ∀ c ∈ rest.head?, isBlank c = false) : behindBlanks? (blanks ++ rest) = some rest := by
  obtain ⟨b, blanks, rfl⟩ := List.exists_cons_of_ne_nil hne
  obtain ⟨first, others⟩ := List.forall_mem_cons.1 blank
  rw [List.cons_append, behindBlanks?, if_pos first, trimStart_append others stop]

theorem run?_eq_some {p : Char → Bool} {cs found rest : List Char} (h : run? p cs = some (found, rest)) :
    found ≠ [] ∧ (∀ c ∈ found, p c = true) ∧ cs = found ++ rest := by
  unfold run? at h
  split at h
  · cases h
  · next hne =>
    obtain ⟨rfl, rfl⟩ : cs.takeWhile p = found ∧ cs.dropWhile p = rest := by simpa using h
    refine ⟨hne, ?_, List.takeWhile_append_dropWhile.symm⟩
    exact List.all_eq_true.1 List.all_takeWhile

theorem run?_append_of_head? {p : Char → Bool} {found rest : List Char} (hne : found ≠ [])
    (h : ∀ c ∈ found, p c = true) (stop : ∀ c ∈ rest.head?, p c = false) :
    run? p (found ++ rest) = some (found, rest) := by
  have none_left : rest.takeWhile p = [] ∧ rest.dropWhile p = rest := by
    cases rest with
    | nil => exact ⟨rfl, rfl⟩
    | cons c rest => simp [stop c rfl]
  have e : (found ++ rest).takeWhile p = found := by
    rw [List.takeWhile_append_of_pos h, none_left.1, List.append_nil]
  have e' : (found ++ rest).dropWhile p = rest := by
    rw [List.dropWhile_append_of_pos h, none_left.2]
  unfold run?
  rw [e, e']
  cases found with
  | nil => exact absurd rfl hne
  | cons d ds => rfl

theorem run?_append {p : Char → Bool} {found : List Char} (hne : found ≠ [])
    (h : ∀ c ∈ found, p c = true) {c : Char} (hc : p c = false) (rest : List Char) :
    run? p (found ++ c :: rest) = some (found, c :: rest) :=
  run?_append_of_head? hne h fun d hd => by cases hd; exact hc

theorem forall_ne_of_not_mem {c : Char} {cs : List Char} (h : c ∉ cs) : ∀ d ∈ cs, decide (d ≠ c) = true := by
  intro d hd
  rw [decide_eq_true_eq]
  rintro rfl
  exact h hd

theorem takeWhile_append_cons {p : Char → Bool} {front : List Char} (h : ∀ c ∈ front, p c = true) {c : Char}
    (hc : p c = false) (rest : List Char) : (front ++ c :: rest).takeWhile p = front := by
  rw [List.takeWhile_append_of_pos h, List.takeWhile_cons_of_neg (by simp [hc]), List.append_nil]

theorem dropWhile_append_cons {p : Char → Bool} {front : List Char} (h : ∀ c ∈ front, p c = true) {c : Char}
    (hc : p c = false) (rest : List Char) : (front ++ c :: rest).dropWhile p = c :: rest := by
  rw [List.dropWhile_append_of_pos h, List.dropWhile_cons_of_neg (by simp [hc])]

/-- A text with some character that is not of a kind has a first such character. -/
theorem exists_first_not {p : Char → Bool} {cs : List Char} (h : ¬ cs.all p = true) :
    ∃ front c back, cs = front ++ c :: back ∧ (∀ d ∈ front, p d = true) ∧ p c = false := by
  have some_not : (cs.find? fun c => !p c).isSome := by
    rw [List.find?_isSome]
    simpa using h
  obtain ⟨c, hfind⟩ := Option.isSome_iff_exists.1 some_not
  obtain ⟨hc, front, back, e, hfront⟩ := List.find?_eq_some_iff_append.1 hfind
  exact ⟨front, c, back, e, by simpa using hfront, by simpa using hc⟩

/-- The last character of a text that is not of a kind is one character only. -/
theorem append_cons_inj_of_forall {p : Char → Bool} {a b x y : List Char} {c d : Char} (h : a ++ c :: x = b ++ d :: y)
    (hc : p c = false) (hd : p d = false) (hx : ∀ e ∈ x, p e = true) (hy : ∀ e ∈ y, p e = true) :
    a = b ∧ c = d ∧ x = y := by
  -- if the one stood in front of the other, the other would be of the kind
  have cut : ∀ {e x y : List Char} {c d : Char}, c :: x = e ++ d :: y → p d = false → (∀ e ∈ x, p e = true) →
      e = [] := by
    intro e x y c d split notKind kind
    cases e with
    | nil => rfl
    | cons f e =>
      obtain ⟨-, rfl⟩ := List.cons_eq_cons.1 split
      have := kind d (by simp)
      rw [notKind] at this
      cases this
  rcases List.append_eq_append_iff.1 h with ⟨e, rfl, split⟩ | ⟨e, rfl, split⟩
  · obtain rfl := cut split hd hx
    simpa using split
  · obtain rfl := cut split hc hy
    simpa [eq_comm] using split

/-- What has only characters of a kind ends in front of the first other character, or before. -/
theorem exists_append_of_forall {p : Char → Bool} {a b x y : List Char} {c d : Char} (h : a ++ c :: x = b ++ d :: y)
    (ha : ∀ e ∈ a, p e = true) (hd : p d = false) : ∃ e, b ++ [d] = a ++ c :: e := by
  rcases List.append_eq_append_iff.1 h with ⟨e, rfl, split⟩ | ⟨e, rfl, split⟩
  · cases e with
    | nil =>
      obtain ⟨rfl, -⟩ := List.cons_eq_cons.1 split
      exact ⟨[], by simp⟩
    | cons f e =>
      obtain ⟨rfl, -⟩ := List.cons_eq_cons.1 split
      exact ⟨e ++ [d], by simp⟩
  · cases e with
    | nil =>
      obtain ⟨rfl, -⟩ := List.cons_eq_cons.1 split
      exact ⟨[], by simp⟩
    | cons f e =>
      obtain ⟨rfl, -⟩ := List.cons_eq_cons.1 split
      have := ha d (by simp)
      rw [hd] at this
      cases this

/-- What does not hold a character ends in front of it. -/
theorem exists_append_of_not_mem {a b x y : List Char} {c : Char} (h : a ++ c :: x = b ++ y) (hb : c ∉ b) :
    ∃ e, a = b ++ e ∧ y = e ++ c :: x := by
  rcases List.append_eq_append_iff.1 h with ⟨e, rfl, split⟩ | ⟨e, rfl, split⟩
  · cases e with
    | nil => exact ⟨[], by simp, split.symm⟩
    | cons d e =>
      obtain ⟨rfl, -⟩ := List.cons_eq_cons.1 split
      exact absurd (List.mem_append_right _ List.mem_cons_self) hb
  · exact ⟨e, rfl, split⟩

/-- What does not hold a character begins behind it. -/
theorem exists_append_of_not_mem_right {a b x y : List Char} {c : Char} (h : a ++ c :: x = b ++ y) (hy : c ∉ y) :
    ∃ e, b = a ++ c :: e ∧ x = e ++ y := by
  rcases List.append_eq_append_iff.1 h with ⟨e, rfl, split⟩ | ⟨e, rfl, rfl⟩
  · cases e with
    | nil => exact absurd (by rw [← List.nil_append y, ← split]; exact List.mem_cons_self) hy
    | cons d e =>
      obtain ⟨rfl, rfl⟩ := List.cons_eq_cons.1 split
      exact ⟨e, rfl, rfl⟩
  · exact absurd (List.mem_append_right _ List.mem_cons_self) hy

private theorem exists_of_mem_matchesFrom {α : Type} {pattern : Pattern α} {m : Match α} {cs : List Char}
    {skip position : Nat} (h : m ∈ matchesFrom pattern skip position cs) :
    ∃ front tail rest, cs = front ++ tail ∧ pattern tail = some (m.value, rest) := by
  -- a match in the tail of a text is a match in the text, with one more character in front
  have behind : ∀ {c : Char} {cs : List Char},
      (∃ front tail rest, cs = front ++ tail ∧ pattern tail = some (m.value, rest)) →
        ∃ front tail rest, c :: cs = front ++ tail ∧ pattern tail = some (m.value, rest) := by
    rintro c _ ⟨front, tail, rest, rfl, hm⟩
    exact ⟨c :: front, tail, rest, rfl, hm⟩
  induction cs generalizing skip position with
  | nil => cases skip <;> simp [matchesFrom] at h
  | cons c cs ih =>
    cases skip with
    | succ skip => exact behind (ih h)
    | zero =>
      unfold matchesFrom at h
      split at h
      · exact behind (ih h)
      · next value rest hp =>
        rcases List.mem_cons.1 h with rfl | h
        · exact ⟨[], c :: cs, rest, rfl, hp⟩
        · exact behind (ih h)

theorem exists_of_mem_allMatches {α : Type} {pattern : Pattern α} {m : Match α} {cs : List Char}
    (h : m ∈ allMatches pattern cs) :
    ∃ front tail rest, cs = front ++ tail ∧ pattern tail = some (m.value, rest) :=
  exists_of_mem_matchesFrom h

/-- The first match stands in the text where the pattern matches, and nowhere in front of it does the pattern match. -/
theorem exists_of_firstMatch? {α : Type} {pattern : Pattern α} {value : α} {cs : List Char}
    (h : firstMatch? pattern cs = some value) :
    ∃ front tail rest, cs = front ++ tail ∧ pattern tail = some (value, rest) ∧
      ∀ b, b ≠ [] → b <:+ front → pattern (b ++ tail) = none := by
  induction cs with
  | nil => cases h
  | cons c cs ih =>
    unfold firstMatch? at h
    split at h
    · next value' rest hp =>
      cases h
      exact ⟨[], c :: cs, rest, rfl, hp, fun b hne suffix => absurd (List.suffix_nil.1 suffix) hne⟩
    · next hp =>
      obtain ⟨front, tail, rest, rfl, hm, first⟩ := ih h
      refine ⟨c :: front, tail, rest, rfl, hm, fun b hne suffix => ?_⟩
      rcases List.suffix_cons_iff.1 suffix with rfl | suffix
      · exact hp
      · exact first b hne suffix

theorem firstMatch?_cons_of_eq_some {α : Type} {pattern : Pattern α} {c : Char} {cs rest : List Char} {value : α}
    (h : pattern (c :: cs) = some (value, rest)) : firstMatch? pattern (c :: cs) = some value := by
  rw [firstMatch?, h]

theorem firstMatch?_cons_of_eq_none {α : Type} {pattern : Pattern α} {c : Char} {cs : List Char}
    (h : pattern (c :: cs) = none) : firstMatch? pattern (c :: cs) = firstMatch? pattern cs := by
  rw [firstMatch?, h]

/-- There is no match exactly if the pattern matches nowhere in the text. -/
theorem firstMatch?_eq_none_iff {α : Type} {pattern : Pattern α} {cs : List Char} :
    firstMatch? pattern cs = none ↔ ∀ front tail, tail ≠ [] → cs = front ++ tail → pattern tail = none := by
  constructor
  · intro h front tail hne split
    induction cs generalizing front with
    | nil => exact absurd (List.append_eq_nil_iff.1 split.symm).2 hne
    | cons c cs ih =>
      cases hp : pattern (c :: cs) with
      | some read => rw [firstMatch?_cons_of_eq_some hp] at h; cases h
      | none =>
        cases front with
        | nil =>
          obtain rfl : c :: cs = tail := split
          exact hp
        | cons d front =>
          rw [firstMatch?_cons_of_eq_none hp] at h
          exact ih h front (List.cons_eq_cons.1 split).2
  · intro h
    induction cs with
    | nil => rfl
    | cons c cs ih =>
      rw [firstMatch?_cons_of_eq_none (h [] (c :: cs) (by simp) rfl)]
      exact ih fun front tail hne split => h (c :: front) tail hne (congrArg (c :: ·) split)

/-- The leftmost place where the pattern matches gives the first match. -/
theorem firstMatch?_append {α : Type} {pattern : Pattern α} {front tail rest : List Char} {value : α} (hne : tail ≠ [])
    (h : pattern tail = some (value, rest)) (first : ∀ b, b ≠ [] → b <:+ front → pattern (b ++ tail) = none) :
    firstMatch? pattern (front ++ tail) = some value := by
  induction front with
  | nil =>
    obtain ⟨c, tail, rfl⟩ := List.exists_cons_of_ne_nil hne
    exact firstMatch?_cons_of_eq_some h
  | cons c front ih =>
    have nothing : pattern (c :: (front ++ tail)) = none := first (c :: front) (by simp) (List.suffix_refl _)
    rw [List.cons_append, firstMatch?_cons_of_eq_none nothing]
    exact ih fun b hne suffix => first b hne (suffix.trans (List.suffix_cons c front))

end SpecCoverage.Text
