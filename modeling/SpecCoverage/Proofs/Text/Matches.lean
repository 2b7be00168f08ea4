import SpecCoverage.Proofs.Text.Bytes
import SpecCoverage.Proofs.Text.LineBound

/-!
# Matches along a text

For a pattern that takes at least one character (`Takes`):

* each match stands in the text where its positions say (`isAt_of_mem_allMatches`);
* the matches stand in order and none overlaps another (`pairwise_allMatches`);
* where the pattern matches, its match is found exactly if no match that begins earlier runs over this place
  (`mem_allMatches_iff`);
* if matches that overlap agree about a property, the first match found that has it is the leftmost one that there is
  (`find?_allMatches`).
-/

namespace SpecCoverage.Text

variable {α : Type}

/-- What a pattern takes from the start of a text is not empty. -/
structure Takes (pattern : Pattern α) : Prop where
  exists_found : ∀ {cs rest : List Char} {value : α}, pattern cs = some (value, rest) →
    ∃ found, found ≠ [] ∧ cs = found ++ rest

theorem Takes.exists_cons {pattern : Pattern α} (takes : Takes pattern) {c : Char} {cs rest : List Char} {value : α}
    (h : pattern (c :: cs) = some (value, rest)) : ∃ found, cs = found ++ rest := by
  obtain ⟨found, hne, split⟩ := takes.exists_found h
  obtain ⟨d, found, rfl⟩ := List.exists_cons_of_ne_nil hne
  exact ⟨found, (List.cons_eq_cons.1 split).2⟩

theorem Takes.behind {piece : List Char} (hne : piece ≠ []) {next : Pattern α} (bound : IsLineBound next) :
    Takes fun cs => (behind? piece cs).bind next where
  exists_found h := by
    obtain ⟨middle, hmiddle, h⟩ := Option.bind_eq_some_iff.1 h
    obtain ⟨found, rfl⟩ := bound.suffix h
    refine ⟨piece ++ found, List.append_ne_nil_of_left_ne_nil hne _, ?_⟩
    rw [behind?_eq_some hmiddle, List.append_assoc]

/-- A match in a text whose first character stands at `position`, behind `skip` characters at least. -/
structure Match.IsAt (pattern : Pattern α) (skip position : Nat) (cs : List Char) (m : Match α) : Prop where
  exists_split : ∃ front found rest, cs = front ++ (found ++ rest) ∧ skip ≤ front.length ∧ found ≠ [] ∧
    pattern (found ++ rest) = some (m.value, rest) ∧ m.start = position + byteLength front ∧
    m.stop = m.start + byteLength found

theorem Match.IsAt.cons {pattern : Pattern α} {skip position : Nat} {c : Char} {cs : List Char} {m : Match α}
    (h : m.IsAt pattern skip (position + c.utf8Size) cs) {less : Nat} (le : less ≤ skip + 1) :
    m.IsAt pattern less position (c :: cs) := by
  obtain ⟨front, found, rest, rfl, hskip, hne, hm, hstart, hstop⟩ := h.exists_split
  refine ⟨c :: front, found, rest, rfl, ?_, hne, hm, ?_, hstop⟩
  · rw [List.length_cons]
    omega
  · rw [hstart, byteLength, Nat.add_assoc]

theorem Match.IsAt.start_lt_stop {pattern : Pattern α} {skip position : Nat} {cs : List Char} {m : Match α}
    (h : m.IsAt pattern skip position cs) : m.start < m.stop := by
  obtain ⟨_, found, _, _, _, hne, _, _, hstop⟩ := h.exists_split
  have := byteLength_pos hne
  omega

/-- What is skipped lies in front of the match. -/
private theorem Match.IsAt.le_start {pattern : Pattern α} {skip position : Nat} {cs : List Char} {m : Match α}
    (h : m.IsAt pattern skip position cs) : position + byteLength (cs.take skip) ≤ m.start := by
  obtain ⟨front, found, rest, rfl, hskip, -, -, hstart, -⟩ := h.exists_split
  have split : front = front.take skip ++ front.drop skip := (List.take_append_drop skip front).symm
  have whole : byteLength front = byteLength (front.take skip) + byteLength (front.drop skip) := by
    rw [← byteLength_append, ← split]
  rw [hstart, List.take_append_of_le_length hskip]
  omega

/-- The first match of a text whose start the pattern takes, and the matches behind it. -/
theorem matchesFrom_of_eq_some {pattern : Pattern α} {c : Char} {found rest : List Char} {value : α}
    (h : pattern (c :: (found ++ rest)) = some (value, rest)) (position : Nat) :
    matchesFrom pattern 0 position (c :: (found ++ rest))
      = ⟨position, position + byteLength (c :: found), value⟩
        :: matchesFrom pattern found.length (position + c.utf8Size) (found ++ rest) := by
  have taken : (c :: (found ++ rest)).take ((found ++ rest).length + 1 - rest.length) = c :: found := by
    have whole : (found ++ rest).length + 1 - rest.length = (c :: found).length := by
      rw [List.length_append, List.length_cons]
      omega
    rw [whole, ← List.cons_append, List.take_left]
  have skipped : (found ++ rest).length - rest.length = found.length := by simp
  rw [matchesFrom, h]
  simp only [taken, skipped]

section

variable {pattern : Pattern α} (takes : Takes pattern)
include takes

private theorem isAt_of_mem_matchesFrom {cs : List Char} {skip position : Nat} {m : Match α}
    (h : m ∈ matchesFrom pattern skip position cs) : m.IsAt pattern skip position cs := by
  induction cs generalizing skip position with
  | nil => cases skip <;> simp [matchesFrom] at h
  | cons c cs ih =>
    cases skip with
    | succ skip => exact (ih h).cons (Nat.le_refl _)
    | zero =>
      cases hp : pattern (c :: cs) with
      | none =>
        rw [matchesFrom, hp] at h
        exact (ih h).cons (Nat.zero_le _)
      | some read =>
        obtain ⟨value, rest⟩ := read
        obtain ⟨found, rfl⟩ := takes.exists_cons hp
        rw [matchesFrom_of_eq_some hp] at h
        rcases List.mem_cons.1 h with rfl | h
        · exact ⟨[], c :: found, rest, rfl, Nat.zero_le _, by simp, hp, rfl, rfl⟩
        · exact (ih h).cons (Nat.zero_le _)

theorem isAt_of_mem_allMatches {cs : List Char} {m : Match α} (h : m ∈ allMatches pattern cs) :
    m.IsAt pattern 0 0 cs := isAt_of_mem_matchesFrom takes h

private theorem pairwise_matchesFrom (cs : List Char) (skip position : Nat) :
    (matchesFrom pattern skip position cs).Pairwise fun m m' => m.stop ≤ m'.start := by
  induction cs generalizing skip position with
  | nil => cases skip <;> exact .nil
  | cons c cs ih =>
    cases skip with
    | succ skip => exact ih skip _
    | zero =>
      cases hp : pattern (c :: cs) with
      | none =>
        rw [matchesFrom, hp]
        exact ih 0 _
      | some read =>
        obtain ⟨value, rest⟩ := read
        obtain ⟨found, rfl⟩ := takes.exists_cons hp
        rw [matchesFrom_of_eq_some hp]
        refine List.pairwise_cons.2 ⟨fun m' hm' => ?_, ih _ _⟩
        have behind := (isAt_of_mem_matchesFrom takes hm').le_start
        rw [List.take_left] at behind
        show position + byteLength (c :: found) ≤ m'.start
        rw [byteLength]
        omega

/-- The matches along a text stand in order, and none overlaps another. -/
theorem pairwise_allMatches (cs : List Char) :
    (allMatches pattern cs).Pairwise fun m m' => m.stop ≤ m'.start := pairwise_matchesFrom takes cs 0 0

/-- Of two matches, the one that begins first ends before the other. -/
theorem stop_le_of_start_lt {cs : List Char} {m m' : Match α} (h : m ∈ allMatches pattern cs)
    (h' : m' ∈ allMatches pattern cs) (lt : m.start < m'.start) : m.stop ≤ m'.start := by
  obtain ⟨i, hi, rfl⟩ := List.getElem_of_mem h
  obtain ⟨j, hj, rfl⟩ := List.getElem_of_mem h'
  have ordered := List.pairwise_iff_getElem.1 (pairwise_allMatches takes cs)
  rcases Nat.lt_trichotomy i j with before | same | behind
  · exact ordered i j hi hj before
  · subst same
    omega
  · -- the other one would end before this one begins
    have ends := ordered j i hj hi behind
    have := (isAt_of_mem_allMatches takes h').start_lt_stop
    omega

/-- Where nothing runs over a place, what the pattern matches there is found. -/
private theorem mem_matchesFrom_of_clear {a found rest : List Char} {value : α} (hne : found ≠ [])
    (h : pattern (found ++ rest) = some (value, rest)) {skip position : Nat} (hskip : skip ≤ a.length)
    (clear : ∀ m ∈ matchesFrom pattern skip position (a ++ (found ++ rest)), m.start < position + byteLength a →
      m.stop ≤ position + byteLength a) :
    ⟨position + byteLength a, position + byteLength (a ++ found), value⟩
      ∈ matchesFrom pattern skip position (a ++ (found ++ rest)) := by
  induction a generalizing skip position with
  | nil =>
    obtain rfl : skip = 0 := Nat.le_zero.1 hskip
    obtain ⟨c, found, rfl⟩ := List.exists_cons_of_ne_nil hne
    rw [List.nil_append, List.cons_append, matchesFrom_of_eq_some h]
    exact List.mem_cons_self
  | cons c a ih =>
    have place : position + byteLength (c :: a) = position + c.utf8Size + byteLength a := by
      rw [byteLength, Nat.add_assoc]
    have stop : position + byteLength (c :: a ++ found) = position + c.utf8Size + byteLength (a ++ found) := by
      rw [List.cons_append, byteLength, Nat.add_assoc]
    rw [place] at clear ⊢
    rw [stop]
    cases skip with
    | succ skip => exact ih (Nat.le_of_succ_le_succ hskip) clear
    | zero =>
      cases hp : pattern (c :: (a ++ (found ++ rest))) with
      | none =>
        rw [List.cons_append, matchesFrom, hp] at clear ⊢
        exact ih (Nat.zero_le _) clear
      | some read =>
        obtain ⟨value', rest'⟩ := read
        obtain ⟨earlier, split⟩ := takes.exists_cons hp
        have found_eq : matchesFrom pattern 0 position (c :: (a ++ (found ++ rest)))
            = ⟨position, position + byteLength (c :: earlier), value'⟩
              :: matchesFrom pattern earlier.length (position + c.utf8Size) (a ++ (found ++ rest)) := by
          rw [split] at hp ⊢
          exact matchesFrom_of_eq_some hp position
        rw [List.cons_append, found_eq] at clear ⊢
        -- the earlier match ends in front of the place, so that nothing behind the place is skipped
        have within : position + byteLength (c :: earlier) ≤ position + c.utf8Size + byteLength a :=
          clear _ List.mem_cons_self (by show position < _; have := c.utf8Size_pos; omega)
        rw [byteLength] at within
        obtain ⟨between, rfl, -⟩ := exists_append_of_byteLength_le split.symm (by omega)
        refine List.mem_cons_of_mem _ (ih (by simp) fun m hm => ?_)
        exact clear m (List.mem_cons_of_mem _ hm)

/-- What the pattern matches at a place is found exactly if no earlier match runs over the place. -/
theorem mem_allMatches_iff {a found rest : List Char} {value : α} (hne : found ≠ [])
    (h : pattern (found ++ rest) = some (value, rest)) :
    ⟨byteLength a, byteLength (a ++ found), value⟩ ∈ allMatches pattern (a ++ (found ++ rest)) ↔
      ∀ m ∈ allMatches pattern (a ++ (found ++ rest)), m.start < byteLength a → m.stop ≤ byteLength a := by
  constructor
  · intro here m hm lt
    exact stop_le_of_start_lt takes hm here lt
  · intro clear
    have here := @mem_matchesFrom_of_clear α pattern takes a found rest value hne h 0 0 (Nat.zero_le a.length)
    simp only [Nat.zero_add] at here
    exact here clear

/-- The character in front of a match may begin another one only if it ends a third one. -/
theorem exists_append_of_isSome {a b : List Char} {c : Char} {m : Match α} (h : m ∈ allMatches pattern (a ++ c :: b))
    (hstart : m.start = byteLength (a ++ [c])) (read : (pattern (c :: b)).isSome = true) :
    ∃ front found value, a ++ [c] = front ++ found ∧ pattern (found ++ b) = some (value, b) := by
  have lt : byteLength a < m.start := by
    rw [hstart, byteLength_append, byteLength]
    have := c.utf8Size_pos
    omega
  -- a match that begins with the character, or in front of it and runs over it
  have taken : ∃ m' ∈ allMatches pattern (a ++ c :: b), m'.start < m.start ∧ byteLength a < m'.stop := by
    by_cases clear : ∀ m' ∈ allMatches pattern (a ++ c :: b), m'.start < byteLength a → m'.stop ≤ byteLength a
    · obtain ⟨⟨value, rest⟩, read⟩ := Option.isSome_iff_exists.1 read
      obtain ⟨found, hne, split⟩ := takes.exists_found read
      rw [split] at read clear ⊢
      refine ⟨_, (mem_allMatches_iff takes hne read).2 clear, lt, ?_⟩
      show byteLength a < byteLength (a ++ found)
      have := byteLength_pos hne
      rw [byteLength_append]
      omega
    · simp only [Classical.not_forall, Nat.not_le] at clear
      obtain ⟨m', hm', before, reaches⟩ := clear
      exact ⟨m', hm', Nat.lt_trans before lt, reaches⟩
  obtain ⟨m', hm', before, reaches⟩ := taken
  have le := stop_le_of_start_lt takes hm' h before
  obtain ⟨front, found, rest, split, -, -, read', start', stop'⟩ := (isAt_of_mem_allMatches takes hm').exists_split
  have stop_eq : m'.stop = byteLength (front ++ found) := by rw [stop', start', Nat.zero_add, byteLength_append]
  rw [← List.append_assoc] at split
  have ge := IsBoundary.le_of_lt ⟨front ++ found, rest, split, stop_eq.symm⟩ reaches
  have whole : a ++ [c] ++ b = front ++ found ++ rest := by rw [← split, List.append_assoc, List.singleton_append]
  obtain ⟨ends, rfl⟩ := append_inj_of_byteLength whole (by omega)
  exact ⟨front, found, m'.value, ends, read'⟩

end

/-! ## Matches with a property -/

/-- The pattern, for the values with some property only. -/
def only (pattern : Pattern α) (p : α → Bool) : Pattern α := fun cs => (pattern cs).filter fun (value, _) => p value

theorem only_eq_some_iff {pattern : Pattern α} {p : α → Bool} {cs rest : List Char} {value : α} :
    only pattern p cs = some (value, rest) ↔ pattern cs = some (value, rest) ∧ p value = true :=
  Option.filter_eq_some_iff

section

variable {pattern : Pattern α} (takes : Takes pattern) {p : α → Bool}
  (alike : ∀ {a b rest rest' : List Char} {value value' : α}, a ≠ [] → pattern (a ++ b) = some (value, rest) →
    rest.length < b.length → pattern b = some (value', rest') → p value' = p value)
include takes alike

private theorem find?_matchesFrom {cs : List Char} {skip : Nat} (position : Nat)
    (skipped : ∀ a b rest value, cs = a ++ b → a.length < skip → pattern b = some (value, rest) → p value = false) :
    ((matchesFrom pattern skip position cs).map Match.value).find? p = firstMatch? (only pattern p) cs := by
  induction cs generalizing skip position with
  | nil => cases skip <;> rfl
  | cons c cs ih =>
    -- a place that gives nothing with the property is passed over on the right as well
    have pass (h : ∀ value rest, pattern (c :: cs) = some (value, rest) → p value = false) :
        firstMatch? (only pattern p) (c :: cs) = firstMatch? (only pattern p) cs := by
      refine firstMatch?_cons_of_eq_none (Option.eq_none_iff_forall_ne_some.2 ?_)
      rintro ⟨value, rest⟩ read
      obtain ⟨read, has⟩ := only_eq_some_iff.1 read
      rw [h value rest read] at has
      cases has
    cases skip with
    | succ skip =>
      rw [matchesFrom, pass fun value rest read => skipped [] _ rest value rfl (Nat.succ_pos skip) read]
      refine ih _ fun a b rest value split lt read => ?_
      exact skipped (c :: a) b rest value (congrArg (c :: ·) split) (Nat.succ_lt_succ lt) read
    | zero =>
      cases hp : pattern (c :: cs) with
      | none =>
        rw [matchesFrom, hp, pass fun value rest read => by rw [hp] at read; cases read]
        exact ih _ fun a b rest value _ lt => absurd lt (Nat.not_lt_zero _)
      | some read =>
        obtain ⟨value, rest⟩ := read
        obtain ⟨found, rfl⟩ := takes.exists_cons hp
        rw [matchesFrom_of_eq_some hp, List.map_cons, List.find?_cons]
        cases has : p value with
        | true => exact (firstMatch?_cons_of_eq_some (only_eq_some_iff.2 ⟨hp, has⟩)).symm
        | false =>
          rw [pass fun value' rest' read => by rw [hp] at read; cases read; exact has]
          refine ih _ fun a b rest' value' split lt read => ?_
          rw [split] at hp
          have within : rest.length < b.length := by
            have := congrArg List.length split
            simp only [List.length_append] at this
            omega
          rw [alike (List.cons_ne_nil c a) hp within read, has]

/-- If a match that begins within another one has the property exactly as that one has it, no match with the property is
lost to an earlier one: the first that is found is the leftmost of all. -/
theorem find?_allMatches (cs : List Char) :
    ((allMatches pattern cs).map Match.value).find? p = firstMatch? (only pattern p) cs :=
  find?_matchesFrom takes alike 0 fun _ _ _ _ _ lt => absurd lt (Nat.not_lt_zero _)

end

end SpecCoverage.Text
