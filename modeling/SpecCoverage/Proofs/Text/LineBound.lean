import SpecCoverage.Proofs.Text.Line
import SpecCoverage.Proofs.Text.Scan

/-!
# Patterns that stay within a line

A pattern is bound to the line if, in front of a line feed, it neither reads past that line feed nor looks at
what stands behind it (`IsLineBound`).  Along whole lines it finds what it finds in them alone, whatever follows
(`allMatches_append`), and each match ends within its line (`stopsInLine_of_mem_allMatches`).
-/

namespace SpecCoverage.Text

variable {α : Type}

/-- The match in a text that has `offset` more bytes in front. -/
def Match.shift (offset : Nat) (m : Match α) : Match α := ⟨offset + m.start, offset + m.stop, m.value⟩

/-! ## Pieces of patterns -/

theorem behind?_eq_some {piece cs rest : List Char} (h : behind? piece cs = some rest) : cs = piece ++ rest := by
  fun_induction behind? piece cs with
  | case1 => simpa using h
  | case2 => cases h
  | case3 ps c cs ih => rw [List.cons_append, ih h]
  | case4 => cases h

theorem behind?_eq_some_iff {piece cs rest : List Char} : behind? piece cs = some rest ↔ cs = piece ++ rest := by
  refine ⟨behind?_eq_some, ?_⟩
  rintro rfl
  induction piece with
  | nil => cases rest <;> rfl
  | cons p ps ih => rw [List.cons_append, behind?, if_pos rfl, ih]

theorem behind?_pieces (a b cs : List Char) : behind? (a ++ b) cs = (behind? a cs).bind (behind? b) := by
  fun_induction behind? a cs with
  | case1 => rfl
  | case2 => rfl
  | case3 ps c cs ih => rw [List.cons_append, behind?, if_pos rfl, ih]
  | case4 p ps c cs hne => rw [List.cons_append, behind?, if_neg hne]; rfl

private theorem behind?_append {piece cs : List Char} (hpiece : '\n' ∉ piece) (hcs : '\n' ∈ cs) (after : List Char) :
    behind? piece (cs ++ after) = (behind? piece cs).map (· ++ after) := by
  fun_induction behind? piece cs with
  | case1 => rfl
  | case2 => cases hcs
  | case3 ps c cs ih =>
    have hc : '\n' ≠ c := fun h => hpiece (h ▸ List.mem_cons_self)
    rw [List.cons_append, behind?, if_pos rfl]
    exact ih (fun h => hpiece (List.mem_cons_of_mem _ h)) ((List.mem_cons.1 hcs).resolve_left hc)
  | case4 p ps c cs hne => simp [behind?, hne]

private theorem mem_of_behind? {piece cs rest : List Char} (hpiece : '\n' ∉ piece) (hcs : '\n' ∈ cs)
    (h : behind? piece cs = some rest) : '\n' ∈ rest := by
  rw [behind?_eq_some h] at hcs
  exact (List.mem_append.1 hcs).resolve_left hpiece

section

variable {p : Char → Bool} {cs : List Char}

theorem takeWhile_append_of_stop (hp : p '\n' = false) (hcs : '\n' ∈ cs) (after : List Char) :
    (cs ++ after).takeWhile p = cs.takeWhile p := by
  induction cs with
  | nil => cases hcs
  | cons c cs ih =>
    rcases List.mem_cons.1 hcs with rfl | hcs
    · simp [hp]
    · simp only [List.cons_append, List.takeWhile_cons, ih hcs]

private theorem dropWhile_append_of_stop (hp : p '\n' = false) (hcs : '\n' ∈ cs) (after : List Char) :
    (cs ++ after).dropWhile p = cs.dropWhile p ++ after := by
  induction cs with
  | nil => cases hcs
  | cons c cs ih =>
    rcases List.mem_cons.1 hcs with rfl | hcs
    · simp [hp]
    · simp only [List.cons_append, List.dropWhile_cons, ih hcs]
      split <;> rfl

private theorem mem_dropWhile_of_stop (hp : p '\n' = false) (hcs : '\n' ∈ cs) : '\n' ∈ cs.dropWhile p := by
  rw [← List.takeWhile_append_dropWhile (p := p) (l := cs)] at hcs
  refine (List.mem_append.1 hcs).resolve_left fun h => ?_
  rw [List.all_eq_true.1 List.all_takeWhile _ h] at hp
  cases hp

private theorem run?_append_of_stop (hp : p '\n' = false) (hcs : '\n' ∈ cs) (after : List Char) :
    run? p (cs ++ after) = (run? p cs).map fun (found, rest) => (found, rest ++ after) := by
  unfold run?
  rw [takeWhile_append_of_stop hp hcs, dropWhile_append_of_stop hp hcs]
  split <;> rfl

private theorem mem_of_run? {found rest : List Char} (hp : p '\n' = false) (hcs : '\n' ∈ cs)
    (h : run? p cs = some (found, rest)) : '\n' ∈ rest := by
  unfold run? at h
  split at h
  · cases h
  · obtain ⟨-, rfl⟩ : cs.takeWhile p = found ∧ cs.dropWhile p = rest := by simpa using h
    exact mem_dropWhile_of_stop hp hcs

end

private theorem optionally_append {piece cs : List Char} (hpiece : '\n' ∉ piece) (hcs : '\n' ∈ cs) (after : List Char) :
    optionally piece (cs ++ after) = optionally piece cs ++ after := by
  unfold optionally
  rw [behind?_append hpiece hcs]
  cases behind? piece cs <;> rfl

private theorem optionally_suffix (piece cs : List Char) : optionally piece cs <:+ cs := by
  unfold optionally
  cases h : behind? piece cs with
  | none => exact List.suffix_refl cs
  | some rest => exact ⟨piece, (behind?_eq_some h).symm⟩

private theorem mem_optionally {piece cs : List Char} (hpiece : '\n' ∉ piece) (hcs : '\n' ∈ cs) :
    '\n' ∈ optionally piece cs := by
  unfold optionally
  cases h : behind? piece cs with
  | none => exact hcs
  | some rest => exact mem_of_behind? hpiece hcs h

/-! ## Patterns -/

structure IsLineBound (pattern : Pattern α) : Prop where
  append : ∀ {cs : List Char} (after : List Char), '\n' ∈ cs →
    pattern (cs ++ after) = (pattern cs).map fun (value, rest) => (value, rest ++ after)
  suffix : ∀ {cs rest : List Char} {value : α}, pattern cs = some (value, rest) → rest <:+ cs
  mem : ∀ {cs rest : List Char} {value : α}, '\n' ∈ cs → pattern cs = some (value, rest) → '\n' ∈ rest

theorem IsLineBound.behind {piece : List Char} (hpiece : '\n' ∉ piece) {next : Pattern α}
    (bound : IsLineBound next) : IsLineBound fun cs => (behind? piece cs).bind next where
  append {cs} after hcs := by
    rw [behind?_append hpiece hcs]
    cases h : behind? piece cs with
    | none => rfl
    | some rest => exact bound.append after (mem_of_behind? hpiece hcs h)
  suffix {cs rest value} h := by
    obtain ⟨middle, h₁, h₂⟩ := Option.bind_eq_some_iff.1 h
    rw [behind?_eq_some h₁]
    exact (bound.suffix h₂).trans (List.suffix_append piece middle)
  mem {cs rest value} hcs h := by
    obtain ⟨middle, h₁, h₂⟩ := Option.bind_eq_some_iff.1 h
    exact bound.mem (mem_of_behind? hpiece hcs h₁) h₂

theorem IsLineBound.run {p : Char → Bool} (hp : p '\n' = false) {next : List Char → Pattern α}
    (bound : ∀ found, IsLineBound (next found)) :
    IsLineBound fun cs => (run? p cs).bind fun (found, rest) => next found rest where
  append {cs} after hcs := by
    rw [run?_append_of_stop hp hcs]
    cases h : run? p cs with
    | none => rfl
    | some split => exact (bound split.1).append after (mem_of_run? hp hcs h)
  suffix {cs rest value} h := by
    obtain ⟨⟨found, middle⟩, h₁, h₂⟩ := Option.bind_eq_some_iff.1 h
    rw [(run?_eq_some h₁).2.2]
    exact ((bound found).suffix h₂).trans (List.suffix_append found middle)
  mem {cs rest value} hcs h := by
    obtain ⟨⟨found, middle⟩, h₁, h₂⟩ := Option.bind_eq_some_iff.1 h
    exact (bound found).mem (mem_of_run? hp hcs h₁) h₂

theorem IsLineBound.takeWhile {p : Char → Bool} (hp : p '\n' = false) {next : List Char → Pattern α}
    (bound : ∀ found, IsLineBound (next found)) :
    IsLineBound fun cs => next (cs.takeWhile p) (cs.dropWhile p) where
  append {cs} after hcs := by
    rw [takeWhile_append_of_stop hp hcs, dropWhile_append_of_stop hp hcs]
    exact (bound _).append after (mem_dropWhile_of_stop hp hcs)
  suffix h := ((bound _).suffix h).trans (List.dropWhile_suffix p)
  mem hcs h := (bound _).mem (mem_dropWhile_of_stop hp hcs) h

theorem IsLineBound.dropWhile {p : Char → Bool} (hp : p '\n' = false) {next : Pattern α}
    (bound : IsLineBound next) : IsLineBound fun cs => next (cs.dropWhile p) :=
  takeWhile hp fun _ => bound

theorem isLineBound_optionally {piece : List Char} (hpiece : '\n' ∉ piece) (value : α) :
    IsLineBound fun cs => some (value, optionally piece cs) where
  append after hcs := by rw [optionally_append hpiece hcs]; rfl
  suffix h := by
    cases h
    exact optionally_suffix piece _
  mem hcs h := by
    cases h
    exact mem_optionally hpiece hcs

/-- What a match has taken is what stands in front of the rest. -/
private theorem take_of_suffix {cs rest : List Char} (h : rest <:+ cs) :
    cs.take (cs.length - rest.length) ++ rest = cs := by
  obtain ⟨found, rfl⟩ := h
  simp

private theorem matchesFrom_append {pattern : Pattern α} (bound : IsLineBound pattern) {a : List Char}
    (whole : IsWhole a) {skip : Nat} (hskip : skip ≤ a.length) (position : Nat) (b : List Char) :
    matchesFrom pattern skip position (a ++ b)
      = matchesFrom pattern skip position a ++ matchesFrom pattern 0 (position + byteLength a) b := by
  induction a generalizing skip position with
  | nil =>
    obtain rfl : skip = 0 := Nat.le_zero.1 hskip
    rfl
  | cons c cs ih =>
    have next : position + byteLength (c :: cs) = position + c.utf8Size + byteLength cs := by
      rw [byteLength, Nat.add_assoc]
    rw [next]
    cases skip with
    | succ skip => exact ih whole.tail (Nat.le_of_succ_le_succ hskip) _
    | zero =>
      have hfeed : '\n' ∈ c :: cs := whole.mem_lineFeed (by simp)
      have read := bound.append b hfeed
      rw [List.cons_append] at read
      cases hp : pattern (c :: cs) with
      | none =>
        rw [hp] at read
        simp only [List.cons_append, matchesFrom, read, hp, Option.map_none]
        exact ih whole.tail (Nat.zero_le _) _
      | some found =>
        obtain ⟨value, rest⟩ := found
        rw [hp] at read
        have hrest : rest.length ≤ cs.length + 1 := (bound.suffix hp).length_le
        have hne : rest ≠ [] := List.ne_nil_of_mem (bound.mem hfeed hp)
        have taken : (c :: (cs ++ b)).take ((cs ++ b).length + 1 - (rest ++ b).length)
            = (c :: cs).take (cs.length + 1 - rest.length) := by
          rw [List.length_append, List.length_append, ← List.cons_append,
            List.take_append_of_le_length (by simp; omega)]
          congr 1
          omega
        have skipped : (cs ++ b).length - (rest ++ b).length = cs.length - rest.length := by
          simp only [List.length_append]
          omega
        simp only [List.cons_append, matchesFrom, read, hp, Option.map_some, taken, skipped]
        rw [ih whole.tail (Nat.sub_le _ _)]

private theorem matchesFrom_add (pattern : Pattern α) (skip offset position : Nat) (cs : List Char) :
    matchesFrom pattern skip (offset + position) cs
      = (matchesFrom pattern skip position cs).map (Match.shift offset) := by
  induction cs generalizing skip position with
  | nil => cases skip <;> rfl
  | cons c cs ih =>
    cases skip with
    | succ skip => simp only [matchesFrom, Nat.add_assoc, ih]
    | zero =>
      simp only [matchesFrom]
      split
      · rw [Nat.add_assoc, ih]
      · simp only [List.map_cons, Nat.add_assoc, ih, Match.shift]

/-- Along whole lines a pattern that is bound to the line finds the same, whatever follows. -/
theorem allMatches_append {pattern : Pattern α} (bound : IsLineBound pattern) {a : List Char}
    (whole : IsWhole a) (b : List Char) :
    allMatches pattern (a ++ b)
      = allMatches pattern a ++ (allMatches pattern b).map (Match.shift (byteLength a)) := by
  have moved := matchesFrom_add pattern 0 (byteLength a) 0 b
  rw [allMatches, matchesFrom_append bound whole (Nat.zero_le _), Nat.zero_add]
  rw [Nat.add_zero] at moved
  rw [moved]
  rfl

private theorem start_lt_of_mem_matchesFrom {pattern : Pattern α} {cs : List Char} {skip position : Nat} {m : Match α}
    (h : m ∈ matchesFrom pattern skip position cs) : m.start < position + byteLength cs := by
  induction cs generalizing skip position with
  | nil => cases skip <;> simp [matchesFrom] at h
  | cons c cs ih =>
    have behind : ∀ {skip : Nat}, m ∈ matchesFrom pattern skip (position + c.utf8Size) cs →
        m.start < position + byteLength (c :: cs) := by
      intro skip h
      have := ih h
      rw [byteLength]
      omega
    cases skip with
    | succ skip => exact behind h
    | zero =>
      unfold matchesFrom at h
      split at h
      · exact behind h
      · rcases List.mem_cons.1 h with rfl | h
        · have := c.utf8Size_pos
          show position < position + byteLength (c :: cs)
          rw [byteLength]
          omega
        · exact behind h

theorem start_lt_of_mem_allMatches {pattern : Pattern α} {cs : List Char} {m : Match α}
    (h : m ∈ allMatches pattern cs) : m.start < byteLength cs := by
  simpa using start_lt_of_mem_matchesFrom h

/-- What is found in front of the end of whole lines is found in them alone. -/
theorem mem_allMatches_of_start_lt {pattern : Pattern α} (bound : IsLineBound pattern) {a b : List Char}
    (whole : IsWhole a) {m : Match α} (h : m ∈ allMatches pattern (a ++ b)) (lt : m.start < byteLength a) :
    m ∈ allMatches pattern a := by
  rw [allMatches_append bound whole] at h
  refine (List.mem_append.1 h).resolve_right fun behind => ?_
  obtain ⟨_, -, rfl⟩ := List.mem_map.1 behind
  exact Nat.not_lt.2 (Nat.le_add_right _ _) lt

/-- A match ends on a boundary of its text, in front of some line feed. -/
def Match.StopsInLine (m : Match α) (cs : List Char) : Prop :=
  ∃ front rest, cs = front ++ rest ∧ '\n' ∈ rest ∧ m.stop = byteLength front

private theorem exists_of_mem_matchesFrom_of_isLineBound {pattern : Pattern α} (bound : IsLineBound pattern)
    {cs : List Char} (whole : IsWhole cs) {skip position : Nat} {m : Match α}
    (h : m ∈ matchesFrom pattern skip position cs) :
    ∃ front rest, cs = front ++ rest ∧ '\n' ∈ rest ∧ m.stop = position + byteLength front := by
  -- a match behind the first character is one of the whole text too
  have behind : ∀ {c : Char} {cs : List Char} {position : Nat},
      (∃ front rest, cs = front ++ rest ∧ '\n' ∈ rest ∧ m.stop = position + c.utf8Size + byteLength front) →
        ∃ front rest, c :: cs = front ++ rest ∧ '\n' ∈ rest ∧ m.stop = position + byteLength front := by
    rintro c cs position ⟨front, rest, rfl, hmem, hstop⟩
    refine ⟨c :: front, rest, rfl, hmem, ?_⟩
    rw [hstop, byteLength, Nat.add_assoc]
  induction cs generalizing skip position with
  | nil => cases skip <;> simp [matchesFrom] at h
  | cons c cs ih =>
    cases skip with
    | succ skip => exact behind (ih whole.tail h)
    | zero =>
      unfold matchesFrom at h
      split at h
      · exact behind (ih whole.tail h)
      · next value rest hp =>
        rcases List.mem_cons.1 h with rfl | h
        · exact ⟨_, rest, (take_of_suffix (bound.suffix hp)).symm,
            bound.mem (whole.mem_lineFeed (by simp)) hp, rfl⟩
        · exact behind (ih whole.tail h)

theorem stopsInLine_of_mem_allMatches {pattern : Pattern α} (bound : IsLineBound pattern) {cs : List Char}
    (whole : IsWhole cs) {m : Match α} (h : m ∈ allMatches pattern cs) : m.StopsInLine cs := by
  simpa [Match.StopsInLine] using exists_of_mem_matchesFrom_of_isLineBound bound whole h

end SpecCoverage.Text
