import SpecCoverage.Text.Bytes

/-!
# Cutting at byte positions

Cutting a text where one part of it ends gives back its parts (`dropBytes?_append`, `slice?_append`).  Boundaries are
the positions where a part ends (`IsBoundary`), and there is a slice between any two of them.
-/

namespace SpecCoverage.Text

theorem byteLength_append (a b : List Char) : byteLength (a ++ b) = byteLength a + byteLength b := by
  induction a with
  | nil => simp [byteLength]
  | cons c cs ih => simp only [List.cons_append, byteLength, ih]; omega

theorem byteLength_pos {cs : List Char} (hne : cs ≠ []) : 0 < byteLength cs := by
  cases cs with
  | nil => exact absurd rfl hne
  | cons c cs =>
    have := c.utf8Size_pos
    rw [byteLength]
    omega

private theorem eq_nil_of_byteLength_eq_zero {cs : List Char} (h : byteLength cs = 0) : cs = [] :=
  Classical.byContradiction fun hne => Nat.ne_of_gt (byteLength_pos hne) h

private theorem dropBytes?_cons {c : Char} {cs : List Char} {n : Nat} :
    dropBytes? (c.utf8Size + n) (c :: cs) = dropBytes? n cs := by
  have := c.utf8Size_pos
  obtain ⟨m, hm⟩ : ∃ m, c.utf8Size + n = m + 1 := ⟨c.utf8Size + n - 1, by omega⟩
  rw [hm, dropBytes?, if_pos (by omega), ← hm, Nat.add_sub_cancel_left]

theorem dropBytes?_add (a b : List Char) (n : Nat) : dropBytes? (byteLength a + n) (a ++ b) = dropBytes? n b := by
  induction a with
  | nil => rw [byteLength, Nat.zero_add, List.nil_append]
  | cons c cs ih => rw [byteLength, Nat.add_assoc, List.cons_append, dropBytes?_cons, ih]

theorem dropBytes?_append (a b : List Char) : dropBytes? (byteLength a) (a ++ b) = some b := by
  have cut := dropBytes?_add a b 0
  rw [Nat.add_zero] at cut
  rw [cut]
  cases b <;> rfl

private theorem takeBytes?_cons {c : Char} {cs : List Char} {n : Nat} :
    takeBytes? (c.utf8Size + n) (c :: cs) = (takeBytes? n cs).map (c :: ·) := by
  have := c.utf8Size_pos
  obtain ⟨m, hm⟩ : ∃ m, c.utf8Size + n = m + 1 := ⟨c.utf8Size + n - 1, by omega⟩
  rw [hm, takeBytes?, if_pos (by omega), ← hm, Nat.add_sub_cancel_left]

theorem takeBytes?_append (a b : List Char) : takeBytes? (byteLength a) (a ++ b) = some a := by
  induction a with
  | nil => cases b <;> rfl
  | cons c cs ih => rw [byteLength, List.cons_append, takeBytes?_cons, ih, Option.map_some]

theorem exists_of_takeBytes? {n : Nat} {cs a : List Char} (h : takeBytes? n cs = some a) :
    ∃ b, cs = a ++ b ∧ byteLength a = n := by
  induction cs generalizing n a with
  | nil =>
    cases n with
    | zero =>
      cases h
      exact ⟨[], rfl, rfl⟩
    | succ n => cases h
  | cons c cs ih =>
    cases n with
    | zero =>
      cases h
      exact ⟨c :: cs, rfl, rfl⟩
    | succ n =>
      rw [takeBytes?, Option.ite_none_right_eq_some] at h
      obtain ⟨le, h⟩ := h
      obtain ⟨a, cut, rfl⟩ := Option.map_eq_some_iff.1 h
      obtain ⟨b, rfl, same⟩ := ih cut
      exact ⟨b, rfl, by rw [byteLength, same]; omega⟩

theorem slice?_append (a b c : List Char) :
    slice? (a ++ (b ++ c)) (byteLength a) (byteLength a + byteLength b) = some b := by
  rw [slice?, if_pos (Nat.le_add_right _ _), dropBytes?_append, Option.bind_some, Nat.add_sub_cancel_left,
    takeBytes?_append]

/-- Some characters from the start of the text take exactly that many bytes. -/
def IsBoundary (cs : List Char) (n : Nat) : Prop := ∃ a b, cs = a ++ b ∧ byteLength a = n

theorem IsBoundary.le {cs : List Char} {n : Nat} (h : IsBoundary cs n) : n ≤ byteLength cs := by
  obtain ⟨a, b, rfl, rfl⟩ := h
  rw [byteLength_append]
  omega

/-- A part up to an earlier boundary begins each part up to a later one. -/
theorem exists_append_of_byteLength_le {a b c d : List Char} (h : a ++ b = c ++ d)
    (le : byteLength a ≤ byteLength c) : ∃ e, c = a ++ e ∧ b = e ++ d := by
  rcases List.append_eq_append_iff.1 h with ⟨e, rfl, rfl⟩ | ⟨e, rfl, rfl⟩
  · exact ⟨e, rfl, rfl⟩
  · rw [byteLength_append] at le
    obtain rfl : e = [] := eq_nil_of_byteLength_eq_zero (by omega)
    exact ⟨[], by simp, rfl⟩

theorem append_inj_of_byteLength {a b c d : List Char} (h : a ++ b = c ++ d) (same : byteLength a = byteLength c) :
    a = c ∧ b = d := by
  obtain ⟨e, rfl, rfl⟩ := exists_append_of_byteLength_le h (Nat.le_of_eq same)
  rw [byteLength_append] at same
  obtain rfl : e = [] := eq_nil_of_byteLength_eq_zero (by omega)
  exact ⟨(List.append_nil a).symm, rfl⟩

/-- No boundary lies within a character. -/
theorem IsBoundary.le_of_lt {a b : List Char} {c : Char} {n : Nat} (h : IsBoundary (a ++ c :: b) n)
    (lt : byteLength a < n) : byteLength (a ++ [c]) ≤ n := by
  obtain ⟨x, y, split, rfl⟩ := h
  obtain ⟨e, rfl, behind⟩ := exists_append_of_byteLength_le split (Nat.le_of_lt lt)
  cases e with
  | nil =>
    rw [List.append_nil] at lt
    exact absurd lt (Nat.lt_irrefl _)
  | cons d e =>
    obtain ⟨rfl, -⟩ := List.cons_eq_cons.1 behind
    simp only [byteLength_append, byteLength]
    omega

theorem exists_slice {cs : List Char} {start stop : Nat} (hstart : IsBoundary cs start) (hstop : IsBoundary cs stop)
    (le : start ≤ stop) : ∃ found, slice? cs start stop = some found := by
  obtain ⟨a, b, rfl, rfl⟩ := hstart
  obtain ⟨c, d, h, rfl⟩ := hstop
  obtain ⟨e, rfl, rfl⟩ := exists_append_of_byteLength_le h le
  exact ⟨e, by rw [byteLength_append, slice?_append]⟩

end SpecCoverage.Text
