import SpecCoverage.Program.Lexer
import SpecCoverage.Proofs.Except
import SpecCoverage.Proofs.Text.Bytes

/-!
# Where the lexer stops

A scanner goes on from one place of a text to a later one: `Cursor.Reaches` says that the text between the two
places takes the bytes that the position has grown by.  Every scanner of the lexer reaches the cursor that it
returns (`skipTrivia_reaches`, `readKind_reaches`, …), and a token takes at least one byte unless the text has
ended (`readKind_passes`).
-/

namespace SpecCoverage.Program

open Text

/-! ## Single bytes -/

/-- Characters of one byte in UTF-8. -/
def IsSingle (c : Char) : Prop := c.utf8Size = 1

instance (c : Char) : Decidable (IsSingle c) := inferInstanceAs (Decidable (c.utf8Size = 1))

private theorem isSingle_of_lt {c : Char} (h : c.toNat < 128) : IsSingle c := by
  have : c.val ≤ 0x7f := UInt32.le_iff_toNat_le.2 (Nat.le_of_lt_succ h)
  simp [IsSingle, Char.utf8Size, this]

private theorem isSingle_of_le {c d : Char} (h : c ≤ d) (hd : d.toNat < 128) : IsSingle c :=
  isSingle_of_lt (Nat.lt_of_le_of_lt (UInt32.le_iff_toNat_le.1 h) hd)

private theorem isSingle_of_isDigit {c : Char} (h : c.isDigit = true) : IsSingle c := by
  simp only [Char.isDigit, Bool.and_eq_true, decide_eq_true_eq] at h
  exact isSingle_of_lt (Nat.lt_of_le_of_lt (UInt32.le_iff_toNat_le.1 h.2) (by decide))

private theorem isSingle_of_isHexDigit {c : Char} (h : isHexDigit c = true) : IsSingle c := by
  unfold isHexDigit hexDigit? at h
  split at h
  · next inside => exact isSingle_of_le inside.2 (by decide)
  · split at h
    · next inside => exact isSingle_of_le inside.2 (by decide)
    · split at h
      · next inside => exact isSingle_of_le inside.2 (by decide)
      · cases h

private theorem isSingle_of_isOctalDigit {c : Char} (h : isOctalDigit c = true) : IsSingle c := by
  simp only [isOctalDigit, Bool.and_eq_true, decide_eq_true_eq] at h
  exact isSingle_of_le h.2 (by decide)

private theorem isSingle_of_isBinaryDigit {c : Char} (h : isBinaryDigit c = true) : IsSingle c := by
  simp only [isBinaryDigit, Bool.or_eq_true, decide_eq_true_eq] at h
  rcases h with rfl | rfl <;> decide

private theorem byteLength_of_isSingle {cs : List Char} (h : ∀ c ∈ cs, IsSingle c) : byteLength cs = cs.length := by
  induction cs with
  | nil => rfl
  | cons c cs ih =>
    rw [byteLength, ih fun d hd => h d (List.mem_cons_of_mem _ hd), h c List.mem_cons_self, List.length_cons]
    omega

/-! ## From one place to another -/

namespace Cursor

/-- The second place is behind a piece of text that begins at the first. -/
def Reaches (c c' : Cursor) : Prop :=
  ∃ taken, c.rest = taken ++ c'.rest ∧ c'.offset = c.offset + byteLength taken

theorem Reaches.refl (c : Cursor) : Reaches c c := ⟨[], rfl, rfl⟩

theorem Reaches.trans {a b c : Cursor} (hab : Reaches a b) (hbc : Reaches b c) : Reaches a c := by
  obtain ⟨first, hrest, hoffset⟩ := hab
  obtain ⟨second, hrest', hoffset'⟩ := hbc
  exact ⟨first ++ second, by rw [hrest, hrest', List.append_assoc],
    by rw [hoffset', hoffset, byteLength_append, Nat.add_assoc]⟩

theorem Reaches.le {a b : Cursor} (h : Reaches a b) : a.offset ≤ b.offset := by
  obtain ⟨_, -, hoffset⟩ := h
  omega

/-- The second place is behind the first, and not the same. -/
def Passes (c c' : Cursor) : Prop := Reaches c c' ∧ c.offset < c'.offset

theorem Reaches.passes {a b c : Cursor} (hab : Reaches a b) (hbc : Passes b c) : Passes a c :=
  ⟨hab.trans hbc.1, Nat.lt_of_le_of_lt hab.le hbc.2⟩

theorem Passes.reaches {a b c : Cursor} (hab : Passes a b) (hbc : Reaches b c) : Passes a c :=
  ⟨hab.1.trans hbc, Nat.lt_of_lt_of_le hab.2 hbc.le⟩

private theorem Reaches.passes_of_ne {a b : Cursor} (h : Reaches a b) (moved : a.rest ≠ b.rest) : Passes a b := by
  refine ⟨h, ?_⟩
  obtain ⟨taken, hrest, hoffset⟩ := h
  have some : taken ≠ [] := by
    rintro rfl
    exact moved hrest
  have := byteLength_pos some
  omega

private theorem passes_behind {c : Cursor} (taken : List Char) {rest : List Char} {n : Nat}
    (hrest : c.rest = taken ++ rest)
    (hn : byteLength taken = n) (pos : 0 < n) : Passes c ⟨rest, c.offset + n⟩ :=
  ⟨⟨taken, hrest, by rw [hn]⟩, Nat.lt_add_of_pos_right pos⟩

private theorem reaches_behind {c : Cursor} (taken : List Char) {rest : List Char} {n : Nat}
    (hrest : c.rest = taken ++ rest)
    (hn : byteLength taken = n) : Reaches c ⟨rest, c.offset + n⟩ :=
  ⟨taken, hrest, by rw [hn]⟩

private theorem reaches_cons (c : Char) (cs : List Char) (n : Nat) : Reaches ⟨c :: cs, n⟩ ⟨cs, n + c.utf8Size⟩ :=
  ⟨[c], rfl, rfl⟩

private theorem reaches_single {c : Char} (h : IsSingle c) (cs : List Char) (n : Nat) :
    Reaches ⟨c :: cs, n⟩ ⟨cs, n + 1⟩ :=
  h ▸ reaches_cons c cs n

private theorem reaches_skip {c : Cursor} (taken : List Char) {rest : List Char} (hrest : c.rest = taken ++ rest)
    (single : ∀ d ∈ taken, IsSingle d) : Reaches c (c.skip taken.length) :=
  ⟨taken, by simp [skip, hrest], by rw [byteLength_of_isSingle single, skip]⟩

theorem passes_skip_one {c : Cursor} {d : Char} (h : c.head? = some d) (single : IsSingle d) : Passes c (c.skip 1) := by
  obtain ⟨rest, hrest⟩ := List.head?_eq_some_iff.1 h
  exact ⟨reaches_skip [d] hrest (by simpa using single), Nat.lt_succ_self _⟩

private theorem reaches_run (p : Char → Bool) (cs : List Char) (n : Nat) : Reaches ⟨cs, n⟩ (run p cs n).2 := by
  induction cs generalizing n with
  | nil => exact .refl _
  | cons c cs ih =>
    rw [run]
    split
    · exact (reaches_cons c cs n).trans (ih _)
    · exact .refl _

/-- A run ends at a character of another class. -/
private theorem head_of_run {p : Char → Bool} {cs taken : List Char} {n : Nat} {stop : Cursor} {d : Char}
    (h : run p cs n = (taken, stop)) (hd : stop.head? = some d) : p d = false := by
  induction cs generalizing n taken with
  | nil => cases h; cases hd
  | cons c cs ih =>
    rw [run] at h
    split at h
    · obtain ⟨-, h⟩ := Prod.mk.inj h
      exact ih (Prod.ext rfl h)
    · next other =>
      cases h
      cases hd
      simpa using other

private theorem reaches_of_takeRun {p : Char → Bool} {c stop : Cursor} {taken : List Char}
    (h : c.takeRun p = (taken, stop)) :
    Reaches c stop := by
  have reached := reaches_run p c.rest c.offset
  rwa [show run p c.rest c.offset = (taken, stop) from h] at reached

private theorem passes_of_takeRun {p : Char → Bool} {c stop : Cursor} {taken : List Char}
    (h : c.takeRun p = (taken, stop))
    (some : taken ≠ []) : Passes c stop := by
  obtain ⟨cs, n⟩ := c
  cases cs with
  | nil => cases h; exact absurd rfl some
  | cons c cs =>
    unfold takeRun run at h
    split at h
    · cases h
      exact Passes.reaches (passes_behind [c] rfl rfl (by rw [byteLength]; have := c.utf8Size_pos; omega))
        (reaches_run p cs _)
    · cases h
      exact absurd rfl some

end Cursor

open Cursor

/-! ## Blanks and comments -/

theorem skipTrivia_reaches {classic : Bool} {mode : Trivia} {cs : List Char} {n : Nat} {ended ended' : Bool}
    {stop : Cursor} (h : skipTrivia classic mode cs n ended = .ok (stop, ended')) : Reaches ⟨cs, n⟩ stop := by
  fun_induction skipTrivia classic mode cs n ended with
  | case1 n ended cs ih => exact .trans ⟨['/', '/'], rfl, rfl⟩ (ih h)
  | case2 n ended cs ih => exact .trans ⟨['/', '*'], rfl, rfl⟩ (ih h)
  | case3 n ended cs _ ih => exact .trans ⟨['<', '!', '-', '-'], rfl, rfl⟩ (ih h)
  | case6 n ended cs _ _ ih => exact .trans ⟨['-', '-', '>'], rfl, rfl⟩ (ih h)
  | case13 start n ended cs ih => exact .trans ⟨['*', '/'], rfl, rfl⟩ (ih h)
  | case8 _ _ _ _ _ _ _ _ _ ih => exact (reaches_cons _ _ _).trans (ih h)
  | case9 _ _ _ _ _ _ _ _ _ _ ih => exact (reaches_cons _ _ _).trans (ih h)
  | case11 _ _ _ _ _ ih => exact (reaches_cons _ _ _).trans (ih h)
  | case12 _ _ _ _ _ ih => exact (reaches_cons _ _ _).trans (ih h)
  | case14 _ _ _ _ _ _ ih => exact (reaches_cons _ _ _).trans (ih h)
  | case4 | case7 | case15 => cases h
  | case5 | case10 | case16 => cases h; exact .refl _

/-! ## Escapes and names -/

private theorem readCodePoint_reaches {c stop : Cursor} {code : Nat} (h : readCodePoint c = .ok (code, stop)) :
    Reaches c stop := by
  revert h
  fun_cases readCodePoint c with
  | case2 rest e digits after run last closed =>
    rintro ⟨⟩
    have opened : Reaches c ⟨rest, c.offset + 1⟩ := reaches_behind ['{'] e rfl
    have inside : Reaches ⟨rest, c.offset + 1⟩ after := by simpa [run] using reaches_run isHexDigit rest (c.offset + 1)
    exact opened.trans (inside.trans (reaches_behind ['}'] closed rfl))
  | case4 w x y z rest _ e hex =>
    rintro ⟨⟩
    have single : ∀ d ∈ [w, x, y, z], IsSingle d := fun d hd => isSingle_of_isHexDigit (List.all_eq_true.1 hex d hd)
    exact reaches_behind [w, x, y, z] e (byteLength_of_isSingle single)
  | case1 | case3 | case5 | case6 => rintro ⟨⟩

private theorem readEscapedName_reaches {fuel : Nat} {c stop : Cursor} {name : List Char}
    (h : readEscapedName fuel c = .ok (name, stop)) : Reaches c stop ∧ (name ≠ [] → Passes c stop) := by
  fun_induction readEscapedName fuel c generalizing name with
  | case2 fuel c taken behind run rest escaped ih =>
    have backslash : Passes behind ⟨rest, behind.offset + 2⟩ :=
      passes_behind ['\\', 'u'] escaped rfl (by decide)
    obtain ⟨⟨code, next⟩, hcode, h⟩ := bind_eq_ok.1 h
    dsimp only at h
    split at h
    · obtain ⟨⟨more, last⟩, hmore, h⟩ := bind_eq_ok.1 h
      cases h
      have passes := (reaches_of_takeRun run).passes
        (backslash.reaches ((readCodePoint_reaches hcode).trans (ih next hmore).1))
      exact ⟨passes.1, fun _ => passes⟩
    · cases h
  | case4 fuel c taken behind run =>
    cases h
    exact ⟨reaches_of_takeRun run, passes_of_takeRun run⟩
  | case1 | case3 => cases h

/-- A name has a first character. -/
private theorem readName_passes {c stop : Cursor} {name : List Char} {escaped : Bool}
    (h : readName c = .ok (name, escaped, stop)) : Passes c stop := by
  revert h
  fun_cases readName c with
  | case1 taken behind run check tail backslash =>
    intro h
    obtain ⟨⟨more, last⟩, hmore, h⟩ := bind_eq_ok.1 h
    have found : taken ++ more ≠ [] ∧ last = stop := by simp [check] at h; grind [Cursor.fail]
    obtain ⟨reaches, passes⟩ := readEscapedName_reaches hmore
    rw [← found.2]
    by_cases start : taken = []
    · exact (reaches_of_takeRun run).passes (passes fun none => found.1 (by rw [start, none]; rfl))
    · exact (passes_of_takeRun run start).reaches reaches
  | case2 taken behind run check =>
    intro h
    have found : taken ≠ [] ∧ behind = stop := by simp [check] at h; grind [Cursor.fail]
    exact found.2 ▸ passes_of_takeRun run found.1

/-! ## Numbers -/

private theorem readDigits_reaches {p : Char → Bool} (single : ∀ c, p c = true → IsSingle c) {after : Bool}
    {cs : List Char}
    {n : Nat} {stop : Cursor} (h : readDigits p after cs n = .ok stop) : Reaches ⟨cs, n⟩ stop := by
  fun_induction readDigits p after cs n with
  | case1 after c cs n _ ih => exact .trans ⟨['_'], rfl, rfl⟩ (ih h)
  | case3 after c cs n _ digit ih => exact (reaches_single (single c digit) cs n).trans (ih h)
  | case5 | case6 => cases h; exact .refl _
  | case2 | case4 => cases h

private theorem readExponent_reaches {c stop : Cursor} (h : readExponent c = .ok stop) : Reaches c stop := by
  revert h
  fun_cases readExponent c with
  | case1 e rest begins mark digits =>
    intro h
    obtain ⟨last, hdigits, h⟩ := bind_eq_ok.1 h
    have same : last = stop := by grind [Cursor.fail]
    have single : IsSingle e := by
      simp only [Bool.or_eq_true, decide_eq_true_eq] at mark
      rcases mark with rfl | rfl <;> decide
    have opened : Reaches c ⟨rest, c.offset + 1⟩ :=
      reaches_behind [e] begins (byteLength_of_isSingle (by simpa using single))
    have signed : Reaches c digits := by
      unfold digits
      split
      · next _ sign more _ =>
        split
        · next isSign =>
          have single : IsSingle sign := by
            simp only [Bool.or_eq_true, decide_eq_true_eq] at isSign
            rcases isSign with rfl | rfl <;> decide
          exact opened.trans (reaches_single single more _)
        · exact opened
      · exact opened
    exact signed.trans (same ▸ readDigits_reaches (fun _ => isSingle_of_isDigit) hdigits)
  | case2 | case3 => rintro ⟨⟩; exact .refl _

private theorem readFraction_passes {c stop : Cursor} {rest : List Char} (point : c.rest = '.' :: rest)
    (h : readFraction c = .ok stop) : Passes c stop := by
  rw [readFraction, point] at h
  obtain ⟨last, hdigits, h⟩ := bind_eq_ok.1 h
  have opened : Passes c ⟨rest, c.offset + 1⟩ := passes_behind ['.'] point rfl (by decide)
  exact opened.reaches ((readDigits_reaches (fun _ => isSingle_of_isDigit) hdigits).trans (readExponent_reaches h))

private theorem readFraction_reaches {c stop : Cursor} (h : readFraction c = .ok stop) : Reaches c stop := by
  fun_cases readFraction c with
  | case1 rest point => exact (readFraction_passes point h).1
  | case2 =>
    rename_i noPoint
    rw [readFraction] at h
    split at h
    · next rest point => exact absurd point (noPoint rest)
    · exact readExponent_reaches h

/-- The `n` behind the digits of a large integer. -/
private theorem reaches_suffix {c stop last : Cursor} {kind : TokenKind} {other : Scan (TokenKind × Cursor)}
    (hstop : Reaches c stop) (hother : other = .ok (kind, last) → Reaches c last)
    (h : (match stop.rest with
      | 'n' :: rest => .ok (.bigint, ⟨rest, stop.offset + 1⟩)
      | _ => other) = Except.ok (kind, last)) : Reaches c last := by
  split at h
  · next suffix =>
    cases h
    exact hstop.trans (reaches_behind ['n'] suffix rfl)
  · exact hother h

private theorem readRadix_reaches {p : Char → Bool} (single : ∀ c, p c = true → IsSingle c) {c stop : Cursor}
    {kind : TokenKind}
    {first second : Char} {rest : List Char} (begins : c.rest = first :: second :: rest)
    (hfirst : IsSingle first) (hsecond : IsSingle second) (h : readRadix p c = .ok (kind, stop)) : Reaches c stop := by
  obtain ⟨last, hdigits, h⟩ := bind_eq_ok.1 h
  have opened : Reaches c (c.skip 2) :=
    reaches_skip [first, second] begins (by simpa using ⟨hfirst, hsecond⟩)
  have reached : Reaches c last := opened.trans (readDigits_reaches single hdigits)
  split at h
  · cases h
  · exact reaches_suffix reached (by rintro ⟨⟩; exact reached) h

private theorem readLegacyNumber_reaches {c stop : Cursor} {kind : TokenKind}
    (h : readLegacyNumber c = .ok (kind, stop)) :
    Reaches c stop := by
  revert h
  fun_cases readLegacyNumber c with
  | case1 digits behind run =>
    rintro ⟨⟩
    exact reaches_of_takeRun run
  | case2 digits behind run =>
    intro h
    obtain ⟨last, hfraction, h⟩ := bind_eq_ok.1 h
    cases h
    exact (reaches_of_takeRun run).trans (readFraction_reaches hfraction)

private theorem readDecimal_reaches {c stop : Cursor} {kind : TokenKind} (h : readDecimal c = .ok (kind, stop)) :
    Reaches c stop := by
  obtain ⟨last, hdigits, h⟩ := bind_eq_ok.1 h
  have reached : Reaches c last := readDigits_reaches (fun _ => isSingle_of_isDigit) hdigits
  refine reaches_suffix reached (fun h => ?_) h
  obtain ⟨behind, hfraction, h⟩ := bind_eq_ok.1 h
  cases h
  exact reached.trans (readFraction_reaches hfraction)

/-- What follows a number only decides whether it is one; no digit does. -/
private theorem eq_of_ends (read : TokenKind × Cursor) {found : TokenKind × Cursor}
    (h : (match read with
      | (kind, stop) => match stop.head? with
        | some next => if beginsName next || next.isDigit || next = '\\' then stop.fail else .ok (kind, stop)
        | none => .ok (kind, stop)) = Except.ok found) :
    read = found ∧ ∀ next, found.2.head? = some next → next.isDigit = false := by
  dsimp only at h
  split at h
  · next next head =>
    split at h
    · cases h
    · next allowed =>
      cases h
      refine ⟨rfl, fun d hd => ?_⟩
      rw [head] at hd
      cases hd
      simp only [Bool.or_eq_true, not_or, Bool.not_eq_true] at allowed
      exact allowed.1.2
  · next head =>
    cases h
    refine ⟨rfl, fun d hd => ?_⟩
    rw [head] at hd
    cases hd

private theorem readNumber_reaches {c stop : Cursor} {kind : TokenKind} (h : readNumber c = .ok (kind, stop)) :
    Reaches c stop ∧ ∀ d, stop.head? = some d → d.isDigit = false := by
  revert h
  have letter : ∀ {x a b : Char}, (decide (x = a) || decide (x = b)) = true → IsSingle a → IsSingle b → IsSingle x := by
    grind
  fun_cases readNumber c with
  | case1 check x rest begins mark =>
    intro h
    obtain ⟨read, hread, h⟩ := bind_eq_ok.1 h
    obtain ⟨rfl, ends⟩ := eq_of_ends _ h
    have second := letter mark (by decide) (by decide)
    exact ⟨readRadix_reaches (fun _ => isSingle_of_isHexDigit) begins (by decide) second hread, ends⟩
  | case2 check x rest begins _ mark =>
    intro h
    obtain ⟨read, hread, h⟩ := bind_eq_ok.1 h
    obtain ⟨rfl, ends⟩ := eq_of_ends _ h
    have second := letter mark (by decide) (by decide)
    exact ⟨readRadix_reaches (fun _ => isSingle_of_isOctalDigit) begins (by decide) second hread, ends⟩
  | case3 check x rest begins _ _ mark =>
    intro h
    obtain ⟨read, hread, h⟩ := bind_eq_ok.1 h
    obtain ⟨rfl, ends⟩ := eq_of_ends _ h
    have second := letter mark (by decide) (by decide)
    exact ⟨readRadix_reaches (fun _ => isSingle_of_isBinaryDigit) begins (by decide) second hread, ends⟩
  | case4 =>
    intro h
    obtain ⟨read, hread, h⟩ := bind_eq_ok.1 h
    obtain ⟨rfl, ends⟩ := eq_of_ends _ h
    exact ⟨readLegacyNumber_reaches hread, ends⟩
  | case5 => rintro ⟨⟩
  | case6 | case8 =>
    intro h
    obtain ⟨read, hread, h⟩ := bind_eq_ok.1 h
    obtain ⟨rfl, ends⟩ := eq_of_ends _ h
    exact ⟨readDecimal_reaches hread, ends⟩
  | case7 =>
    intro h
    obtain ⟨last, hread, h⟩ := bind_eq_ok.1 h
    obtain ⟨same, ends⟩ := eq_of_ends (.number false, last) h
    cases same
    exact ⟨readFraction_reaches hread, ends⟩

/-! ## Strings -/

private theorem octalDigits_prefix (cs : List Char) : ∃ rest, cs = octalDigits cs ++ rest := by
  have digits : List.takeWhile isOctalDigit (cs.take 3) <+: cs :=
    (List.takeWhile_prefix _).trans (List.take_prefix 3 cs)
  have found : octalDigits cs <+: cs := by
    unfold octalDigits
    dsimp only
    split
    · exact digits
    · exact (List.take_prefix 2 _).trans digits
  obtain ⟨rest, h⟩ := found
  exact ⟨rest, h.symm⟩

private theorem isSingle_of_mem_octalDigits {cs : List Char} {d : Char} (h : d ∈ octalDigits cs) : IsSingle d := by
  have digit : d ∈ List.takeWhile isOctalDigit (cs.take 3) := by
    unfold octalDigits at h
    dsimp only at h
    split at h
    · exact h
    · exact List.mem_of_mem_take h
  exact isSingle_of_isOctalDigit (List.all_eq_true.1 List.all_takeWhile d digit)

private theorem readEscape_reaches {c stop : Cursor} {units : List Nat} {legacy : Bool}
    (h : readEscape c = .ok (units, legacy, stop)) : Reaches c stop := by
  revert h
  fun_cases readEscape c with
  | case2 rest e => rintro ⟨⟩; exact reaches_behind ['\r', '\n'] e rfl
  | case3 y z rest e hex =>
    rintro ⟨⟩
    obtain ⟨hy, hz⟩ := Bool.and_eq_true_iff.1 hex
    refine reaches_behind ['x', y, z] e (byteLength_of_isSingle ?_)
    simpa using ⟨by decide, isSingle_of_isHexDigit hy, isSingle_of_isHexDigit hz⟩
  | case5 rest e =>
    intro h
    obtain ⟨⟨code, last⟩, hcode, h⟩ := bind_eq_ok.1 h
    cases h
    exact (reaches_behind ['u'] e rfl).trans (readCodePoint_reaches hcode)
  | case7 char rest _ _ _ e => rintro ⟨⟩; exact reaches_behind [char] e rfl
  | case8 char rest _ _ _ e _ _ zero =>
    rintro ⟨⟩
    obtain rfl : char = '0' := by simpa using (Bool.and_eq_true_iff.1 zero).1
    exact reaches_behind ['0'] e rfl
  | case9 char rest _ _ _ e =>
    rintro ⟨⟩
    obtain ⟨rest, hrest⟩ := octalDigits_prefix c.rest
    exact reaches_skip _ hrest fun _ => isSingle_of_mem_octalDigits
  | case10 char rest _ _ _ e => rintro ⟨⟩; exact reaches_behind [char] e rfl
  | case1 | case4 | case6 => rintro ⟨⟩

private theorem readStringFrom_reaches {quote : Char} (single : IsSingle quote) {fuel : Nat} {c stop : Cursor}
    {units : List Nat} {legacy : Bool} (h : readStringFrom quote fuel c = .ok (units, legacy, stop)) :
    Reaches c stop := by
  fun_induction readStringFrom quote fuel c generalizing units legacy with
  | case2 fuel c taken behind run units rest escaped =>
    rename_i ih
    have backslash : Reaches behind ⟨rest, behind.offset + 1⟩ := reaches_behind ['\\'] escaped rfl
    obtain ⟨⟨escape, isLegacy, next⟩, hescape, h⟩ := bind_eq_ok.1 h
    obtain ⟨⟨more, others, last⟩, hmore, h⟩ := bind_eq_ok.1 h
    cases h
    exact (reaches_of_takeRun run).trans (backslash.trans ((readEscape_reaches hescape).trans (ih next hmore)))
  | case3 fuel c taken behind run units rest _ =>
    rename_i closed
    cases h
    have single : ∀ d ∈ [quote], IsSingle d := by simpa using single
    exact (reaches_of_takeRun run).trans (reaches_behind [quote] closed (byteLength_of_isSingle single))
  | case1 | case4 | case5 => cases h

private theorem readString_passes {quote : Char} (single : IsSingle quote) {c stop : Cursor} {kind : TokenKind}
    (begins : c.head? = some quote) (h : readString quote c = .ok (kind, stop)) : Passes c stop := by
  obtain ⟨⟨units, legacy, last⟩, hunits, h⟩ := bind_eq_ok.1 h
  cases h
  exact (passes_skip_one begins single).reaches (readStringFrom_reaches single hunits)

/-! ## Templates and regular expressions -/

private theorem readTemplateFrom_passes {fuel : Nat} {c stop : Cursor} {ending : TemplateEnd} {valid : Bool}
    (h : readTemplateFrom fuel c = .ok (ending, valid, stop)) : Passes c stop := by
  fun_induction readTemplateFrom fuel c generalizing ending valid with
  | case2 fuel c taken behind run rest closed =>
    cases h
    exact (reaches_of_takeRun run).passes (passes_behind ['`'] closed rfl (by decide))
  | case3 fuel c taken behind run rest opened =>
    cases h
    exact (reaches_of_takeRun run).passes (passes_behind ['$', '\x7b'] opened rfl (by decide))
  | case4 fuel c taken behind run rest _ dollar ih =>
    exact (reaches_of_takeRun run).passes ((reaches_behind ['$'] dollar rfl).passes (ih h))
  | case5 fuel c taken behind run rest escaped _ legacy next hescape ih =>
    have backslash : Reaches behind ⟨rest, behind.offset + 1⟩ := reaches_behind ['\\'] escaped rfl
    obtain ⟨⟨ending', valid', last⟩, hmore, h⟩ := bind_eq_ok.1 h
    cases h
    exact (reaches_of_takeRun run).passes (backslash.passes ((readEscape_reaches hescape).passes (ih hmore)))
  | case7 fuel c taken behind run _ char after escaped _ ih =>
    have backslash : Reaches behind ⟨char :: after, behind.offset + 1⟩ := reaches_behind ['\\'] escaped rfl
    obtain ⟨⟨ending', valid', last⟩, hmore, h⟩ := bind_eq_ok.1 h
    cases h
    exact (reaches_of_takeRun run).passes (backslash.passes ((reaches_cons char after _).passes (ih hmore)))
  | case1 | case6 | case8 => cases h

theorem readTemplate_passes {c stop : Cursor} {ending : TemplateEnd} {valid : Bool}
    (h : readTemplate c = .ok (ending, valid, stop)) : Passes c stop :=
  readTemplateFrom_passes h

private theorem readRegexBody_reaches {inClass : Bool} {cs : List Char} {n : Nat} {stop : Cursor}
    (h : readRegexBody inClass cs n = .ok stop) : Reaches ⟨cs, n⟩ stop := by
  fun_induction readRegexBody inClass cs n with
  | case3 inClass c cs n _ ih => exact (reaches_single (by decide) _ _).trans ((reaches_cons c cs _).trans (ih h))
  | case5 inClass c cs n _ _ closed =>
    cases h
    obtain rfl : c = '/' := by simpa using (Bool.and_eq_true_iff.1 closed).1
    exact reaches_cons '/' cs n
  | case6 inClass c cs n _ _ _ ih => exact (reaches_cons c cs n).trans (ih h)
  | case1 | case2 | case4 => cases h

theorem readRegex_passes {c stop : Cursor} (begins : c.head? = some '/') (h : readRegex c = .ok stop) :
    Passes c stop := by
  obtain ⟨flags, hbody, h⟩ := bind_eq_ok.1 h
  have body : Passes c flags := (passes_skip_one begins (by decide)).reaches (readRegexBody_reaches hbody)
  cases letters : flags.takeRun continuesName with
  | mk taken behind =>
    rw [letters] at h
    dsimp only at h
    split at h
    · cases h
      exact body.reaches (reaches_of_takeRun letters)
    · cases h

/-! ## Elements -/

theorem readElementText_eq_ok {c stop : Cursor} (h : readElementText c = .ok stop) :
    Reaches c stop ∧ (stop.head? = some '\x7b' ∨ stop.head? = some '<') := by
  revert h
  fun_cases readElementText c with
  | case1 _ behind run head => rintro ⟨⟩; exact ⟨reaches_of_takeRun run, .inl head⟩
  | case2 _ behind run head => rintro ⟨⟩; exact ⟨reaches_of_takeRun run, .inr head⟩
  | case3 => rintro ⟨⟩

theorem readElementString_passes {c stop : Cursor} {quote : Char} (begins : c.head? = some quote)
    (single : IsSingle quote) (h : readElementString c = .ok stop) : Passes c stop := by
  revert h
  fun_cases readElementString c with
  | case1 first cs start taken behind scanned last after closed =>
    rintro ⟨⟩
    obtain rfl : first = quote := by simpa [head?, start] using begins
    have isQuote : last = first := by simpa using head_of_run scanned (by rw [head?, closed]; rfl)
    have byte : byteLength [first] = 1 := byteLength_of_isSingle (by simpa using single)
    have inside : Reaches ⟨cs, c.offset + 1⟩ behind := reaches_of_takeRun (c := ⟨cs, c.offset + 1⟩) scanned
    exact (passes_behind [first] start byte (by decide)).reaches
      (inside.trans (reaches_behind [last] closed (isQuote ▸ byte)))
  | case2 | case3 => rintro ⟨⟩

theorem readElementName_reaches (c : Cursor) : Reaches c (readElementName c) := reaches_run _ c.rest c.offset

/-! ## Tokens -/

private theorem isSingle_of_mem_symbols {text : List Char} {d : Char} (h : text ∈ symbols) (hd : d ∈ text) :
    IsSingle d := by
  have all : (symbols.all fun text => text.all fun d => d.toNat < 128) = true := by decide
  exact isSingle_of_lt (of_decide_eq_true (List.all_eq_true.1 (List.all_eq_true.1 all text h) d hd))

private theorem ne_nil_of_mem_symbols {text : List Char} (h : text ∈ symbols) : text ≠ [] := by
  rintro rfl
  exact absurd h (by decide)

private theorem readSymbol_eq_ok {c stop : Cursor} {kind : TokenKind} (h : readSymbol c = .ok (kind, stop)) :
    ∃ text rest, text ∈ symbols ∧ c.rest = text ++ rest ∧ kind = .symbol (String.ofList text)
      ∧ stop = c.skip text.length := by
  revert h
  fun_cases readSymbol c with
  | case1 d tail begins => rintro ⟨⟩; exact ⟨['?'], '.' :: d :: tail, by decide, begins, rfl, rfl⟩
  | case2 d tail begins => rintro ⟨⟩; exact ⟨['?', '.'], d :: tail, by decide, begins, rfl, rfl⟩
  | case3 text found =>
    rintro ⟨⟩
    have starts : text.isPrefixOf c.rest = true := by simpa using List.find?_some found
    obtain ⟨rest, begins⟩ := List.isPrefixOf_iff_prefix.1 starts
    exact ⟨text, rest, List.mem_of_find?_eq_some found, begins.symm, rfl, rfl⟩
  | case4 => rintro ⟨⟩

private theorem readKind_passes_or {c stop : Cursor} {kind : TokenKind} (h : readKind c = .ok (kind, stop)) :
    kind = .endOfText ∧ stop = c ∨ Passes c stop := by
  revert h
  fun_cases readKind c with
  | case1 => rintro ⟨⟩; exact .inl ⟨rfl, rfl⟩
  | case2 quote after begins isQuote =>
    have single : IsSingle quote := by
      simp only [Bool.or_eq_true, decide_eq_true_eq] at isQuote
      rcases isQuote with rfl | rfl <;> decide
    exact fun h => .inr (readString_passes single (by rw [head?, begins]; rfl) h)
  | case3 after begins => rintro ⟨⟩; exact .inr (passes_skip_one (by rw [head?, begins]; rfl) (by decide))
  | case4 first after begins _ _ number =>
    intro h
    obtain ⟨reaches, ends⟩ := readNumber_reaches h
    simp only [Bool.or_eq_true, Bool.and_eq_true, decide_eq_true_eq] at number
    rcases number with digit | ⟨rfl, -⟩
    · refine .inr (reaches.passes_of_ne fun same => ?_)
      have := ends first (by rw [head?, ← same, begins]; rfl)
      rw [digit] at this
      cases this
    · rw [readNumber, begins] at h
      obtain ⟨last, hread, h⟩ := bind_eq_ok.1 h
      obtain ⟨same, -⟩ := eq_of_ends (.number false, last) h
      cases same
      exact .inr (readFraction_passes begins hread)
  | case5 after begins =>
    intro h
    obtain ⟨⟨name, escaped, last⟩, hname, h⟩ := bind_eq_ok.1 h
    cases h
    exact .inr ((passes_skip_one (by rw [head?, begins]; rfl) (by decide)).reaches (readName_passes hname).1)
  | case6 =>
    intro h
    obtain ⟨⟨name, escaped, last⟩, hname, h⟩ := bind_eq_ok.1 h
    cases h
    exact .inr (readName_passes hname)
  | case7 =>
    intro h
    obtain ⟨text, rest, member, begins, rfl, rfl⟩ := readSymbol_eq_ok h
    have long : 0 < text.length := List.length_pos_iff.2 (ne_nil_of_mem_symbols member)
    exact .inr ⟨reaches_skip _ begins fun _ => isSingle_of_mem_symbols member, Nat.lt_add_of_pos_right long⟩

/-- A token takes at least one byte. -/
theorem readKind_passes {c stop : Cursor} {kind : TokenKind} (h : readKind c = .ok (kind, stop))
    (some : kind ≠ .endOfText) : Passes c stop :=
  (readKind_passes_or h).resolve_left fun ended => some ended.1

theorem readKind_reaches {c stop : Cursor} {kind : TokenKind} (h : readKind c = .ok (kind, stop)) : Reaches c stop := by
  rcases readKind_passes_or h with ⟨-, rfl⟩ | passes
  · exact .refl _
  · exact passes.1

private theorem ne_symbol_of_suffix {stop last : Cursor} {text : String} {other : Scan (TokenKind × Cursor)}
    (hother : other ≠ .ok (.symbol text, last)) :
    (match stop.rest with
      | 'n' :: rest => .ok (.bigint, ⟨rest, stop.offset + 1⟩)
      | _ => other) ≠ Except.ok (.symbol text, last) := by
  split
  · exact nofun
  · exact hother

private theorem readRadix_ne_symbol {p : Char → Bool} {c stop : Cursor} {text : String} :
    readRadix p c ≠ .ok (.symbol text, stop) := by
  intro h
  obtain ⟨last, -, h⟩ := bind_eq_ok.1 h
  split at h
  · cases h
  · exact ne_symbol_of_suffix (fun h => by cases h) h

private theorem readLegacyNumber_ne_symbol {c stop : Cursor} {text : String} :
    readLegacyNumber c ≠ .ok (.symbol text, stop) := by
  fun_cases readLegacyNumber c with
  | case1 => exact nofun
  | case2 =>
    intro h
    obtain ⟨last, -, h⟩ := bind_eq_ok.1 h
    cases h

private theorem readDecimal_ne_symbol {c stop : Cursor} {text : String} : readDecimal c ≠ .ok (.symbol text, stop) := by
  intro h
  obtain ⟨last, -, h⟩ := bind_eq_ok.1 h
  refine ne_symbol_of_suffix (fun h => ?_) h
  obtain ⟨last, -, h⟩ := bind_eq_ok.1 h
  cases h

private theorem readNumber_ne_symbol {c stop : Cursor} {text : String} : readNumber c ≠ .ok (.symbol text, stop) := by
  fun_cases readNumber c with
  | case1 | case2 | case3 =>
    intro h
    obtain ⟨read, hread, h⟩ := bind_eq_ok.1 h
    obtain ⟨rfl, -⟩ := eq_of_ends _ h
    exact readRadix_ne_symbol hread
  | case4 =>
    intro h
    obtain ⟨read, hread, h⟩ := bind_eq_ok.1 h
    obtain ⟨rfl, -⟩ := eq_of_ends _ h
    exact readLegacyNumber_ne_symbol hread
  | case5 => exact nofun
  | case6 | case8 =>
    intro h
    obtain ⟨read, hread, h⟩ := bind_eq_ok.1 h
    obtain ⟨rfl, -⟩ := eq_of_ends _ h
    exact readDecimal_ne_symbol hread
  | case7 =>
    intro h
    obtain ⟨last, -, h⟩ := bind_eq_ok.1 h
    obtain ⟨same, -⟩ := eq_of_ends (.number false, last) h
    cases same

/-- The text of a symbol stands where the symbol begins. -/
theorem head?_of_symbol {c stop : Cursor} {text : String} (h : readKind c = .ok (.symbol text, stop)) :
    c.head? = text.toList.head? := by
  revert h
  fun_cases readKind c with
  | case1 | case3 => rintro ⟨⟩
  | case2 =>
    intro h
    obtain ⟨_, -, h⟩ := bind_eq_ok.1 h
    cases h
  | case4 => exact fun h => absurd h readNumber_ne_symbol
  | case5 | case6 =>
    intro h
    obtain ⟨_, -, h⟩ := bind_eq_ok.1 h
    cases h
  | case7 =>
    intro h
    obtain ⟨found, rest, member, begins, same, -⟩ := readSymbol_eq_ok h
    cases same
    cases found with
    | nil => exact absurd rfl (ne_nil_of_mem_symbols member)
    | cons d _ => simp [head?, begins]

theorem readTokenAt_eq_ok {onNewLine : Bool} {c : Cursor} {t : Token} (h : readTokenAt onNewLine c = .ok t) :
    t.start = c ∧ readKind c = .ok (t.kind, t.stop) := by
  obtain ⟨⟨kind, stop⟩, hkind, h⟩ := bind_eq_ok.1 h
  cases h
  exact ⟨rfl, hkind⟩

theorem readToken_eq_ok {classic : Bool} {c : Cursor} {t : Token} (h : readToken classic c = .ok t) :
    Reaches c t.start ∧ readKind t.start = .ok (t.kind, t.stop) := by
  obtain ⟨⟨start, ended⟩, skipped, h⟩ := bind_eq_ok.1 h
  obtain ⟨rfl, hkind⟩ := readTokenAt_eq_ok h
  exact ⟨skipTrivia_reaches skipped, hkind⟩

theorem readFirstToken_eq_ok {classic : Bool} {c : Cursor} {t : Token} (h : readFirstToken classic c = .ok t) :
    Reaches c t.start ∧ readKind t.start = .ok (t.kind, t.stop) := by
  obtain ⟨⟨start, ended⟩, skipped, h⟩ := bind_eq_ok.1 h
  obtain ⟨rfl, hkind⟩ := readTokenAt_eq_ok h
  exact ⟨skipTrivia_reaches skipped, hkind⟩

end SpecCoverage.Program
