import Mathlib.Data.List.Basic
import Mathlib.Tactic.SplitIfs
import SpecCoverage.Proofs.Json.Grammar
import SpecCoverage.Proofs.Text.Scan

/-!
# Reading strings, numbers and keywords

What the reader makes of a value does not depend on the text behind the value, as long as that text goes on as
the grammar allows (`Reads`).  Here this is shown for the values that hold no others (`IsScalar.exists_reads`).
Such a value need not be readable: it may hold half of a surrogate pair or be a number that is too large.

* (strings) the text between the quotes is read up to the closing quote, whatever follows it;
* (numbers) a number ends where nothing of a number follows.
-/

namespace SpecCoverage.Json

open Text (Pattern behind?)

/-! ## What follows a value -/

/-- What may follow a value: nothing, or a text that a blank, a comma or a closing bracket begins. -/
def Follows (rest : List Char) : Prop :=
  ∀ c ∈ rest.head?, isSpace c = true ∨ c = ',' ∨ c = ']' ∨ c = '\x7d'

theorem Follows.not_number {rest : List Char} (h : Follows rest) :
    ∀ c ∈ rest.head?, c.isDigit = false ∧ c ≠ '.' ∧ c ≠ 'e' ∧ c ≠ 'E' := by
  intro c hc
  have := h c hc
  simp only [isSpace, Bool.or_eq_true, decide_eq_true_eq] at this
  rcases this with ((( rfl | rfl) | rfl) | rfl) | rfl | rfl | rfl <;> decide

/-- A reader gives the same answer for a text whatever follows it, and leaves what follows. -/
def Reads {α : Type} (read : Pattern α) (cs : List Char) (answer : Option α) : Prop :=
  ∀ rest, Follows rest → read (cs ++ rest) = answer.map fun a => (a, rest)

/-! ## Strings -/

private theorem exists_hexDigit? {c : Char} (h : IsHexDigit c) : ∃ n, hexDigit? c = some n := by
  unfold IsHexDigit at h
  unfold hexDigit?
  split_ifs <;> simp_all

private theorem exists_codeUnit? {a b c d : Char} (ha : IsHexDigit a) (hb : IsHexDigit b) (hc : IsHexDigit c)
    (hd : IsHexDigit d) : ∃ n, codeUnit? a b c d = some n := by
  obtain ⟨a', ha'⟩ := exists_hexDigit? ha
  obtain ⟨b', hb'⟩ := exists_hexDigit? hb
  obtain ⟨c', hc'⟩ := exists_hexDigit? hc
  obtain ⟨d', hd'⟩ := exists_hexDigit? hd
  exact ⟨_, by unfold codeUnit?; rw [ha', hb', hc', hd']; rfl⟩

theorem readCharacters_plain {c : Char} (hq : c ≠ '"') (he : c ≠ '\\') (hc : 0x20 ≤ c.toNat)
    (cs : List Char) : readCharacters (c :: cs) = prepend c (readCharacters cs) := by
  rw [readCharacters]
  · simp [he, Nat.not_lt.2 hc]
  all_goals simp_all

theorem readCharacters_letter {c d : Char} (h : letterEscape? c = some d) (cs : List Char) :
    readCharacters ('\\' :: c :: cs) = prepend d (readCharacters cs) := by
  rw [readCharacters]
  · simp [h]
  · rintro a b c' d' rest rfl
    simp [letterEscape?] at h

theorem readCharacters_unit {a b c d : Char} {n : Nat} (h : codeUnit? a b c d = some n)
    (high : isHighSurrogate n = false) (low : isLowSurrogate n = false) (cs : List Char) :
    readCharacters ('\\' :: 'u' :: a :: b :: c :: d :: cs) = prepend (Char.ofNat n) (readCharacters cs) := by
  rw [readCharacters]
  simp [h, high, low]

private theorem readCharacters_low {a b c d : Char} {n : Nat} (h : codeUnit? a b c d = some n)
    (low : isLowSurrogate n = true) (cs : List Char) :
    readCharacters ('\\' :: 'u' :: a :: b :: c :: d :: cs) = none := by
  have high : isHighSurrogate n = false := by
    simp only [isLowSurrogate, isHighSurrogate, Bool.and_eq_true, decide_eq_true_eq] at low ⊢
    simp; omega
  rw [readCharacters]
  simp [h, high, low]

private theorem readCharacters_high {a b c d : Char} {n : Nat} (h : codeUnit? a b c d = some n)
    (high : isHighSurrogate n = true) {cs : List Char}
    (hcs : ∀ e f g h more, cs ≠ '\\' :: 'u' :: e :: f :: g :: h :: more) :
    readCharacters ('\\' :: 'u' :: a :: b :: c :: d :: cs) = none := by
  rw [readCharacters]
  simp only [h, high, if_true]

private theorem readCharacters_pair {a b c d e f g i : Char} {n m : Nat} (h : codeUnit? a b c d = some n)
    (high : isHighSurrogate n = true) (h' : codeUnit? e f g i = some m) (cs : List Char) :
    readCharacters ('\\' :: 'u' :: a :: b :: c :: d :: '\\' :: 'u' :: e :: f :: g :: i :: cs)
      = if isLowSurrogate m then prepend (pairedChar n m) (readCharacters cs) else none := by
  rw [readCharacters]
  simp [h, high, h']


private theorem exists_letterEscape? {c : Char} (h : c ∈ ['"', '\\', '/', 'b', 'f', 'n', 'r', 't']) :
    ∃ d, letterEscape? c = some d := by
  simp only [List.mem_cons, List.not_mem_nil, or_false] at h
  rcases h with rfl | rfl | rfl | rfl | rfl | rfl | rfl | rfl <;> exact ⟨_, rfl⟩

/-- What is read of a text up to a closing quote, the same whatever follows the quote. -/
def IsReadToQuote (body : List Char) : Prop :=
  ∃ answer : Option (List Char), ∀ rest,
    readCharacters (body ++ '"' :: rest) = answer.map fun found => (found, rest)

theorem IsReadToQuote.prepend {body : List Char} (h : IsReadToQuote body) (front : List Char) {c : Char}
    (step : ∀ cs, readCharacters (front ++ cs) = prepend c (readCharacters cs)) :
    IsReadToQuote (front ++ body) := by
  obtain ⟨answer, ha⟩ := h
  refine ⟨answer.map (c :: ·), fun rest => ?_⟩
  rw [List.append_assoc, step, ha, Json.prepend, Option.map_map, Option.map_map]
  rfl

/-- Behind the first half of a surrogate pair, only the other half lets the string be read. -/
private theorem isReadToQuote_high {a b c d : Char} {n : Nat} (hn : codeUnit? a b c d = some n)
    (high : isHighSurrogate n = true) {body : List Char} (h : IsStringBody body)
    (shorter : ∀ cs, cs.length < body.length → IsStringBody cs → IsReadToQuote cs) :
    IsReadToQuote ('\\' :: 'u' :: a :: b :: c :: d :: body) := by
  cases h with
  | nil => exact ⟨none, fun rest => readCharacters_high hn high (by simp)⟩
  | plain _ he _ _ => exact ⟨none, fun rest => readCharacters_high hn high (by simp [he])⟩
  | letter hc _ =>
    refine ⟨none, fun rest => readCharacters_high hn high ?_⟩
    rintro e f g i more heq
    injection heq with _ heq
    injection heq with same
    rw [same] at hc
    simp at hc
  | @unit e f g i cs he hf hg hi h =>
    obtain ⟨m, hm⟩ := exists_codeUnit? he hf hg hi
    cases low : isLowSurrogate m with
    | false =>
      refine ⟨none, fun rest => ?_⟩
      simp [readCharacters_pair hn high hm, low]
    | true =>
      have tail := shorter cs (by simp only [List.length_cons]; omega) h
      have step : ∀ cs, readCharacters (['\\', 'u', a, b, c, d, '\\', 'u', e, f, g, i] ++ cs)
          = prepend (pairedChar n m) (readCharacters cs) := by
        intro cs
        simpa [low] using readCharacters_pair hn high hm cs
      exact tail.prepend _ step

private theorem IsStringBody.isReadToQuote {body : List Char} (h : IsStringBody body) : IsReadToQuote body := by
  -- a pair of surrogates is two units of the grammar, so that the induction is on the length
  induction hn : body.length using Nat.strongRecOn generalizing body with
  | ind n ih =>
    subst hn
    have shorter : ∀ cs, cs.length < body.length → IsStringBody cs → IsReadToQuote cs :=
      fun cs hcs h => ih _ hcs h rfl
    cases h with
    | nil => exact ⟨some [], fun rest => rfl⟩
    | @plain c cs hq he hc h =>
      exact (shorter cs (by simp) h).prepend [c] (readCharacters_plain hq he hc)
    | @letter c cs hc h =>
      obtain ⟨d, hd⟩ := exists_letterEscape? hc
      exact (shorter cs (by simp only [List.length_cons]; omega) h).prepend ['\\', c]
        (readCharacters_letter hd)
    | @unit a b c d cs ha hb hc hd h =>
      obtain ⟨n, hn⟩ := exists_codeUnit? ha hb hc hd
      have tail : IsReadToQuote cs := shorter cs (by simp only [List.length_cons]; omega) h
      cases low : isLowSurrogate n with
      | true => exact ⟨none, fun rest => readCharacters_low hn low _⟩
      | false =>
        cases high : isHighSurrogate n with
        | false =>
          exact tail.prepend ['\\', 'u', a, b, c, d] (readCharacters_unit hn high low)
        | true =>
          refine isReadToQuote_high hn high h fun cs' hlt => shorter cs' ?_
          simp only [List.length_cons]
          omega

/-- A string with this text between its quotes is read the same whatever follows it. -/
def ReadsString (body : List Char) (answer : Option String) : Prop :=
  ∀ rest, readString ('"' :: (body ++ '"' :: rest)) = answer.map fun s => (s, rest)

theorem IsStringBody.exists_reads {body : List Char} (h : IsStringBody body) :
    ∃ answer, ReadsString body answer := by
  obtain ⟨answer, ha⟩ := h.isReadToQuote
  refine ⟨answer.map String.ofList, fun rest => ?_⟩
  simp only [readString, behind?, if_true, Option.bind_eq_bind, Option.bind_some, ha]
  cases answer <;> rfl

/-! ## Numbers -/

private theorem readDigits_append {digits rest : List Char} (h : IsDigits digits)
    (stop : ∀ c ∈ rest.head?, c.isDigit = false) : readDigits (digits ++ rest) = some (digits, rest) :=
  Text.run?_append_of_head? h.1 h.2 stop

theorem readFraction_absent {rest : List Char} (stop : ∀ c ∈ rest.head?, c ≠ '.') :
    readFraction rest = some ([], rest) := by
  rw [readFraction]
  rintro more rfl
  exact stop '.' rfl rfl

private theorem exists_readFraction {fraction : List Char} (h : IsFraction fraction) :
    ∃ digits, ∀ rest, (∀ c ∈ rest.head?, c.isDigit = false ∧ c ≠ '.') →
      readFraction (fraction ++ rest) = some (digits, rest) := by
  cases h with
  | absent => exact ⟨[], fun rest stop => readFraction_absent fun c hc => (stop c hc).2⟩
  | @present digits h => exact ⟨digits, fun rest stop => readDigits_append h fun c hc => (stop c hc).1⟩

theorem readExponent_absent {rest : List Char} (stop : ∀ c ∈ rest.head?, c ≠ 'e' ∧ c ≠ 'E') :
    readExponent rest = some (none, rest) := by
  cases rest with
  | nil => rfl
  | cons c rest => simp [readExponent, stop c rfl]

private theorem exists_readExponent {exponent : List Char} (h : IsExponent exponent) :
    ∃ x, ∀ rest, (∀ c ∈ rest.head?, c.isDigit = false ∧ c ≠ 'e' ∧ c ≠ 'E') →
      readExponent (exponent ++ rest) = some (x, rest) := by
  cases h with
  | absent => exact ⟨none, fun rest stop => readExponent_absent fun c hc => (stop c hc).2⟩
  | @present mark sign digits hmark hsign h =>
    have mark' : (mark = 'e' || mark = 'E') = true := by simpa using hmark
    simp only [List.mem_cons, List.not_mem_nil, or_false] at hsign
    obtain ⟨c, cs, rfl⟩ := List.exists_cons_of_ne_nil h.1
    have hc : c ≠ '-' ∧ c ≠ '+' := by
      have := h.2 c (by simp)
      constructor <;> rintro rfl <;> cases this
    have read : ∀ {rest : List Char}, (∀ c ∈ rest.head?, c.isDigit = false ∧ c ≠ 'e' ∧ c ≠ 'E') →
        readDigits (c :: (cs ++ rest)) = some (c :: cs, rest) :=
      fun stop => readDigits_append h fun c hc => (stop c hc).1
    rcases hsign with rfl | rfl | rfl
    · refine ⟨some (digitsValue (c :: cs) : Int), fun rest stop => ?_⟩
      simp [readExponent, mark', read stop, hc]
    · refine ⟨some (-(digitsValue (c :: cs) : Int)), fun rest stop => ?_⟩
      simp [readExponent, mark', read stop]
    · refine ⟨some (digitsValue (c :: cs) : Int), fun rest stop => ?_⟩
      simp [readExponent, mark', read stop]

private theorem head?_of_exponent {exponent rest : List Char} (he : IsExponent exponent) (stop : Follows rest) :
    ∀ c ∈ (exponent ++ rest).head?, c.isDigit = false ∧ c ≠ '.' := by
  intro c hc
  cases he with
  | present hmark hsign h => cases hc; rcases hmark with rfl | rfl <;> decide
  | absent => exact ⟨(stop.not_number c hc).1, (stop.not_number c hc).2.1⟩

private theorem head?_of_fraction {fraction rest : List Char} (hf : IsFraction fraction)
    (stop : ∀ c ∈ rest.head?, c.isDigit = false) : ∀ c ∈ (fraction ++ rest).head?, c.isDigit = false := by
  intro c hc
  cases hf with
  | present h => cases hc; rfl
  | absent => exact stop c hc

/-- What a number of these parts stands for: nothing if it is too large. -/
def numeral? (sign whole fraction : List Char) (exponent : Option Int) (text : List Char) : Option Value :=
  if exceedsDouble (digitsValue (whole ++ fraction)) (exponent.getD 0 - fraction.length) then none
  else if sign = [] && fraction.isEmpty && exponent.isNone then some (.natural (digitsValue whole))
  else some (.decimal (String.ofList text))

theorem readNumber_append {sign whole fraction exponent digits rest : List Char} {x : Option Int}
    (hsign : sign ∈ [[], ['-']]) (hw : IsWhole whole)
    (stop : ∀ c ∈ (fraction ++ (exponent ++ rest)).head?, c.isDigit = false)
    (hf : readFraction (fraction ++ (exponent ++ rest)) = some (digits, exponent ++ rest))
    (he : readExponent (exponent ++ rest) = some (x, rest)) :
    readNumber (sign ++ whole ++ fraction ++ exponent ++ rest) =
      (numeral? sign whole digits x (sign ++ whole ++ fraction ++ exponent)).map fun v => (v, rest) := by
  have minus : whole.head? ≠ some '-' := fun h =>
    absurd (hw.1.2 '-' (List.mem_of_head? h)) (by decide)
  have no_zero : (whole.head? = some '0' && 1 < whole.length) = false := by
    simpa using fun h => Nat.le_of_eq (hw.2 h)
  have assoc : sign ++ whole ++ fraction ++ exponent ++ rest
      = sign ++ (whole ++ (fraction ++ (exponent ++ rest))) := by simp
  have unsigned : Text.optionally ['-'] (sign ++ (whole ++ (fraction ++ (exponent ++ rest))))
      = whole ++ (fraction ++ (exponent ++ rest)) := by
    simp only [List.mem_cons, List.not_mem_nil, or_false] at hsign
    rcases hsign with rfl | rfl
    · obtain ⟨c, cs, rfl⟩ := List.exists_cons_of_ne_nil hw.1.1
      have hc : '-' ≠ c := fun h => minus (by rw [h, List.head?_cons])
      simp [Text.optionally, behind?, hc]
    · simp [Text.optionally, behind?]
  have no_sign : ((sign ++ (whole ++ (fraction ++ (exponent ++ rest)))).length
      = (whole ++ (fraction ++ (exponent ++ rest))).length) ↔ sign = [] := by
    simp
  have read_text : (sign ++ (whole ++ (fraction ++ (exponent ++ rest)))).take
      ((sign ++ (whole ++ (fraction ++ (exponent ++ rest)))).length - rest.length)
        = sign ++ whole ++ fraction ++ exponent := by
    rw [← assoc, List.length_append, Nat.add_sub_cancel, List.take_left]
  unfold readNumber numeral?
  rw [assoc]
  simp only [unsigned, readDigits_append hw.1 stop, hf, he, no_zero, no_sign, read_text, Option.bind_eq_bind,
    Option.bind_some, Bool.false_eq_true, if_false]
  cases exceedsDouble (digitsValue (whole ++ digits)) (x.getD 0 - digits.length) with
  | true => rfl
  | false => cases sign = [] && digits.isEmpty && x.isNone <;> rfl

/-! ## Scalars -/

/-- Whether arrays and objects are nested at most so deep. -/
def Value.isWithin : Nat → Value → Bool
  | depth + 1, array items => items.all (isWithin depth)
  | depth + 1, object members => members.all fun member => isWithin depth member.2
  | 0, array _ => false
  | 0, object _ => false
  | _, _ => true

@[simp]
theorem Value.isWithin_bool (b : Bool) (depth : Nat) : (Value.bool b).isWithin depth = true := by
  cases depth <;> rfl

@[simp]
theorem Value.isWithin_natural (n depth : Nat) : (Value.natural n).isWithin depth = true := by
  cases depth <;> rfl

@[simp]
theorem Value.isWithin_string (s : String) (depth : Nat) : (Value.string s).isWithin depth = true := by
  cases depth <;> rfl

/-- A text that begins with neither a blank nor a bracket. -/
def BeginsScalar (cs : List Char) : Prop :=
  ∃ c rest, cs = c :: rest ∧ isSpace c = false ∧ c ∉ ['[', ']', '\x7b', '\x7d']

theorem readScalar_number {c : Char} (hc : c.isDigit = true ∨ c = '-') (cs : List Char) :
    readScalar (c :: cs) = readNumber (c :: cs) := by
  have first : c ≠ '"' ∧ 'n' ≠ c ∧ 't' ≠ c ∧ 'f' ≠ c := by
    refine ⟨?_, ?_, ?_, ?_⟩ <;> rintro rfl <;> simp at hc
  rw [readScalar]
  · simp [keywords, behind?, first]
  · simp [first]

theorem readScalar_bracket {c : Char} (hc : c = '[' ∨ c = '\x7b') (cs : List Char) :
    readScalar (c :: cs) = none := by
  rcases hc with rfl | rfl <;>
    simp [readScalar, keywords, behind?, readNumber, Text.optionally, readDigits, Text.run?]

/-- A number begins with a digit or a minus sign. -/
private theorem exists_cons_of_number {sign whole : List Char} (hs : sign ∈ [[], ['-']]) (hw : IsWhole whole)
    (tail : List Char) :
    ∃ c cs, sign ++ whole ++ tail = c :: cs ∧ (c.isDigit = true ∨ c = '-') := by
  simp only [List.mem_cons, List.not_mem_nil, or_false] at hs
  rcases hs with rfl | rfl
  · obtain ⟨c, cs, rfl⟩ := List.exists_cons_of_ne_nil hw.1.1
    exact ⟨c, cs ++ tail, rfl, .inl (hw.1.2 c (by simp))⟩
  · exact ⟨'-', whole ++ tail, rfl, .inr rfl⟩

theorem IsScalar.beginsScalar {cs : List Char} (h : IsScalar cs) : BeginsScalar cs := by
  cases h with
  | keyword word h =>
    simp only [List.mem_cons, List.not_mem_nil, or_false] at h
    rcases h with rfl | rfl | rfl
    · exact ⟨'n', _, rfl, by decide⟩
    · exact ⟨'t', _, rfl, by decide⟩
    · exact ⟨'f', _, rfl, by decide⟩
  | string h => exact ⟨'"', _, rfl, by decide⟩
  | number hs hw hf he =>
    obtain ⟨c, cs, e, hc⟩ := exists_cons_of_number hs hw _
    refine ⟨c, cs, by rw [List.append_assoc, e], ?_, ?_⟩
    · rw [Bool.eq_false_iff]
      simp only [isSpace, ne_eq, Bool.or_eq_true, decide_eq_true_eq]
      rintro (((rfl | rfl) | rfl) | rfl) <;> simp at hc
    · simp only [List.mem_cons, List.not_mem_nil, or_false]
      rintro (rfl | rfl | rfl | rfl) <;> simp at hc

theorem ReadsString.reads {body : List Char} {answer : Option String} (h : ReadsString body answer) :
    Reads readScalar ('"' :: body ++ ['"']) (answer.map .string) := by
  intro rest _
  have e : '"' :: body ++ ['"'] ++ rest = '"' :: (body ++ '"' :: rest) := by simp
  rw [e, readScalar, h rest]
  cases answer <;> rfl

private theorem filter_numeral? (sign whole fraction text : List Char) (x : Option Int) (depth : Nat) :
    (numeral? sign whole fraction x text).filter (Value.isWithin depth)
      = numeral? sign whole fraction x text := by
  unfold numeral?
  split_ifs <;> cases depth <;> rfl

/-- What a scalar stands for is a value that no limit of depth concerns. -/
theorem IsScalar.exists_reads {cs : List Char} (h : IsScalar cs) :
    ∃ answer, Reads readScalar cs answer ∧ ∀ depth, answer.filter (Value.isWithin depth) = answer := by
  cases h with
  | keyword word h =>
    simp only [List.mem_cons, List.not_mem_nil, or_false] at h
    rcases h with rfl | rfl | rfl
    · exact ⟨some .null, fun rest _ => rfl, by rintro (_ | _) <;> rfl⟩
    · exact ⟨some (.bool true), fun rest _ => rfl, by rintro (_ | _) <;> rfl⟩
    · exact ⟨some (.bool false), fun rest _ => rfl, by rintro (_ | _) <;> rfl⟩
  | @string body h =>
    obtain ⟨answer, ha⟩ := h.exists_reads
    refine ⟨answer.map .string, ha.reads, fun depth => ?_⟩
    cases answer <;> cases depth <;> rfl
  | @number sign whole fraction exponent hs hw hf he =>
    obtain ⟨digits, hdigits⟩ := exists_readFraction hf
    obtain ⟨x, hx⟩ := exists_readExponent he
    refine ⟨numeral? sign whole digits x (sign ++ whole ++ fraction ++ exponent), fun rest stop => ?_,
      fun depth => filter_numeral? _ _ _ _ _ depth⟩
    obtain ⟨c, cs, e, hc⟩ := exists_cons_of_number hs hw (fraction ++ exponent ++ rest)
    have behind_whole := head?_of_exponent he stop
    have read := readNumber_append hs hw (head?_of_fraction hf fun c hc => (behind_whole c hc).1)
      (hdigits _ behind_whole) (hx rest fun c hc => ⟨(stop.not_number c hc).1, (stop.not_number c hc).2.2⟩)
    rw [← read]
    have first : sign ++ whole ++ fraction ++ exponent ++ rest = c :: cs := by simpa using e
    rw [first, readScalar_number hc]

end SpecCoverage.Json
