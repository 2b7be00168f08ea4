import SpecCoverage.Functions.DocComment
import SpecCoverage.Proofs.Specifications.Forms

/-!
# The form of tags

A tag opens with a word and a brace, `@word {`, and its type is what stands between this brace and the next closing one
(`tagType_eq_some_iff`).  The tag of a result ends there (`resultTag_eq_some_iff`); behind the type of a parameter its name
follows (`parameterTag_eq_some_iff`), with blanks, brackets and dots around it (`typedName_eq_some_iff`).
-/

namespace SpecCoverage.Functions

open Text
open Specifications (IsIdentifier identifier_eq_some identifier_append_of_head? behindBlanks?_eq_some optionally_eq_append
  continuesIdentifier_of_isBlank continuesIdentifier_of_beginsIdentifier)

/-! ## Words and marks -/

def resultWords : List String := ["returns", "return"]

def parameterWords : List String := ["param", "arg", "argument"]

def tagWords : List String := resultWords ++ parameterWords

/-- The marks that tags begin with and that their types are put between. -/
def isTagMark (c : Char) : Bool := c = '@' || c = '\x7b' || c = '\x7d'

theorem spelled_of_mem_tagWords :
    ∀ word ∈ tagWords, ∀ c ∈ word.toList, isBlank c = false ∧ isTagMark c = false := by
  have all : tagWords.all (fun word => word.toList.all fun c => !isBlank c && !isTagMark c) = true := by decide +kernel
  intro word mem c hc
  simpa using List.all_eq_true.1 (List.all_eq_true.1 all word mem) c hc

private theorem isTagMark_of_isBlank {c : Char} (h : isBlank c = true) : isTagMark c = false :=
  eq_false_of_isBlank (by decide +kernel) h

theorem isTagMark_of_continuesIdentifier {c : Char} (h : continuesIdentifier c = true) : isTagMark c = false := by
  refine Bool.eq_false_iff.2 fun mark => ?_
  simp only [isTagMark, Bool.or_eq_true, decide_eq_true_eq] at mark
  rcases mark with (rfl | rfl) | rfl <;> exact absurd h (by decide)

theorem not_mem_of_unmarked {cs : List Char} (h : ∀ c ∈ cs, isTagMark c = false) {c : Char} (mark : isTagMark c = true) :
    c ∉ cs := by
  intro mem
  rw [h c mem] at mark
  cases mark

theorem not_mem_cons_of_unmarked {cs : List Char} (h : ∀ c ∈ cs, isTagMark c = false) {c d : Char} (ne : c ≠ d)
    (mark : isTagMark c = true) : c ∉ d :: cs := by
  rw [List.mem_cons, not_or]
  exact ⟨ne, not_mem_of_unmarked h mark⟩

/-- `@word {`. -/
def IsOpening (words : List String) (opening : List Char) : Prop :=
  ∃ word ∈ words, ∃ blanks, blanks ≠ [] ∧ (∀ c ∈ blanks, isBlank c = true) ∧
    opening = '@' :: (word.toList ++ (blanks ++ ['\x7b']))

theorem IsOpening.mono {words more : List String} {opening : List Char} (h : IsOpening words opening)
    (subset : words ⊆ more) : IsOpening more opening := by
  obtain ⟨word, mem, rest⟩ := h
  exact ⟨word, subset mem, rest⟩

theorem IsOpening.exists_head {opening : List Char} (h : IsOpening tagWords opening) :
    ∃ head, (∀ c ∈ head, isTagMark c = false) ∧ opening = '@' :: (head ++ ['\x7b']) := by
  obtain ⟨word, mem, blanks, -, blank, rfl⟩ := h
  refine ⟨word.toList ++ blanks, List.forall_mem_append.2 ⟨fun c hc => ?_, fun c hc => ?_⟩, by simp⟩
  · exact (spelled_of_mem_tagWords word mem c hc).2
  · exact isTagMark_of_isBlank (blank c hc)

/-! ## The type of a tag -/

private theorem bracedType_eq_some_iff {cs type rest : List Char} :
    bracedType cs = some (type, rest) ↔ type ≠ [] ∧ '\x7d' ∉ type ∧ cs = '\x7b' :: (type ++ '\x7d' :: rest) := by
  simp only [bracedType, bind, Option.bind_eq_some_iff, behind?_eq_some_iff, pure, Option.some.injEq, Prod.mk.injEq]
  constructor
  · rintro ⟨inner, rfl, ⟨found, behind⟩, hrun, _, rfl, rfl, rfl⟩
    obtain ⟨hne, inside, rfl⟩ := run?_eq_some hrun
    exact ⟨hne, fun mem => by simpa using inside _ mem, rfl⟩
  · rintro ⟨hne, closed, rfl⟩
    exact ⟨_, rfl, (type, '\x7d' :: rest), run?_append hne (forall_ne_of_not_mem closed) (by decide) rest, rest, rfl,
      rfl, rfl⟩

/-- `@word {type}`. -/
def tagType (words : List String) : Pattern (List Char) := fun cs => do
  let rest ← behind? ['@'] cs
  let rest ← words.findSome? fun word => (behind? word.toList rest).bind behindBlanks?
  bracedType rest

section

variable {words : List String} (known : words ⊆ tagWords)
include known

/-- Words without blanks in them end at the first blank, so that there is only one in front of a text. -/
private theorem findSome?_words {word : String} (mem : word ∈ words) {blanks rest : List Char} (hne : blanks ≠ [])
    (blank : ∀ c ∈ blanks, isBlank c = true) (stop : ∀ c ∈ rest.head?, isBlank c = false) :
    (words.findSome? fun word' => (behind? word'.toList (word.toList ++ (blanks ++ rest))).bind behindBlanks?)
      = some rest := by
  have here : ((behind? word.toList (word.toList ++ (blanks ++ rest))).bind behindBlanks?) = some rest := by
    rw [behind?_eq_some_iff.2 rfl, Option.bind_some, behindBlanks?_append hne blank stop]
  have found : (words.findSome? fun word' =>
      (behind? word'.toList (word.toList ++ (blanks ++ rest))).bind behindBlanks?).isSome = true :=
    List.findSome?_isSome_iff.2 ⟨word, mem, by rw [here]; rfl⟩
  obtain ⟨rest', found⟩ := Option.isSome_iff_exists.1 found
  obtain ⟨word', mem', read⟩ := List.exists_of_findSome?_eq_some found
  obtain ⟨behind, hbehind, hblanks⟩ := Option.bind_eq_some_iff.1 read
  obtain ⟨blanks', hne', blank', rfl⟩ := behindBlanks?_eq_some hblanks
  have split := behind?_eq_some hbehind
  -- both words are what stands in front of the first blank
  have same : word.toList = word'.toList := by
    obtain ⟨b, others, rfl⟩ := List.exists_cons_of_ne_nil hne
    obtain ⟨b', others', rfl⟩ := List.exists_cons_of_ne_nil hne'
    have visible (word : String) (mem : word ∈ words) : ∀ c ∈ word.toList, (!isBlank c) = true := fun c hc => by
      simp [(spelled_of_mem_tagWords word (known mem) c hc).1]
    have cut := congrArg (List.takeWhile fun c => !isBlank c) split
    rwa [List.cons_append, List.cons_append, takeWhile_append_cons (visible word mem) (by simp [blank b]),
      takeWhile_append_cons (visible word' mem') (by simp [blank' b'])] at cut
  rw [← same, here] at read
  rw [found, read]

theorem tagType_eq_some_iff {cs type rest : List Char} :
    tagType words cs = some (type, rest) ↔ type ≠ [] ∧ '\x7d' ∉ type ∧
      ∃ opening, IsOpening words opening ∧ cs = opening ++ (type ++ '\x7d' :: rest) := by
  simp only [tagType, bind, Option.bind_eq_some_iff, bracedType_eq_some_iff, behind?_eq_some_iff]
  constructor
  · rintro ⟨_, rfl, _, found, hne, closed, rfl⟩
    obtain ⟨word, mem, read⟩ := List.exists_of_findSome?_eq_some found
    obtain ⟨behind, hbehind, hblanks⟩ := Option.bind_eq_some_iff.1 read
    obtain ⟨blanks, spaced, blank, rfl⟩ := behindBlanks?_eq_some hblanks
    obtain rfl := behind?_eq_some hbehind
    exact ⟨hne, closed, _, ⟨word, mem, blanks, spaced, blank, rfl⟩, by simp⟩
  · rintro ⟨hne, closed, _, ⟨word, mem, blanks, spaced, blank, rfl⟩, rfl⟩
    refine ⟨word.toList ++ (blanks ++ '\x7b' :: (type ++ '\x7d' :: rest)), by simp, '\x7b' :: (type ++ '\x7d' :: rest),
      findSome?_words known mem spaced blank ?_, hne, closed, rfl⟩
    rintro _ ⟨⟩
    rfl

end

/-! ## The tag of a result -/

/-- A letter that may stand in front of blanks. -/
private theorem behindBlanks?_optionally {letter : Char} (h : isBlank letter = false) (cs : List Char) :
    behindBlanks? (optionally [letter] cs) = ((behind? [letter] cs).bind behindBlanks?).or (behindBlanks? cs) := by
  cases cs with
  | nil => rfl
  | cons c cs =>
    by_cases hc : letter = c
    · subst hc
      have notBlank : behindBlanks? (letter :: cs) = none := by rw [behindBlanks?, if_neg (by simp [h])]
      rw [notBlank, Option.or_none, optionally, behind?, if_pos rfl]
      rfl
    · rw [optionally, behind?, if_neg hc]
      rfl

/-- The `s` that the word of a result may have at its end makes two words of it. -/
private theorem resultTag_eq : resultTag = tagType resultWords := by
  funext cs
  have words (rest : List Char) : (behind? "return".toList rest).bind (fun rest => behindBlanks? (optionally ['s'] rest))
      = resultWords.findSome? fun word => (behind? word.toList rest).bind behindBlanks? := by
    have longer : behind? "returns".toList rest = (behind? "return".toList rest).bind (behind? ['s']) :=
      behind?_pieces "return".toList ['s'] rest
    simp only [resultWords, List.findSome?_cons, List.findSome?_nil, longer]
    cases behind? "return".toList rest with
    | none => rfl
    | some rest =>
      simp only [Option.bind_some]
      rw [behindBlanks?_optionally (by decide)]
      cases (behind? ['s'] rest).bind behindBlanks? <;> cases behindBlanks? rest <;> rfl
  have mark : behind? "@return".toList cs = (behind? ['@'] cs).bind (behind? "return".toList) :=
    behind?_pieces ['@'] "return".toList cs
  simp only [resultTag, tagType, bind, mark, Option.bind_assoc, ← words]

theorem resultTag_eq_some_iff {cs type rest : List Char} :
    resultTag cs = some (type, rest) ↔ type ≠ [] ∧ '\x7d' ∉ type ∧
      ∃ opening, IsOpening resultWords opening ∧ cs = opening ++ (type ++ '\x7d' :: rest) := by
  rw [resultTag_eq, tagType_eq_some_iff (List.subset_append_left _ _)]

/-! ## The name of a parameter -/

/-- The name of a parameter, as it stands behind the type. -/
def typedName : Pattern (List Char) := fun cs => do
  let rest ← behindBlanks? cs
  let rest := optionally "...".toList (trimStart (optionally ['['] rest))
  let (name, rest) ← identifier rest
  let rest ← behindNameEnd? rest
  return (name, rest)

/-- The characters that may stand behind the name of a parameter. -/
def endsName (c : Char) : Bool := isBlank c || c = ']' || c = '=' || c = '*'

/-- What may stand between a type and a name: blanks, and then a bracket with blanks behind it and three dots, or one of
them, or nothing. -/
def IsNameFront (front : List Char) : Prop :=
  ∃ blanks bracket dots, blanks ≠ [] ∧ (∀ c ∈ blanks, isBlank c = true) ∧
    (bracket = [] ∨ ∃ inside, (∀ c ∈ inside, isBlank c = true) ∧ bracket = '[' :: inside) ∧
    (dots = [] ∨ dots = "...".toList) ∧ front = blanks ++ (bracket ++ dots)

/-- What stands behind a name: one of the characters that end it, or nothing at the end of the text. -/
def IsNameEnd (ending rest : List Char) : Prop :=
  ending = [] ∧ rest = [] ∨ ∃ c, endsName c = true ∧ ending = [c]

private theorem behindNameEnd?_eq_some_iff {cs rest : List Char} :
    behindNameEnd? cs = some rest ↔ ∃ ending, IsNameEnd ending rest ∧ cs = ending ++ rest := by
  cases cs with
  | nil =>
    constructor
    · rintro ⟨⟩
      exact ⟨[], .inl ⟨rfl, rfl⟩, rfl⟩
    · rintro ⟨_, ⟨rfl, rfl⟩ | ⟨c, -, rfl⟩, split⟩
      · rfl
      · cases split
  | cons c cs =>
    show (if endsName c = true then some cs else none) = some rest ↔ _
    rw [Option.ite_none_right_eq_some, Option.some.injEq]
    constructor
    · rintro ⟨ends, rfl⟩
      exact ⟨[c], .inr ⟨c, ends, rfl⟩, rfl⟩
    · rintro ⟨_, ⟨rfl, rfl⟩ | ⟨c, ends, rfl⟩, split⟩
      · cases split
      · cases split
        exact ⟨ends, rfl⟩

private theorem continuesIdentifier_of_endsName {c : Char} (h : endsName c = true) : continuesIdentifier c = false := by
  simp only [endsName, Bool.or_eq_true, decide_eq_true_eq] at h
  rcases h with ((blank | rfl) | rfl) | rfl
  · exact continuesIdentifier_of_isBlank blank
  all_goals decide

private theorem optionally_append_self (piece cs : List Char) : optionally piece (piece ++ cs) = cs := by
  rw [optionally, behind?_eq_some_iff.2 rfl, Option.getD_some]

private theorem optionally_cons_of_ne {c d : Char} (h : c ≠ d) (piece cs : List Char) :
    optionally (c :: piece) (d :: cs) = d :: cs := by
  rw [optionally, behind?, if_neg h, Option.getD_none]

private theorem exists_of_typedName {cs name rest : List Char} (h : typedName cs = some (name, rest)) :
    IsIdentifier name ∧ ∃ front ending, IsNameFront front ∧ IsNameEnd ending rest ∧
      cs = front ++ (name ++ (ending ++ rest)) := by
  simp only [typedName, bind, pure, Option.bind_eq_some_iff, Option.some.injEq, Prod.mk.injEq, Prod.exists] at h
  obtain ⟨behind, hblanks, _, _, hname, _, hend, rfl, rfl⟩ := h
  obtain ⟨blanks, spaced, blank, rfl⟩ := behindBlanks?_eq_some hblanks
  obtain ⟨named, split⟩ := identifier_eq_some hname
  obtain ⟨ending, ends, rfl⟩ := behindNameEnd?_eq_some_iff.1 hend
  obtain ⟨bracket, isBracket, hbracket⟩ := optionally_eq_append ['['] behind
  obtain ⟨inside, blank', hinside⟩ := @exists_of_dropWhile_eq isBlank (optionally ['['] behind) _ rfl
  obtain ⟨dots, isDots, hdots⟩ := optionally_eq_append "...".toList (trimStart (optionally ['['] behind))
  rw [split] at hdots
  rw [show (optionally ['['] behind).dropWhile isBlank = _ from hdots] at hinside
  rw [hinside] at hbracket
  refine ⟨named, ?_⟩
  rcases isBracket with rfl | rfl
  · -- blanks only, so that all of them have been passed over already
    have all : ∀ c ∈ blanks ++ inside, isBlank c = true := List.forall_mem_append.2 ⟨blank, blank'⟩
    refine ⟨blanks ++ inside ++ dots, ending,
      ⟨blanks ++ inside, [], dots, List.append_ne_nil_of_left_ne_nil spaced _, all, .inl rfl, isDots, rfl⟩, ends, ?_⟩
    rw [hbracket]
    simp
  · refine ⟨blanks ++ ('[' :: inside ++ dots), ending,
      ⟨blanks, '[' :: inside, dots, spaced, blank, .inr ⟨inside, blank', rfl⟩, isDots, rfl⟩, ends, ?_⟩
    rw [hbracket]
    simp

/-- No identifier begins with a character that ends one. -/
private theorem ne_of_beginsIdentifier {c d : Char} (begins : beginsIdentifier c = true)
    (h : continuesIdentifier d = false) :
    d ≠ c := by
  rintro rfl
  rw [continuesIdentifier_of_beginsIdentifier begins] at h
  cases h

private theorem isBlank_of_beginsIdentifier {c : Char} (begins : beginsIdentifier c = true) : isBlank c = false := by
  refine Bool.eq_false_iff.2 fun blank => ?_
  exact ne_of_beginsIdentifier begins (continuesIdentifier_of_isBlank blank) rfl

section

variable {dots name : List Char} (isDots : dots = [] ∨ dots = "...".toList) (named : IsIdentifier name)

include isDots named

/-- What begins with a name, or with the dots in front of it, begins with neither a blank nor a bracket. -/
private theorem head_dots_append (tail : List Char) :
    ∀ d ∈ (dots ++ (name ++ tail)).head?, isBlank d = false ∧ '[' ≠ d := by
  obtain ⟨c, others, rfl, begins⟩ := named.begins
  rcases isDots with rfl | rfl
  · rintro _ ⟨⟩
    exact ⟨isBlank_of_beginsIdentifier begins, ne_of_beginsIdentifier begins (by decide)⟩
  · rintro _ ⟨⟩
    decide

private theorem optionally_dots_append (tail : List Char) :
    optionally "...".toList (dots ++ (name ++ tail)) = name ++ tail := by
  obtain ⟨c, others, rfl, begins⟩ := named.begins
  rcases isDots with rfl | rfl
  · exact optionally_cons_of_ne (ne_of_beginsIdentifier begins (by decide)) _ _
  · exact optionally_append_self _ _

end

/-- A bracket is passed over together with the blanks inside it. -/
private theorem trimStart_optionally_bracket {bracket behind : List Char}
    (isBracket : bracket = [] ∨ ∃ inside, (∀ c ∈ inside, isBlank c = true) ∧ bracket = '[' :: inside)
    (first : ∀ d ∈ behind.head?, isBlank d = false ∧ '[' ≠ d) :
    trimStart (optionally ['['] (bracket ++ behind)) = behind := by
  have visible : ∀ d ∈ behind.head?, isBlank d = false := fun d hd => (first d hd).1
  rcases isBracket with rfl | ⟨inside, blank, rfl⟩
  · have noBracket : optionally ['['] behind = behind := by
      cases behind with
      | nil => rfl
      | cons d behind => exact optionally_cons_of_ne (first d rfl).2 _ _
    rw [List.nil_append, noBracket]
    exact @trimStart_append [] behind (by simp) visible
  · have bracketed : optionally ['['] ('[' :: inside ++ behind) = inside ++ behind :=
      optionally_append_self ['['] (inside ++ behind)
    rw [bracketed, trimStart_append blank visible]

/-- A name is read behind its front, and what ends it behind the name. -/
theorem typedName_front_append {name front tail : List Char} (named : IsIdentifier name) (isFront : IsNameFront front)
    (stop : ∀ c ∈ tail.head?, continuesIdentifier c = false) :
    typedName (front ++ (name ++ tail)) = (behindNameEnd? tail).map fun rest => (name, rest) := by
  obtain ⟨blanks, bracket, dots, spaced, blank, isBracket, isDots, rfl⟩ := isFront
  have first := head_dots_append isDots named tail
  -- what is left behind each of the pieces
  have behindBlanks : behindBlanks? (blanks ++ (bracket ++ (dots ++ (name ++ tail))))
      = some (bracket ++ (dots ++ (name ++ tail))) := by
    refine behindBlanks?_append spaced blank ?_
    rcases isBracket with rfl | ⟨inside, -, rfl⟩
    · exact fun d hd => (first d hd).1
    · rintro _ ⟨⟩
      decide
  have behindBracket := trimStart_optionally_bracket isBracket first
  have behindDots := optionally_dots_append isDots named tail
  have behindName : identifier (name ++ tail) = some (name, tail) := identifier_append_of_head? named stop
  have split : blanks ++ (bracket ++ dots) ++ (name ++ tail) = blanks ++ (bracket ++ (dots ++ (name ++ tail))) := by
    simp only [List.append_assoc]
  simp only [typedName, bind, pure, split, behindBlanks, behindBracket, behindDots, behindName, Option.bind_some]
  cases behindNameEnd? tail <;> rfl

private theorem typedName_append {name front ending rest : List Char} (named : IsIdentifier name)
    (isFront : IsNameFront front)
    (ends : IsNameEnd ending rest) : typedName (front ++ (name ++ (ending ++ rest))) = some (name, rest) := by
  have stop : ∀ c ∈ (ending ++ rest).head?, continuesIdentifier c = false := by
    rcases ends with ⟨rfl, rfl⟩ | ⟨c, ends, rfl⟩
    · rintro _ ⟨⟩
    · rintro _ ⟨⟩
      exact continuesIdentifier_of_endsName ends
  rw [typedName_front_append named isFront stop, behindNameEnd?_eq_some_iff.2 ⟨ending, ends, rfl⟩]
  rfl

/-- What is read behind a type is a name with these pieces around it, and nothing else. -/
theorem typedName_eq_some_iff {cs name rest : List Char} :
    typedName cs = some (name, rest) ↔ IsIdentifier name ∧ ∃ front ending, IsNameFront front ∧ IsNameEnd ending rest ∧
      cs = front ++ (name ++ (ending ++ rest)) := by
  constructor
  · exact exists_of_typedName
  · rintro ⟨named, front, ending, isFront, ends, rfl⟩
    exact typedName_append named isFront ends

theorem IsNameFront.unmarked {front : List Char} (h : IsNameFront front) : ∀ c ∈ front, isTagMark c = false := by
  obtain ⟨blanks, bracket, dots, -, blank, isBracket, isDots, rfl⟩ := h
  refine List.forall_mem_append.2 ⟨fun c hc => isTagMark_of_isBlank (blank c hc), List.forall_mem_append.2 ⟨?_, ?_⟩⟩
  · rcases isBracket with rfl | ⟨inside, blank', rfl⟩
    · simp
    · exact List.forall_mem_cons.2 ⟨by decide, fun c hc => isTagMark_of_isBlank (blank' c hc)⟩
  · rcases isDots with rfl | rfl
    · simp
    · have all : "...".toList.all (fun c => !isTagMark c) = true := by decide
      exact fun c hc => by simpa using List.all_eq_true.1 all c hc

private theorem isTagMark_of_endsName {c : Char} (h : endsName c = true) : isTagMark c = false := by
  simp only [endsName, Bool.or_eq_true, decide_eq_true_eq] at h
  rcases h with ((blank | rfl) | rfl) | rfl
  · exact isTagMark_of_isBlank blank
  all_goals decide

/-- What is read behind a type has no mark in it, and is read whatever follows, if something follows. -/
theorem exists_found_of_typedName {cs name rest : List Char} (h : typedName cs = some (name, rest)) :
    ∃ found, cs = found ++ rest ∧ (∀ c ∈ found, isTagMark c = false) ∧
      (rest ≠ [] → ∀ more, typedName (found ++ more) = some (name, more)) := by
  obtain ⟨named, front, ending, isFront, ends, rfl⟩ := typedName_eq_some_iff.1 h
  refine ⟨front ++ (name ++ ending), by simp, ?_, fun some more => ?_⟩
  · refine List.forall_mem_append.2 ⟨isFront.unmarked, List.forall_mem_append.2 ⟨fun c hc => ?_, fun c hc => ?_⟩⟩
    · exact isTagMark_of_continuesIdentifier (named.continues c hc)
    · rcases ends with ⟨rfl, -⟩ | ⟨d, ends, rfl⟩
      · cases hc
      · exact List.mem_singleton.1 hc ▸ isTagMark_of_endsName ends
  · have ends' : IsNameEnd ending more := ends.elim (fun atEnd => absurd atEnd.2 some) .inr
    simpa using typedName_append named isFront ends'

/-! ## The tag of a parameter -/

theorem parameterTag_eq : parameterTag = fun cs => (tagType parameterWords cs).bind fun (type, rest) =>
    (typedName rest).map fun (name, rest) => (⟨name, type⟩, rest) := by
  funext cs
  simp only [parameterTag, tagType, typedName, parameterWords, bind, pure, Option.bind_assoc, Option.map_bind,
    Function.comp_def, Option.map_some]

theorem parameterTag_eq_some_iff {cs rest : List Char} {tag : ParameterTag} :
    parameterTag cs = some (tag, rest) ↔ tag.type ≠ [] ∧ '\x7d' ∉ tag.type ∧
      ∃ opening behind, IsOpening parameterWords opening ∧ typedName behind = some (tag.name, rest) ∧
        cs = opening ++ (tag.type ++ '\x7d' :: behind) := by
  simp only [parameterTag_eq, Option.bind_eq_some_iff, Option.map_eq_some_iff, Prod.exists, Prod.mk.injEq,
    tagType_eq_some_iff (List.subset_append_right resultWords parameterWords)]
  constructor
  · rintro ⟨type, behind, ⟨hne, closed, opening, opens, rfl⟩, name, _, named, rfl, rfl⟩
    exact ⟨hne, closed, opening, behind, opens, named, rfl⟩
  · rintro ⟨hne, closed, opening, behind, opens, named, rfl⟩
    exact ⟨tag.type, behind, ⟨hne, closed, opening, opens, rfl⟩, tag.name, rest, named, rfl, rfl⟩

end SpecCoverage.Functions
