import SpecCoverage.Proofs.Functions.TagTypes

/-!
# Tags on lines of their own

A comment that has the tags of parameters on lines of their own, one on a line, is read back tag by tag.

* (one line) nowhere on a line but where its tag begins does a tag begin: what stands in front of the closing brace of the
  type has no opening brace behind that of the tag itself (`parameterTag_eq_none`), and the rest of the line has no mark.
  What is read there is the parameter that the line states (`TagLine.firstMatch?_written_append`), and nothing where the line
  states a property, because the name goes on with a dot;
* (all lines) so the first match along the lines is the first of the stated parameters that is looked for
  (`firstMatch?_ofLines`).
-/

namespace SpecCoverage.Functions

open Text
open Specifications (IsIdentifier)

/-! ## Lines with tags -/

/-- The ways in which a tag spells the name of a parameter, or that of a property of it. -/
inductive NameForm
  | plain
  | rest
  | optional
  | withDefault (value : List Char)
  | property (path : List Char)
  | optionalProperty (path : List Char)
deriving DecidableEq, Repr

namespace NameForm

def front : NameForm → List Char
  | plain | property _ => []
  | rest => "...".toList
  | optional | withDefault _ | optionalProperty _ => ['[']

def back : NameForm → List Char
  | plain | rest => []
  | optional => [']']
  | withDefault value => '=' :: (value ++ [']'])
  | property path => '.' :: path
  | optionalProperty path => '.' :: (path ++ [']'])

def isProperty : NameForm → Bool
  | property _ | optionalProperty _ => true
  | plain | rest | optional | withDefault _ => false

private theorem isNameFront (form : NameForm) : IsNameFront (' ' :: form.front) := by
  have spaced : ∀ c ∈ [' '], isBlank c = true := List.forall_mem_singleton.2 rfl
  cases form with
  | plain => exact ⟨[' '], [], [], by simp, spaced, .inl rfl, .inl rfl, rfl⟩
  | rest => exact ⟨[' '], [], _, by simp, spaced, .inl rfl, .inr rfl, rfl⟩
  | optional => exact ⟨[' '], ['['], [], by simp, spaced, .inr ⟨[], by simp, rfl⟩, .inl rfl, rfl⟩
  | withDefault value => exact ⟨[' '], ['['], [], by simp, spaced, .inr ⟨[], by simp, rfl⟩, .inl rfl, rfl⟩
  | property path => exact ⟨[' '], [], [], by simp, spaced, .inl rfl, .inl rfl, rfl⟩
  | optionalProperty path => exact ⟨[' '], ['['], [], by simp, spaced, .inr ⟨[], by simp, rfl⟩, .inl rfl, rfl⟩

end NameForm

/-- The line ` * @word {type} form text`, or ` * @word {type} form` without a text. -/
structure TagLine where
  word : String
  type : List Char
  name : List Char
  form : NameForm
  text? : Option (List Char)
  word_mem : word ∈ parameterWords
  type_visible : trim type ≠ []
  type_not_opening : '\x7b' ∉ type
  type_not_closing : '\x7d' ∉ type
  named : IsIdentifier name
  back_unmarked : '@' ∉ form.back
  text_unmarked : ∀ text ∈ text?, '@' ∉ text

namespace TagLine

def behindForm (line : TagLine) : List Char :=
  match line.text? with
  | none => ['\n']
  | some text => ' ' :: (text ++ ['\n'])

def behindType (line : TagLine) : List Char :=
  ' ' :: (line.form.front ++ (line.name ++ (line.form.back ++ line.behindForm)))

def behindMark (line : TagLine) : List Char :=
  line.word.toList ++ ([' ', '\x7b'] ++ (line.type ++ '\x7d' :: line.behindType))

def written (line : TagLine) : List Char := " * ".toList ++ '@' :: line.behindMark

/-- Whether the line is about the parameter with a name, and not about a property of it. -/
def states (line : TagLine) (name : List Char) : Bool := !line.form.isProperty && line.name = name

/-- What is read of the line. -/
def tag? (line : TagLine) : Option ParameterTag :=
  if line.form.isProperty then none else some ⟨line.name, line.type⟩

end TagLine

/-- The comment with these lines between its first line and its last. -/
def DocComment.ofLines (lines : List TagLine) : DocComment :=
  ⟨"/**\n".toList ++ (lines.flatMap TagLine.written ++ " */".toList)⟩

/-! ## Where no tag begins -/

private theorem parameterTag_eq_none_of_head {c : Char} (h : c ≠ '@') (cs : List Char) :
    parameterTag (c :: cs) = none := by
  refine Option.eq_none_iff_forall_ne_some.2 ?_
  rintro ⟨tag, rest⟩ read
  obtain ⟨inner, behind, -, split, -⟩ := exists_of_parameterTag read
  exact h (List.cons_eq_cons.1 split).1

/-- A tag has an opening brace in front of the first closing one. -/
theorem parameterTag_eq_none {cs : List Char} (h : '\x7b' ∉ cs) (rest : List Char) :
    parameterTag (cs ++ '\x7d' :: rest) = none := by
  refine Option.eq_none_iff_forall_ne_some.2 ?_
  rintro ⟨tag, rest'⟩ read
  obtain ⟨-, closed, opening, behind, opens, -, split⟩ := parameterTag_eq_some_iff.1 read
  obtain ⟨head, unmarked, rfl⟩ := (opens.mono (List.subset_append_right _ _)).exists_head
  have split : cs ++ '\x7d' :: rest = ('@' :: head) ++ '\x7b' :: (tag.type ++ '\x7d' :: behind) := by rw [split]; simp
  -- the closing brace stands behind the one that opens the type
  have noBrace : '\x7d' ∉ '@' :: head := not_mem_cons_of_unmarked unmarked (by decide) rfl
  obtain ⟨e, hcs, hrest⟩ := exists_append_of_not_mem split noBrace
  cases e with
  | nil => cases hrest
  | cons c e =>
    obtain ⟨rfl, -⟩ := List.cons_eq_cons.1 hrest
    exact h (by simp [hcs])

section

variable (p : ParameterTag → Bool)

private theorem only_eq_none {cs : List Char} (h : parameterTag cs = none) : only parameterTag p cs = none := by
  rw [only, h]
  rfl

private theorem firstMatch?_skip {cs : List Char} (h : '@' ∉ cs) (rest : List Char) :
    firstMatch? (only parameterTag p) (cs ++ rest) = firstMatch? (only parameterTag p) rest := by
  induction cs with
  | nil => rfl
  | cons c cs ih =>
    obtain ⟨hc, hcs⟩ := not_or.1 (mt List.mem_cons.2 h)
    rw [List.cons_append, firstMatch?_cons_of_eq_none (only_eq_none p (parameterTag_eq_none_of_head (Ne.symm hc) _)),
      ih hcs]

private theorem firstMatch?_skip_type {type : List Char} (h : '\x7b' ∉ type) (rest : List Char) :
    firstMatch? (only parameterTag p) (type ++ '\x7d' :: rest)
      = firstMatch? (only parameterTag p) ('\x7d' :: rest) := by
  induction type with
  | nil => rfl
  | cons c type ih =>
    have nothing : parameterTag (c :: (type ++ '\x7d' :: rest)) = none := parameterTag_eq_none h rest
    rw [List.cons_append, firstMatch?_cons_of_eq_none (only_eq_none p nothing),
      ih fun mem => h (List.mem_cons_of_mem c mem)]

end

/-! ## What is read of a line -/

namespace TagLine

variable (line : TagLine)

private theorem not_mem_name : '@' ∉ line.name :=
  not_mem_of_unmarked (fun c hc => isTagMark_of_continuesIdentifier (line.named.continues c hc)) rfl

private theorem not_mem_word : '@' ∉ line.word.toList :=
  not_mem_of_unmarked
    (fun c hc => (spelled_of_mem_tagWords line.word (List.mem_append_right _ line.word_mem) c hc).2) rfl

private theorem not_mem_behindForm : '@' ∉ line.behindForm := by
  have unmarked := line.text_unmarked
  rw [behindForm]
  cases htext : line.text? with
  | none => decide
  | some text => simp [unmarked text htext]

private theorem not_mem_behindType : '@' ∉ line.behindType := by
  have front : '@' ∉ line.form.front := by cases line.form <;> simp [NameForm.front]
  simp [behindType, front, line.not_mem_name, line.back_unmarked, line.not_mem_behindForm]

private theorem exists_behindForm_append (rest : List Char) :
    ∃ c behind, (c = ' ' ∨ c = '\n') ∧ line.behindForm ++ rest = c :: behind := by
  rw [behindForm]
  cases line.text? with
  | none => exact ⟨'\n', rest, .inr rfl, rfl⟩
  | some text => exact ⟨' ', text ++ ['\n'] ++ rest, .inl rfl, rfl⟩

/-- Behind the type a name is read, unless that of a property stands there. -/
private theorem exists_typedName_behindType (rest : List Char) :
    ∃ behind, typedName (line.behindType ++ rest) = line.tag?.map fun tag => (tag.name, behind) := by
  obtain ⟨c, behind, hc, ends⟩ := line.exists_behindForm_append rest
  have split : line.behindType ++ rest = ' ' :: line.form.front ++ (line.name ++ (line.form.back ++ c :: behind)) := by
    rw [← ends, behindType]
    simp
  have stop : ∀ d ∈ (line.form.back ++ c :: behind).head?, continuesIdentifier d = false := by
    cases line.form <;> rintro _ ⟨⟩ <;> first | decide | (rcases hc with rfl | rfl <;> decide)
  rw [split, typedName_front_append line.named line.form.isNameFront stop, TagLine.tag?]
  cases line.form with
  | plain | rest => exact ⟨behind, by rcases hc with rfl | rfl <;> rfl⟩
  | optional | withDefault value => exact ⟨_, rfl⟩
  | property path | optionalProperty path => exact ⟨[], rfl⟩

/-- Where the tag of a line begins, what the line states is read. -/
private theorem exists_parameterTag_behindMark (rest : List Char) :
    ∃ behind, parameterTag ('@' :: (line.behindMark ++ rest)) = line.tag?.map fun tag => (tag, behind) := by
  obtain ⟨behind, name⟩ := line.exists_typedName_behindType rest
  have typeRead : tagType parameterWords ('@' :: (line.behindMark ++ rest))
      = some (line.type, line.behindType ++ rest) := by
    refine (tagType_eq_some_iff (List.subset_append_right resultWords parameterWords)).2
      ⟨?_, line.type_not_closing, '@' :: (line.word.toList ++ ([' '] ++ ['\x7b'])),
        ⟨line.word, line.word_mem, [' '], by simp, List.forall_mem_singleton.2 rfl, rfl⟩, by simp [behindMark]⟩
    intro empty
    exact line.type_visible (by rw [empty]; rfl)
  refine ⟨behind, ?_⟩
  rw [parameterTag_eq]
  simp only [typeRead, Option.bind_some, name]
  unfold TagLine.tag?
  cases line.form.isProperty <;> rfl

/-- Behind the mark of its tag there is nothing to read on a line. -/
private theorem firstMatch?_behindMark_append (p : ParameterTag → Bool) (rest : List Char) :
    firstMatch? (only parameterTag p) (line.behindMark ++ rest) = firstMatch? (only parameterTag p) rest := by
  have split : line.behindMark ++ rest
      = line.word.toList ++ ([' ', '\x7b'] ++ (line.type ++ '\x7d' :: (line.behindType ++ rest))) := by simp [behindMark]
  have closed : '@' ∉ '\x7d' :: line.behindType := by simp [line.not_mem_behindType]
  rw [split, firstMatch?_skip p line.not_mem_word, firstMatch?_skip p (by decide), firstMatch?_skip_type p line.type_not_opening,
    ← List.cons_append, firstMatch?_skip p closed]

theorem firstMatch?_written_append (p : ParameterTag → Bool) (rest : List Char) :
    firstMatch? (only parameterTag p) (line.written ++ rest)
      = (line.tag?.filter p).or (firstMatch? (only parameterTag p) rest) := by
  obtain ⟨behind, read⟩ := line.exists_parameterTag_behindMark rest
  rw [written, List.append_assoc, firstMatch?_skip p (by decide), List.cons_append]
  cases found : line.tag?.filter p with
  | none =>
    have nothing : only parameterTag p ('@' :: (line.behindMark ++ rest)) = none := by
      rw [only, read]
      cases htag : line.tag? with
      | none => rfl
      | some tag => simpa [htag] using found
    rw [firstMatch?_cons_of_eq_none nothing, line.firstMatch?_behindMark_append]
    rfl
  | some tag =>
    obtain ⟨htag, hp⟩ := Option.filter_eq_some_iff.1 found
    exact firstMatch?_cons_of_eq_some (only_eq_some_iff.2 ⟨by rw [read, htag]; rfl, hp⟩)

end TagLine

/-! ## What is read of the comment -/

theorem firstMatch?_ofLines (p : ParameterTag → Bool) (lines : List TagLine) :
    firstMatch? (only parameterTag p) (DocComment.ofLines lines).text = (lines.filterMap TagLine.tag?).find? p := by
  rw [DocComment.ofLines, firstMatch?_skip p (by decide)]
  induction lines with
  | nil =>
    have last : '@' ∉ " */".toList := by decide
    exact firstMatch?_skip p last []
  | cons line lines ih =>
    rw [List.flatMap_cons, List.append_assoc, line.firstMatch?_written_append, ih, List.filterMap_cons]
    cases line.tag? with
    | none => rfl
    | some tag => rw [List.find?_cons, Option.filter_some]; cases p tag <;> rfl

private theorem find?_tags (lines : List TagLine) (name : List Char) :
    (lines.filterMap TagLine.tag?).find? (fun tag => tag.name = name)
      = (lines.find? fun line => line.states name).bind TagLine.tag? := by
  induction lines with
  | nil => rfl
  | cons line lines ih =>
    rw [List.filterMap_cons, List.find?_cons, TagLine.states]
    cases property : line.form.isProperty with
    | true => simpa [TagLine.tag?, property] using ih
    | false =>
      by_cases hname : line.name = name
      · simp [TagLine.tag?, property, hname]
      · simpa [TagLine.tag?, property, hname] using ih

private theorem TagLine.label?_of_states {line : TagLine} {name : List Char} (h : line.states name = true) :
    (line.tag?.bind fun tag => label? tag.type) = some (String.ofList (trim line.type)) := by
  have parameter : line.form.isProperty = false := by
    rw [states, Bool.and_eq_true, Bool.not_eq_true'] at h
    exact h.1
  rw [TagLine.tag?, if_neg (by simp [parameter]), Option.bind_some]
  exact label?_eq_some_iff.2 ⟨line.type_visible, rfl⟩

private theorem withoutDots_of_not_prefix {name : List Char} (h : ¬ "...".toList <+: name) :
    withoutDots name = name := by
  unfold withoutDots
  split
  · next rest => exact absurd ⟨rest, rfl⟩ h
  · rfl

/-- The type that the comment states for a parameter is that of the first line about it. -/
private theorem parameterType?_ofLines (lines : List TagLine) (name : String) :
    (DocComment.ofLines lines).parameterType? name = (lines.find? fun line => line.states (withoutDots name.toList)).map
      fun line => String.ofList (trim line.type) := by
  have first := (DocComment.ofLines lines).parameterTag?_eq name
  rw [firstMatch?_ofLines, find?_tags] at first
  rw [DocComment.parameterType?]
  show (DocComment.parameterTag? _ name).bind _ = _
  rw [first]
  cases found : lines.find? fun line => line.states (withoutDots name.toList) with
  | none => rfl
  | some line =>
    have about : line.states (withoutDots name.toList) = true := by simpa using List.find?_some found
    exact TagLine.label?_of_states about

namespace DocComment

/-- The comment says of a parameter what the first line about it states, with dots in front of its name as without them, and
the lines about other parameters and about properties do not matter. -/
structure IsReadBack (lines : List TagLine) (name : String) : Prop where
  plain : (ofLines lines).parameterType? name
    = (lines.find? fun line => line.states name.toList).map fun line => String.ofList (trim line.type)
  dotted : (ofLines lines).parameterType? ("..." ++ name) = (ofLines lines).parameterType? name
  others : ∀ more : List TagLine, more.filter (fun line => line.states name.toList)
      = lines.filter (fun line => line.states name.toList) →
    (ofLines more).parameterType? name = (ofLines lines).parameterType? name

theorem isReadBack_ofLines (lines : List TagLine) {name : String} (noDots : ¬ "...".toList <+: name.toList) :
    IsReadBack lines name := by
  have read (lines : List TagLine) : (ofLines lines).parameterType? name
      = (lines.find? fun line => line.states name.toList).map fun line => String.ofList (trim line.type) := by
    rw [parameterType?_ofLines, withoutDots_of_not_prefix noDots]
  refine ⟨read lines, ?_, fun more same => ?_⟩
  · rw [parameterType?_ofLines, parameterType?_ofLines, String.toList_append]
    rfl
  · rw [read, read, ← List.head?_filter, ← List.head?_filter, same]

/-- A property, then the parameter that it belongs to, and the parameter once more. -/
def optionLines : List TagLine :=
  have named : IsIdentifier "opts".toList :=
    ⟨⟨'o', "pts".toList, by decide, by decide⟩, List.all_eq_true.1 (by decide +kernel)⟩
  [⟨"param", "string".toList, "opts".toList, .optionalProperty "name".toList, none,
    by decide, by decide, by decide, by decide, named, by decide, by simp⟩,
   ⟨"argument", " Object ".toList, "opts".toList, .rest, some "all of them".toList,
    by decide, by decide, by decide, by decide, named, by decide, by decide⟩,
   ⟨"arg", "number".toList, "opts".toList, .withDefault "1".toList, none,
    by decide, by decide, by decide, by decide, named, by decide, by simp⟩]

theorem isReadBack_optionLines :
    ¬ "...".toList <+: "opts".toList ∧
      (ofLines optionLines).parameterType? "opts" = some "Object" ∧
      (ofLines optionLines).parameterType? "...opts" = some "Object" ∧
      (ofLines (optionLines.take 1)).parameterType? "opts" = none := by
  have noDots : ¬ "...".toList <+: "opts".toList := by decide
  have first : (optionLines.find? fun line => line.states "opts".toList).map (fun line => String.ofList (trim line.type))
      = some "Object" := by
    decide +kernel
  have none : ((optionLines.take 1).find? fun line => line.states "opts".toList).map
      (fun line => String.ofList (trim line.type)) = none := by
    decide +kernel
  have back := isReadBack_ofLines optionLines noDots
  exact ⟨noDots, back.plain.trans first, back.dotted.trans (back.plain.trans first),
    (isReadBack_ofLines (optionLines.take 1) noDots).plain.trans none⟩

end DocComment

end SpecCoverage.Functions
