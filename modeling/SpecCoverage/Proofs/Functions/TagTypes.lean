import SpecCoverage.Proofs.Functions.Tags

/-!
# The types that tags state

The type of a tag goes to the first closing brace.  That is the one that matches the brace in front of it exactly if no
other brace is opened in between (`isLabelOf_iff`).

* (overlaps) tags for parameters that overlap have the same name (`name_eq_of_overlap`), so that the tag found for a
  parameter is the leftmost one with its name (`DocComment.parameterTag?_eq`);
* (unclosed tags) a brace that is never closed parts a comment: the first tag is in front of it, or it is the first one
  behind it (`IsTypedTag.firstMatch?_of_neverClosed`);
* (comments) so a comment is read as its tags are meant exactly if no label that it yields has an opening brace in it
  (`DocComment.readsTypes_iff`).
-/

namespace SpecCoverage.Functions

open Text

/-! ## Braces -/

/-- How many braces are open behind a text if so many are open in front of it; nothing if one is closed that is not open. -/
def openBraces? (opened : Nat) : List Char → Option Nat
  | [] => some opened
  | c :: cs =>
    if c = '\x7b' then openBraces? (opened + 1) cs
    else if c = '\x7d' then if opened = 0 then none else openBraces? (opened - 1) cs
    else openBraces? opened cs

/-- Every brace in a text is matched in it. -/
def IsBalanced (cs : List Char) : Prop := openBraces? 0 cs = some 0

/-- No brace matches one that is opened in front of a text. -/
def NeverClosed (cs : List Char) : Prop := ∀ type rest, cs = type ++ '\x7d' :: rest → ¬ IsBalanced type

private theorem openBraces?_of_not_mem {cs : List Char} (h : '\x7d' ∉ cs) (opened : Nat) :
    openBraces? opened cs = some (opened + cs.count '\x7b') := by
  induction cs generalizing opened with
  | nil => rfl
  | cons c cs ih =>
    obtain ⟨hc, hcs⟩ := not_or.1 (mt List.mem_cons.2 h)
    rw [openBraces?]
    split
    · next brace =>
      rw [ih hcs, brace, List.count_cons_self, Nat.add_assoc, Nat.add_comm 1]
    · next noBrace => rw [if_neg (Ne.symm hc), ih hcs, List.count_cons_of_ne noBrace]

private theorem isBalanced_iff_of_not_mem {cs : List Char} (h : '\x7d' ∉ cs) : IsBalanced cs ↔ '\x7b' ∉ cs := by
  rw [IsBalanced, openBraces?_of_not_mem h, Option.some.injEq, Nat.zero_add, List.count_eq_zero]

/-! ## Tags that overlap -/

/-- A tag for a parameter goes on to the first closing brace, behind which the name follows. -/
theorem exists_of_parameterTag {cs rest : List Char} {tag : ParameterTag} (h : parameterTag cs = some (tag, rest)) :
    ∃ inner behind, '\x7d' ∉ inner ∧ cs = '@' :: (inner ++ '\x7d' :: behind) ∧
      typedName behind = some (tag.name, rest) := by
  obtain ⟨-, closed, opening, behind, opens, named, rfl⟩ := parameterTag_eq_some_iff.1 h
  obtain ⟨head, unmarked, rfl⟩ := (opens.mono (List.subset_append_right _ _)).exists_head
  refine ⟨head ++ '\x7b' :: tag.type, behind, ?_, by simp, named⟩
  simp only [List.mem_append, List.mem_cons, not_or]
  exact ⟨not_mem_of_unmarked unmarked rfl, by decide, closed⟩

private theorem takes_parameterTag : Takes parameterTag where
  exists_found h := by
    obtain ⟨inner, behind, -, rfl, named⟩ := exists_of_parameterTag h
    obtain ⟨found, rfl, -, -⟩ := exists_found_of_typedName named
    exact ⟨'@' :: (inner ++ '\x7d' :: found), List.cons_ne_nil _ _, by simp⟩

/-- Two tags that overlap have the same name: the later one begins in front of the brace that closes the type of the earlier
one, and so it is closed by this brace as well. -/
theorem name_eq_of_overlap {a b rest rest' : List Char} {tag tag' : ParameterTag} (hne : a ≠ [])
    (h : parameterTag (a ++ b) = some (tag, rest)) (within : rest.length < b.length)
    (h' : parameterTag b = some (tag', rest')) : tag'.name = tag.name := by
  obtain ⟨inner, behind, closed, split, named⟩ := exists_of_parameterTag h
  obtain ⟨inner', behind', closed', rfl, named'⟩ := exists_of_parameterTag h'
  obtain ⟨found, rfl, unmarked, -⟩ := exists_found_of_typedName named
  obtain ⟨c, a, rfl⟩ := List.exists_cons_of_ne_nil hne
  have sameEnd : behind' = found ++ rest := by
    rcases List.append_eq_append_iff.1 (List.cons_eq_cons.1 split).2 with ⟨e, rfl, ends⟩ | ⟨e, rfl, ends⟩
    · -- the later tag begins in front of the brace
      cases e with
      | nil => cases ends
      | cons d e =>
        have noBrace : '\x7d' ∉ e := fun mem => closed (by simp [mem])
        have ends : inner' ++ '\x7d' :: behind' = e ++ '\x7d' :: (found ++ rest) := (List.cons_eq_cons.1 ends).2
        have cut := congrArg (List.dropWhile fun c => decide (c ≠ '\x7d')) ends
        rw [dropWhile_append_cons (forall_ne_of_not_mem closed') (by decide),
          dropWhile_append_cons (forall_ne_of_not_mem noBrace) (by decide)] at cut
        exact (List.cons_eq_cons.1 cut).2
    · -- it would begin behind it, where no mark stands before the end of the earlier one
      have noMark : '@' ∉ '\x7d' :: found := not_mem_cons_of_unmarked unmarked (by decide) rfl
      obtain ⟨e', -, rfl⟩ := @exists_append_of_not_mem e ('\x7d' :: found) _ rest '@' ends.symm noMark
      rw [List.length_append] at within
      omega
  rw [sameEnd, named, Option.some.injEq, Prod.mk.injEq] at named'
  exact named'.1.symm

/-! ## Braces that are never closed -/

/-- What the two kinds of tags have in common: a brace opens the type, no other brace stands in the tag but those in the
type and the one that closes it, and what a tag gives does not depend on what follows, if something follows. -/
structure IsTypedTag {α : Type} (pattern : Pattern α) (typeOf : α → List Char) : Prop where
  exists_split : ∀ {cs rest : List Char} {value : α}, pattern cs = some (value, rest) →
    ∃ head found, '\x7b' ∉ '@' :: head ∧ '\x7d' ∉ typeOf value ∧ '\x7b' ∉ '\x7d' :: found ∧
      cs = '@' :: (head ++ '\x7b' :: (typeOf value ++ '\x7d' :: (found ++ rest)))
  keeps : ∀ {found rest : List Char} {value : α}, pattern (found ++ rest) = some (value, rest) → rest ≠ [] →
    ∀ more, pattern (found ++ more) = some (value, more)

private theorem isTypedTag_resultTag : IsTypedTag resultTag id where
  exists_split h := by
    obtain ⟨-, closed, opening, opens, rfl⟩ := resultTag_eq_some_iff.1 h
    obtain ⟨head, unmarked, rfl⟩ := (opens.mono (List.subset_append_left _ _)).exists_head
    exact ⟨head, [], not_mem_cons_of_unmarked unmarked (by decide) rfl, closed, by decide, by simp⟩
  keeps {found rest type} h _ more := by
    obtain ⟨hne, closed, opening, opens, split⟩ := resultTag_eq_some_iff.1 h
    have whole : found = opening ++ (type ++ ['\x7d']) := List.append_cancel_right (split.trans (by simp))
    exact resultTag_eq_some_iff.2 ⟨hne, closed, opening, opens, by rw [whole]; simp⟩

private theorem isTypedTag_parameterTag (p : ParameterTag → Bool) :
    IsTypedTag (only parameterTag p) ParameterTag.type where
  exists_split h := by
    obtain ⟨-, closed, opening, behind, opens, named, rfl⟩ := parameterTag_eq_some_iff.1 (only_eq_some_iff.1 h).1
    obtain ⟨head, unmarked, rfl⟩ := (opens.mono (List.subset_append_right _ _)).exists_head
    obtain ⟨found, rfl, unmarked', -⟩ := exists_found_of_typedName named
    exact ⟨head, found, not_mem_cons_of_unmarked unmarked (by decide) rfl, closed,
      not_mem_cons_of_unmarked unmarked' (by decide) rfl, by simp⟩
  keeps {text rest tag} h goesOn more := by
    obtain ⟨read, has⟩ := only_eq_some_iff.1 h
    obtain ⟨hne, closed, opening, behind, opens, named, split⟩ := parameterTag_eq_some_iff.1 read
    obtain ⟨found, rfl, -, named⟩ := exists_found_of_typedName named
    have whole : text = opening ++ (tag.type ++ '\x7d' :: found) := List.append_cancel_right (split.trans (by simp))
    exact only_eq_some_iff.2 ⟨parameterTag_eq_some_iff.2
      ⟨hne, closed, opening, found ++ more, opens, named goesOn more, by rw [whole]; simp⟩, has⟩

section

variable {α : Type} {pattern : Pattern α} {typeOf : α → List Char} (tag : IsTypedTag pattern typeOf)
include tag

/-- What is no tag in front of some text is no tag where the text stops at a brace. -/
private theorem IsTypedTag.eq_none_of_brace {cs inner : List Char} (h : pattern (cs ++ '\x7b' :: inner) = none) :
    pattern (cs ++ ['\x7b']) = none := by
  refine Option.eq_none_iff_forall_ne_some.2 ?_
  rintro ⟨value, rest⟩ read
  obtain ⟨head, found, -, -, noBrace, split⟩ := tag.exists_split read
  -- the tag does not reach the brace, so that it would be there in front of the text as well
  have goesOn : rest ≠ [] := by
    rintro rfl
    have ends : cs ++ ['\x7b'] = ('@' :: (head ++ '\x7b' :: typeOf value)) ++ '\x7d' :: found := by rw [split]; simp
    obtain ⟨e, -, nothing⟩ := exists_append_of_not_mem_right ends noBrace
    simp at nothing
  have flat : cs ++ ['\x7b'] = ('@' :: (head ++ '\x7b' :: (typeOf value ++ '\x7d' :: found))) ++ rest := by
    rw [split]
    simp
  have kept := tag.keeps (flat ▸ read) goesOn (rest ++ inner)
  rw [← List.append_assoc, ← flat, List.append_assoc, List.singleton_append, h] at kept
  cases kept

private theorem IsTypedTag.firstMatch?_brace_eq_none {a inner : List Char}
    (h : ∀ front t, a = front ++ t → pattern (t ++ '\x7b' :: inner) = none) :
    firstMatch? pattern (a ++ ['\x7b']) = none := by
  refine firstMatch?_eq_none_iff.2 fun front tail hne split => ?_
  obtain ⟨t, c, rfl⟩ : ∃ t c, tail = t ++ [c] := ⟨_, _, (List.dropLast_concat_getLast hne).symm⟩
  rw [← List.append_assoc] at split
  obtain ⟨rfl, ends⟩ := List.append_inj' split rfl
  obtain rfl : '\x7b' = c := by simpa using ends
  exact tag.eq_none_of_brace (h front t rfl)

private theorem IsTypedTag.firstMatch?_brace_eq_some {front body e inner : List Char} {value : α} (hne : body ≠ [])
    (read : pattern (body ++ (e ++ '\x7b' :: inner)) = some (value, e ++ '\x7b' :: inner))
    (before : ∀ b, b ≠ [] → b <:+ front → pattern (b ++ (body ++ (e ++ '\x7b' :: inner))) = none) :
    firstMatch? pattern (front ++ (body ++ (e ++ ['\x7b']))) = some value := by
  have kept := tag.keeps read (by simp) (e ++ ['\x7b'])
  refine firstMatch?_append (List.append_ne_nil_of_left_ne_nil hne _) kept fun b some suffix => ?_
  have nothing : pattern ((b ++ (body ++ e)) ++ '\x7b' :: inner) = none := by simpa using before b some suffix
  simpa using tag.eq_none_of_brace nothing

/-- A first match behind a brace is the first one of the text behind the brace, and there is none in front. -/
private theorem IsTypedTag.firstMatch?_behind_brace {a e tail rest : List Char} {value : α} (hne : tail ≠ [])
    (read : pattern tail = some (value, rest))
    (before : ∀ b, b ≠ [] → b <:+ a ++ '\x7b' :: e → pattern (b ++ tail) = none) :
    firstMatch? pattern (a ++ ['\x7b']) = none ∧ firstMatch? pattern (e ++ tail) = some value := by
  constructor
  · have nothing : ∀ front t, a = front ++ t → pattern (t ++ '\x7b' :: (e ++ tail)) = none := by
      rintro front t rfl
      simpa using before (t ++ '\x7b' :: e) (by simp) ⟨front, by simp⟩
    exact tag.firstMatch?_brace_eq_none nothing
  · exact firstMatch?_append hne read fun b hne suffix => before b hne (suffix.trans ⟨a ++ ['\x7b'], by simp⟩)

/-- A brace that is never closed parts the text: the first match stands in front of it, or else it is the first one behind
it, unless it has a brace in its type. -/
theorem IsTypedTag.firstMatch?_of_neverClosed {a inner : List Char} (never : NeverClosed inner)
    (plain : ∀ value, firstMatch? pattern (a ++ '\x7b' :: inner) = some value → '\x7b' ∉ typeOf value) :
    firstMatch? pattern (a ++ '\x7b' :: inner)
      = (firstMatch? pattern (a ++ ['\x7b'])).or (firstMatch? pattern inner) := by
  cases first : firstMatch? pattern (a ++ '\x7b' :: inner) with
  | none =>
    rw [firstMatch?_eq_none_iff] at first
    have inFront : firstMatch? pattern (a ++ ['\x7b']) = none :=
      tag.firstMatch?_brace_eq_none fun front t split => first front (t ++ '\x7b' :: inner) (by simp) (by simp [split])
    have behind : firstMatch? pattern inner = none :=
      firstMatch?_eq_none_iff.2 fun front tail hne split => first (a ++ '\x7b' :: front) tail hne (by simp [split])
    rw [inFront, behind]
    rfl
  | some value =>
    have plain := plain value first
    obtain ⟨front, tail, rest, split, read, before⟩ := exists_of_firstMatch? first
    obtain ⟨head, found, noBrace, closed, noBrace', htail⟩ := tag.exists_split read
    have noBrace' : '\x7b' ∉ typeOf value ++ '\x7d' :: found := by
      rw [List.mem_append, not_or]
      exact ⟨plain, noBrace'⟩
    have notClosed : inner ≠ typeOf value ++ '\x7d' :: (found ++ rest) := fun split =>
      never _ _ split ((isBalanced_iff_of_not_mem closed).2 plain)
    -- where the brace of the match stands
    have braces : a ++ '\x7b' :: inner
        = (front ++ '@' :: head) ++ '\x7b' :: (typeOf value ++ '\x7d' :: (found ++ rest)) := by rw [split, htail]; simp
    rcases List.append_eq_append_iff.1 braces with ⟨e, hfront, ends⟩ | ⟨e, ha, ends⟩ <;> rcases e with _ | ⟨c, e⟩
    · exact absurd (List.cons_eq_cons.1 ends).2 notClosed
    · -- behind the one that is never closed: the whole match stands there
      obtain ⟨rfl, hinner⟩ := List.cons_eq_cons.1 ends
      obtain ⟨e', rfl, rfl⟩ := exists_append_of_not_mem_right hfront.symm noBrace
      obtain rfl : inner = e' ++ tail := by rw [hinner, htail]; simp
      obtain ⟨inFront, behind⟩ := tag.firstMatch?_behind_brace (by simp [htail]) read before
      rw [inFront, behind]
      rfl
    · exact absurd (List.cons_eq_cons.1 ends).2.symm notClosed
    · -- in front of it: the match ends there, too
      obtain ⟨rfl, hrest⟩ := List.cons_eq_cons.1 ends
      have whole : e ++ '\x7b' :: inner = (typeOf value ++ '\x7d' :: found) ++ rest := by simpa using hrest.symm
      obtain ⟨e', rfl, rfl⟩ := exists_append_of_not_mem whole noBrace'
      obtain ⟨body, hbody⟩ : ∃ body, '@' :: (head ++ '\x7b' :: (typeOf value ++ '\x7d' :: found)) = body := ⟨_, rfl⟩
      obtain rfl : tail = body ++ (e' ++ '\x7b' :: inner) := by rw [htail, ← hbody]; simp
      have inFront := tag.firstMatch?_brace_eq_some (by simp [← hbody]) read before
      have stops : a ++ ['\x7b'] = front ++ (body ++ (e' ++ ['\x7b'])) := by rw [ha, ← hbody]; simp
      rw [stops, inFront]
      rfl

end

/-! ## Labels -/

theorem label?_eq_some_iff {type : List Char} {label : String} :
    label? type = some label ↔ trim type ≠ [] ∧ label = String.ofList (trim type) := by
  show (if (trim type).isEmpty = true then none else some (String.ofList (trim type))) = some label ↔ _
  rw [Option.ite_none_left_eq_some, List.isEmpty_iff, Option.some.injEq, eq_comm (a := label)]

/-- A label that is the trimmed text between the brace that opens the type of a tag and the one that matches it. -/
def IsLabelOf (words : List String) (text : List Char) (label : String) : Prop :=
  ∃ front opening type rest, IsOpening words opening ∧ IsBalanced type ∧
    text = front ++ (opening ++ (type ++ '\x7d' :: rest)) ∧ label = String.ofList (trim type)

/-- A label that goes to the first closing brace goes to the matching one exactly if it has no brace in it. -/
theorem isLabelOf_iff {words : List String} {front opening type rest : List Char} {label : String}
    (opens : IsOpening words opening) (closed : '\x7d' ∉ type) (h : label? type = some label) :
    IsLabelOf words (front ++ (opening ++ (type ++ '\x7d' :: rest))) label ↔ '\x7b' ∉ label.toList := by
  obtain ⟨-, rfl⟩ := label?_eq_some_iff.1 h
  rw [String.toList_ofList]
  constructor
  · rintro ⟨front', opening', type', rest', -, balanced, -, same⟩
    have same : trim type = trim type' := by simpa using congrArg String.toList same
    have closed' : '\x7d' ∉ type' := by
      rwa [← mem_trim_iff (by decide), ← same, mem_trim_iff (by decide)]
    rw [same, mem_trim_iff (by decide)]
    exact (isBalanced_iff_of_not_mem closed').1 balanced
  · intro plain
    rw [mem_trim_iff (by decide)] at plain
    exact ⟨front, opening, type, rest, opens, (isBalanced_iff_of_not_mem closed).2 plain, rfl, rfl⟩

private theorem not_mem_of_label? {type : List Char} (h : ∀ label, label? type = some label → '\x7b' ∉ label.toList) :
    '\x7b' ∉ type := by
  intro mem
  have mem : '\x7b' ∈ trim type := (mem_trim_iff (by decide)).2 mem
  refine h _ (label?_eq_some_iff.2 ⟨List.ne_nil_of_mem mem, rfl⟩) ?_
  rwa [String.toList_ofList]

/-! ## What a comment yields -/

namespace DocComment

/-- The type that the first tag for the result states, as it is written. -/
def resultTag? (d : DocComment) : Option (List Char) := firstMatch? resultTag d.text

/-- The first tag for a parameter. -/
def parameterTag? (d : DocComment) (name : String) : Option ParameterTag :=
  d.parameterTags.find? fun tag => tag.name = withoutDots name.toList

theorem parameterTag?_eq (d : DocComment) (name : String) : d.parameterTag? name
    = firstMatch? (only parameterTag fun tag => tag.name = withoutDots name.toList) d.text := by
  refine find?_allMatches takes_parameterTag (fun hne read within read' => ?_) d.text
  rw [name_eq_of_overlap hne read within read']

/-- The labels of a comment are the types of its tags, and a tag that is never closed gives nothing and leaves to the tags
behind it what they give. -/
structure ReadsTypes (d : DocComment) : Prop where
  result : ∀ label, d.resultType? = some label → IsLabelOf resultWords d.text label
  parameter : ∀ name label, d.parameterType? name = some label → IsLabelOf parameterWords d.text label
  unclosed_result : ∀ front opening inner, d.text = front ++ (opening ++ inner) → IsOpening tagWords opening →
    NeverClosed inner → d.resultTag? = (resultTag? ⟨front ++ opening⟩).or (resultTag? ⟨inner⟩)
  unclosed_parameter : ∀ front opening inner, d.text = front ++ (opening ++ inner) → IsOpening tagWords opening →
    NeverClosed inner → ∀ name,
      d.parameterTag? name = (parameterTag? ⟨front ++ opening⟩ name).or (parameterTag? ⟨inner⟩ name)

private theorem isLabelOf_resultType?_iff {d : DocComment} {label : String} (h : d.resultType? = some label) :
    IsLabelOf resultWords d.text label ↔ '\x7b' ∉ label.toList := by
  obtain ⟨type, first, hlabel⟩ := Option.bind_eq_some_iff.1 h
  obtain ⟨front, tail, rest, split, read, -⟩ := exists_of_firstMatch? first
  obtain ⟨-, closed, opening, opens, rfl⟩ := resultTag_eq_some_iff.1 read
  rw [split]
  exact isLabelOf_iff opens closed hlabel

private theorem isLabelOf_parameterType?_iff {d : DocComment} {name label : String}
    (h : d.parameterType? name = some label) :
    IsLabelOf parameterWords d.text label ↔ '\x7b' ∉ label.toList := by
  obtain ⟨tag, first, hlabel⟩ := Option.bind_eq_some_iff.1 h
  obtain ⟨front, tail, rest, split, read, -⟩ := exists_of_firstMatch? ((d.parameterTag?_eq name).symm.trans first)
  obtain ⟨-, closed, opening, behind, opens, -, rfl⟩ := parameterTag_eq_some_iff.1 (only_eq_some_iff.1 read).1
  rw [split]
  exact isLabelOf_iff opens closed hlabel

/-- A comment is read so exactly if no label that it yields has an opening brace in it. -/
theorem readsTypes_iff (d : DocComment) : d.ReadsTypes ↔
    (∀ label, d.resultType? = some label → '\x7b' ∉ label.toList) ∧
      ∀ name label, d.parameterType? name = some label → '\x7b' ∉ label.toList := by
  constructor
  · intro reads
    exact ⟨fun label h => (isLabelOf_resultType?_iff h).1 (reads.result label h),
      fun name label h => (isLabelOf_parameterType?_iff h).1 (reads.parameter name label h)⟩
  · rintro ⟨results, parameters⟩
    refine ⟨fun label h => (isLabelOf_resultType?_iff h).2 (results label h),
      fun name label h => (isLabelOf_parameterType?_iff h).2 (parameters name label h),
      fun front opening inner split opens never => ?_, fun front opening inner split opens never name => ?_⟩
    all_goals
      obtain ⟨head, -, rfl⟩ := opens.exists_head
      have text : d.text = (front ++ '@' :: head) ++ '\x7b' :: inner := by rw [split]; simp
      have stop : front ++ '@' :: (head ++ ['\x7b']) = (front ++ '@' :: head) ++ ['\x7b'] := by simp
    · rw [resultTag?, resultTag?, resultTag?, text, stop]
      refine isTypedTag_resultTag.firstMatch?_of_neverClosed never fun type first => ?_
      rw [← text] at first
      exact not_mem_of_label? fun label h => results label (Option.bind_eq_some_iff.2 ⟨type, first, h⟩)
    · rw [parameterTag?_eq, parameterTag?_eq, parameterTag?_eq, text, stop]
      refine (isTypedTag_parameterTag _).firstMatch?_of_neverClosed never fun tag first => ?_
      rw [← text, ← parameterTag?_eq] at first
      exact not_mem_of_label? fun label h => parameters name label (Option.bind_eq_some_iff.2 ⟨tag, first, h⟩)

/-- A type with braces of its own. -/
def nestedComment : DocComment := ⟨"/** @returns \x7b\x7ba: number\x7d\x7d */".toList⟩

/-- A tag that is never closed, and a tag behind it. -/
def unclosedComment : DocComment := ⟨"/** @returns \x7bstring\n * @returns \x7bnumber\x7d */".toList⟩

theorem not_readsTypes_nested :
    nestedComment.resultType? = some "\x7ba: number" ∧ ¬ nestedComment.ReadsTypes ∧
      unclosedComment.resultType? = some "string\n * @returns \x7bnumber" ∧ ¬ unclosedComment.ReadsTypes := by
  have nested : nestedComment.resultType? = some "\x7ba: number" := by decide +kernel
  have unclosed : unclosedComment.resultType? = some "string\n * @returns \x7bnumber" := by decide +kernel
  have braced : ¬ '\x7b' ∉ "\x7ba: number".toList ∧ ¬ '\x7b' ∉ "string\n * @returns \x7bnumber".toList := by decide
  exact ⟨nested, fun reads => braced.1 ((isLabelOf_resultType?_iff nested).1 (reads.result _ nested)),
    unclosed, fun reads => braced.2 ((isLabelOf_resultType?_iff unclosed).1 (reads.result _ unclosed))⟩

end DocComment

end SpecCoverage.Functions
