import SpecCoverage.Proofs.Documents.Fence
import SpecCoverage.Proofs.Specifications.Extraction

/-!
# Definitions in script code

What the rule for script code takes for a definition is a name, parameters in parentheses, and all up to the next brace
in which no statement ends (`IsDefinition`).  So a call in front of a definition, without a semicolon behind it, takes
the definition for its own body.

* (statements) where every parenthesis is closed and a statement ends behind it, nothing runs over into what follows
  (`isClear_of_isSettled`);
* (blocks) a definition in a script block is found where it stands exactly if its name is an identifier and nothing
  that begins in front of it runs over into it (`foundBehind_mem_iff`).
-/

namespace SpecCoverage.Specifications

open Documents Sorting Text

/-! ## What runs over a place -/

/-- No definition that begins in front of a place runs over it. -/
def IsClear (before body : List Char) : Prop :=
  ∀ m ∈ allMatches codeDefinition body, m.start < byteLength before → m.stop ≤ byteLength before

/-- Every parenthesis is closed, and behind it a statement ends. -/
def IsSettled (before : List Char) : Prop :=
  ∀ x y, before = x ++ '(' :: y → ∃ u v w c, y = u ++ ')' :: (v ++ c :: w) ∧ isWithinStatement c = false

/-- A definition whose parenthesis stands in a settled text ends in it. -/
private theorem exists_append_of_isSettled {head parameters between y rest : List Char}
    (settled : IsSettled (head ++ '(' :: y)) (closed : ')' ∉ parameters)
    (within : ∀ c ∈ between, isWithinStatement c = true) {tail : List Char}
    (h : parameters ++ ')' :: (between ++ '\x7b' :: rest) = y ++ tail) :
    ∃ others, y = parameters ++ ')' :: (between ++ '\x7b' :: others) := by
  obtain ⟨u, v, w, c, rfl, ends⟩ := settled head y rfl
  obtain ⟨e, he⟩ := exists_append_of_forall (b := u) (d := ')') (y := v ++ c :: w ++ tail) (by simpa using h)
    (forall_ne_of_not_mem closed) (by decide)
  have whole : u ++ ')' :: (v ++ c :: w) = parameters ++ ')' :: (e ++ v ++ c :: w) := by
    have joined : u ++ ')' :: (v ++ c :: w) = u ++ [')'] ++ (v ++ c :: w) := by simp
    rw [joined, he]
    simp
  rw [whole, List.append_assoc, List.append_cancel_left_eq, List.cons_append, List.cons_eq_cons] at h
  obtain ⟨e', he'⟩ := exists_append_of_forall (b := e ++ v) (d := c) (y := w ++ tail) (by simpa using h.2) within ends
  refine ⟨e' ++ w, ?_⟩
  have joined : e ++ v ++ c :: w = e ++ v ++ [c] ++ w := by simp
  rw [whole, joined, he']
  simp

private theorem not_mem_of_continuesIdentifier {name : List Char} (h : ∀ c ∈ name, continuesIdentifier c = true)
    {c : Char}
    (hc : continuesIdentifier c = false) : c ∉ name := by
  intro mem
  rw [h c mem] at hc
  cases hc

/-- No blanks stand behind a text that ends with an identifier. -/
private theorem eq_nil_of_append_blanks {a b blanks name : List Char} (h : a ++ blanks = b ++ name)
    (hblanks : ∀ c ∈ blanks, isBlank c = true) (named : IsIdentifier name) : blanks = [] := by
  refine Classical.byContradiction fun hne => ?_
  have hne' := named.ne_nil
  have last := congrArg List.getLast? h
  rw [List.getLast?_append, List.getLast?_append, List.getLast?_eq_some_getLast hne,
    List.getLast?_eq_some_getLast hne', Option.some_or, Option.some_or, Option.some.injEq] at last
  have continues := named.continues _ (List.getLast_mem hne')
  rw [← last, continuesIdentifier_of_isBlank (hblanks _ (List.getLast_mem hne))] at continues
  cases continues

theorem isIdentifier_function : IsIdentifier "function".toList where
  begins := ⟨'f', "unction".toList, by decide, by decide⟩
  continues := List.all_eq_true.1 (by decide +kernel)

/-- The keyword in front of a name is where the keyword in front of the same name is. -/
private theorem eq_nil_of_isLead {front lead blanks name name' : List Char} (isLead : IsLead lead)
    (hblanks : ∀ c ∈ blanks, isBlank c = true) (named : IsIdentifier name) (named' : IsIdentifier name')
    (h : lead ++ (name ++ blanks) = front ++ "function".toList ++ ' ' :: name') : front = [] := by
  have space : continuesIdentifier ' ' = false := by decide
  have keyword : IsIdentifier "function".toList := isIdentifier_function
  unfold IsLead at isLead
  generalize "function".toList = word at isLead keyword h
  have ends : lead ++ name ++ blanks = front ++ word ++ [' '] ++ name' := by simpa using h
  obtain rfl := eq_nil_of_append_blanks ends hblanks named'
  rw [List.append_nil] at h
  rcases isLead with rfl | ⟨spaces, hne, hall, rfl⟩
  · have mem : ' ' ∈ name := by
      rw [← List.nil_append name, h]
      simp
    exact absurd mem (not_mem_of_continuesIdentifier named.continues space)
  · obtain ⟨spaces, c, rfl⟩ := (List.eq_nil_or_concat spaces).resolve_left hne
    have split : word ++ spaces ++ c :: name = front ++ word ++ ' ' :: name' := by simpa using h
    obtain ⟨words, -, -⟩ := append_cons_inj_of_forall split (continuesIdentifier_of_isBlank (hall c (by simp))) space
      named.continues named'.continues
    obtain rfl := eq_nil_of_append_blanks words (fun d hd => hall d (by simp [hd])) keyword
    simpa using words

private theorem not_mem_of_isLead {lead : List Char} (isLead : IsLead lead) : '(' ∉ lead := by
  rcases isLead with rfl | ⟨blanks, -, hblanks, rfl⟩
  · simp
  · rw [List.mem_append, not_or]
    exact ⟨by decide, fun mem => nomatch hblanks _ mem⟩

/-- What stands in front of the parenthesis of a definition. -/
private theorem eq_of_text_append {s : Signature} (named : IsIdentifier s.name) {front rest after : List Char}
    (h : s.text ++ after = front ++ '(' :: rest) (noMark : '(' ∉ front) :
    front = "function".toList ++ ' ' :: s.name := by
  have noMark' : '(' ∉ "function".toList ++ ' ' :: s.name := by
    rw [List.mem_append, List.mem_cons]
    rintro (mem | mem | mem)
    · exact absurd mem (by decide)
    · cases mem
    · exact not_mem_of_continuesIdentifier named.continues (by decide) mem
  rw [s.text_append] at h
  generalize "function".toList = word at h noMark' ⊢
  have split : word ++ ' ' :: s.name ++ '(' :: (s.parameters ++ ')' :: ' ' :: '\x7b' :: after)
      = front ++ '(' :: rest := by simpa using h
  have cut : ∀ {x : List Char}, '(' ∉ x → ∀ y, (x ++ '(' :: y).takeWhile (· ≠ '(') = x := fun hx y =>
    takeWhile_append_cons (forall_ne_of_not_mem hx) (by decide) y
  rw [← cut noMark rest, ← split, cut noMark']

/-- Where all parentheses in front of a definition are settled, nothing runs over into it. -/
theorem isClear_of_isSettled {before after : List Char} {s : Signature} (settled : IsSettled before)
    (named : IsIdentifier s.name) : IsClear before (before ++ (s.text ++ after)) := by
  intro m hm lt
  obtain ⟨front, found, rest, split, -, -, read, hstart, hstop⟩ :=
    (isAt_of_mem_allMatches takes_codeDefinition hm).exists_split
  obtain ⟨_, definition, e⟩ := codeDefinition_eq_some read
  obtain rfl := List.append_cancel_right e
  obtain ⟨lead, blanks, between, isLead, hblanks, within, rfl⟩ := definition.exists_split
  rw [Nat.zero_add] at hstart
  rw [hstart] at lt hstop
  have noMark : '(' ∉ lead ++ (m.value.name ++ blanks) := by
    simp only [List.mem_append, not_or]
    exact ⟨not_mem_of_isLead isLead,
      not_mem_of_continuesIdentifier definition.isIdentifier.continues (by decide),
      fun mem => nomatch hblanks _ mem⟩
  have parts : before ++ (s.text ++ after) = front ++ (lead ++ (m.value.name ++ blanks))
      ++ '(' :: (m.value.parameters ++ ')' :: (between ++ '\x7b' :: rest)) := by
    rw [split]
    simp
  -- the parenthesis of what begins earlier stands behind the place, or in front of it
  rcases List.append_eq_append_iff.1 parts with ⟨e, hhead, htext⟩ | ⟨e, rfl, htext⟩
  · obtain ⟨b, rfl, hb⟩ := exists_append_of_byteLength_le hhead (Nat.le_of_lt lt)
    have noMark' : '(' ∉ e := fun mem => noMark (by rw [hb]; exact List.mem_append_right _ mem)
    rw [eq_of_text_append named htext noMark'] at hb
    obtain rfl := eq_nil_of_isLead isLead hblanks definition.isIdentifier named (by rw [hb, List.append_assoc])
    simp at lt
  · cases e with
    | nil =>
      have none := @eq_of_text_append s named [] _ _ htext.symm (by simp)
      generalize "function".toList = word at none
      simp at none
    | cons c y =>
      rw [List.cons_append, List.cons_eq_cons] at htext
      obtain ⟨rfl, htext⟩ := htext
      obtain ⟨others, rfl⟩ := exists_append_of_isSettled settled definition.closed within htext
      rw [hstop]
      simp only [byteLength_append, byteLength, List.append_assoc]
      omega

/-! ## Definitions in a block -/

/-- What a definition behind some part of a script block makes. -/
def foundBehind (before : List Char) (s : Signature) (block : ScriptBlock) (weights : Weights) : Found :=
  ⟨block.start + byteLength before, .ofEvidence (String.ofList (codeDescription s)) (String.ofList s.name) .codeBlock
    weights⟩

theorem mem_definitionsIn {weights : Weights} {block : ScriptBlock} {f : Found} :
    f ∈ definitionsIn weights block ↔ ∃ m ∈ allMatches codeDefinition block.body, isControlWord m.value.name = false ∧
      f = ⟨block.start + m.start, .ofEvidence (String.ofList (codeDescription m.value)) (String.ofList m.value.name)
        .codeBlock weights⟩ := by
  rw [definitionsIn, List.mem_map]
  refine exists_congr fun m => ?_
  rw [List.mem_filter, and_assoc, Bool.not_eq_true', eq_comm (a := f)]

private theorem mem_extract_of_mem_definitionsIn {text : List Char} {block : ScriptBlock}
    (h : block ∈ scriptBlocks text)
    {weights : Weights} {f : Found} (hf : f ∈ definitionsIn weights block) :
    f.specification ∈ extract (String.ofList text) weights := by
  have found : f ∈ foundByRules text weights := by
    refine List.mem_append_left _ (List.mem_append_right _ ?_)
    exact List.mem_flatMap.2 ⟨block, h, hf⟩
  rw [extract, String.toList_ofList]
  exact List.mem_map_of_mem ((sorted_perm _ _).mem_iff.2 found)

/-- A definition in a script block makes its specification, where it stands, exactly if its name is an identifier of
the rule and no definition that begins in front of it runs over into it. -/
theorem foundBehind_mem_iff {before after : List Char} {s : Signature} {block : ScriptBlock}
    (here : block.body = before ++ (s.text ++ after)) (closed : ')' ∉ s.parameters)
    (free : isControlWord s.name = false) (weights : Weights) :
    foundBehind before s block weights ∈ definitionsIn weights block ↔
      IsIdentifier s.name ∧ IsClear before block.body := by
  rw [mem_definitionsIn]
  constructor
  · rintro ⟨m, hm, -, e⟩
    obtain ⟨place, spec⟩ := Found.mk.inj e
    have start : m.start = byteLength before := (Nat.add_left_cancel place).symm
    have name : s.name = m.value.name := by
      simpa using congrArg String.toList (Option.some.inj (Specification.mk.inj spec).2.1)
    obtain ⟨_, found, rest, -, -, -, read, -⟩ := (isAt_of_mem_allMatches takes_codeDefinition hm).exists_split
    obtain ⟨_, definition, -⟩ := codeDefinition_eq_some read
    refine ⟨by rw [name]; exact definition.isIdentifier, fun m' hm' lt => ?_⟩
    rw [← start] at lt ⊢
    exact stop_le_of_start_lt takes_codeDefinition hm' hm lt
  · rintro ⟨named, clear⟩
    have hne : s.text ≠ [] := List.append_ne_nil_of_right_ne_nil _ (List.cons_ne_nil _ _)
    rw [here] at clear ⊢
    exact ⟨_, (mem_allMatches_iff takes_codeDefinition hne (codeDefinition_text named closed after)).2 clear, free, rfl⟩

/-- In a document with a block of script code, a definition in the block is found where it stands exactly if its name is
an identifier of the rule and no definition that begins in front of it runs over into it.  Then the document has its
specification; and nothing runs over into it where every parenthesis in front of it in the block is closed, with a
statement that ends behind it. -/
theorem definition_mem_iff {d : ScriptDocument} {before after : List Char} {s : Signature}
    (here : d.body = before ++ (s.text ++ after)) (closed : ')' ∉ s.parameters) (free : isControlWord s.name = false)
    (weights : Weights) :
    (foundBehind before s d.block weights ∈ definitionsIn weights d.block ↔
      IsIdentifier s.name ∧ IsClear before d.body) ∧
    (IsIdentifier s.name → IsClear before d.body →
      .ofEvidence (String.ofList (codeDescription s)) (String.ofList s.name) .codeBlock weights
        ∈ extract (String.ofList d.text) weights) ∧
    (IsIdentifier s.name → IsSettled before → IsClear before d.body) := by
  have found := @foundBehind_mem_iff before after s d.block here closed free weights
  refine ⟨found, fun named clear => ?_, fun named settled => ?_⟩
  · exact mem_extract_of_mem_definitionsIn d.block_mem_scriptBlocks (found.2 ⟨named, clear⟩)
  · rw [here]
    exact isClear_of_isSettled settled named

/-- A document that is a block of script code. -/
def fenced (body : List Char) (whole : IsWhole body) (noFence : fenceCount body = 0) : ScriptDocument where
  before := []
  opening := "```js\n".toList
  info := "js".toList
  body
  closing := "```\n".toList
  after := []
  before_whole := .inl rfl
  before_even := rfl
  opening_whole := .inr (by decide)
  lines_opening := by decide
  fenceInfo?_opening := by decide +kernel
  isScriptInfo_info := by decide +kernel
  body_whole := whole
  fenceCount_body := noFence
  lines_closing := by decide
  isFenceLine_closing := by decide +kernel

/-- A definition behind a call whose statement ends is found. -/
theorem definition_mem_indented :
    (fenced "run(1);\n  function load(path) \x7b\n  \x7d\n".toList (.inr (by decide)) (by decide +kernel)).body
        = "run(1);\n  ".toList ++ ((Signature.mk "load".toList "path".toList).text ++ "\n  \x7d\n".toList) ∧
      ')' ∉ "path".toList ∧ isControlWord "load".toList = false ∧
      .ofEvidence "load(path): Extracted from code block" "load" .codeBlock {}
        ∈ extract "```js\nrun(1);\n  function load(path) \x7b\n  \x7d\n```\n" {} := by
  have here : (fenced "run(1);\n  function load(path) \x7b\n  \x7d\n".toList (.inr (by decide))
      (by decide +kernel)).body
        = "run(1);\n  ".toList ++ ((Signature.mk "load".toList "path".toList).text ++ "\n  \x7d\n".toList) := by
    decide +kernel
  have closed : ')' ∉ "path".toList := by decide
  have free : isControlWord "load".toList = false := by decide +kernel
  obtain ⟨found_iff, found, -⟩ := definition_mem_iff here closed free {}
  obtain ⟨named, clear⟩ := found_iff.1 (by decide +kernel)
  exact ⟨here, closed, free, found named clear⟩

/-- A definition is missed behind a call without a semicolon, which takes its body. -/
theorem not_definition_mem_behind_call :
    ¬ ∀ (d : ScriptDocument) (before after : List Char) (s : Signature) (weights : Weights),
      d.body = before ++ (s.text ++ after) → IsWhole before → IsIdentifier s.name →
      (∀ c ∈ s.parameters, c ∉ ['(', ')', '\x7b', '\x7d', ';']) → isControlWord s.name = false →
      ∃ spec ∈ extract (String.ofList d.text) weights,
        spec.evidence = some .codeBlock ∧ spec.function = some (String.ofList s.name) := by
  intro allFound
  have named : IsIdentifier "bar".toList :=
    ⟨⟨'b', "ar".toList, by decide, by decide⟩, List.all_eq_true.1 (by decide +kernel)⟩
  obtain ⟨spec, found, -, name⟩ := allFound
    (fenced "foo()\nfunction bar() \x7b\n\x7d\n".toList (.inr (by decide)) (by decide +kernel))
    "foo()\n".toList "\n\x7d\n".toList ⟨"bar".toList, []⟩ {} (by decide +kernel) (.inr (by decide)) named (by simp)
    (by decide +kernel)
  have all : extract (String.ofList (fenced "foo()\nfunction bar() \x7b\n\x7d\n".toList (.inr (by decide))
      (by decide +kernel)).text) {} = [.ofEvidence "foo(): Extracted from code block" "foo" .codeBlock {}] := by
    decide +kernel
  rw [all, List.mem_singleton] at found
  rw [found] at name
  exact absurd name (by decide +kernel)

end SpecCoverage.Specifications
