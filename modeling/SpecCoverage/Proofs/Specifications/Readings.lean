import SpecCoverage.Proofs.Functions.DocComment
import SpecCoverage.Proofs.Specifications.Definitions
import SpecCoverage.Proofs.Specifications.Marks
import SpecCoverage.Proofs.Specifications.Sections

/-!
# Names as they stand in the text

Each rule reads the name of a specification at a place of the text (`Reads`).  In front of the name stands the mark of
the rule, or a character with which the rule could not have begun the name earlier, since it takes the leftmost match.
So no identifier runs into the name from the left, except where identifiers have more characters than the names of the
rule: `load` is read in `éload()` (`reading_isBounded_iff`).

* (marks) an asterisk stands in front of a bold name (`HasForm.asterisk_of_boldBullet`);
* (script code) a character in front of a definition that could begin another one ends a third one, and definitions end
  with a brace (`beginsIdentifier_eq_false_of_standsIn`);
* (mentions) with a further character of its kind in front, a name would begin with it
  (`HasForm.last_of_sectionMention`).
-/

namespace SpecCoverage.Specifications

open Documents Functions Sorting Text

/-! ## Readings -/

/-- A name in a text: what stands in front of a match, what the match has in front of the name, and what follows the
name. -/
structure Reading where
  before : List Char
  lead : List Char
  name : List Char
  after : List Char

namespace Reading

def text (r : Reading) : List Char := r.before ++ (r.lead ++ (r.name ++ r.after))

/-- The character directly in front of the name. -/
def last? (r : Reading) : Option Char := (r.before ++ r.lead).getLast?

/-- The name does not continue an identifier. -/
def IsBounded (r : Reading) : Prop := ∀ c ∈ r.last?, isIdentifierChar c = false

end Reading

/-- What a match of a rule has in front of a name, the name, and how the text goes on. -/
inductive HasForm : Evidence → List Char → List Char → List Char → Prop
  | callSignature {s : Signature} (call : s.IsCall) (rest : List Char) :
      HasForm .callSignature "**".toList s.name ('(' :: (s.parameters ++ ")**".toList ++ rest))
  | boldBullet {indent blanks name : List Char} (hindent : ∀ c ∈ indent, c = ' ' ∨ c = '\t')
      (hblanks : ∀ c ∈ blanks, c = ' ' ∨ c = '\t') (named : ∀ c ∈ name, isNameChar c = true) (rest : List Char) :
      HasForm .boldBullet (indent ++ '-' :: (blanks ++ "**".toList)) name ("**".toList ++ rest)
  | codeBlock {lead blanks between : List Char} {s : Signature} (isLead : IsLead lead) (named : IsIdentifier s.name)
      (blank : ∀ c ∈ blanks, isBlank c = true) (closed : ')' ∉ s.parameters)
      (within : ∀ c ∈ between, isWithinStatement c = true) (rest : List Char) :
      HasForm .codeBlock lead s.name (blanks ++ '(' :: (s.parameters ++ ')' :: (between ++ '\x7b' :: rest)))
  | sectionMention {blanks lead name inner rest : List Char} {mark : Char} (blank : ∀ c ∈ blanks, isBlank c = true)
      (item : mark = '-' ∨ mark = '*') (named : ∀ c ∈ name, isNameChar c = true) (closed : ')' ∉ inner)
      (first : ∀ b, b ≠ [] → b <:+ mark :: lead → mention (b ++ (name ++ '(' :: (inner ++ ')' :: rest))) = none)
      (back : List Char) :
      HasForm .sectionMention (blanks ++ mark :: lead) name ('(' :: (inner ++ ')' :: rest ++ back))

/-- The place in a text where a rule has read the name of what it has found. -/
structure Reads (text : List Char) (evidence : Evidence) (f : Found) (r : Reading) : Prop where
  text_eq : text = r.text
  position_eq : f.position = byteLength r.before
  function_eq : f.specification.function = some (String.ofList r.name)
  hasForm : HasForm evidence r.lead r.name r.after

/-- A character of identifiers with which no name of a rule begins, for the rules without a mark directly in front of the
name. -/
def isStray : Evidence → Char → Bool
  | .codeBlock, c => isIdentifierChar c && !beginsIdentifier c
  | .sectionMention, c => isIdentifierChar c && !isNameChar c
  | .callSignature, _ => false
  | .boldBullet, _ => false

/-! ## What stands in front of a name -/

section

variable {lead name after : List Char}

private theorem HasForm.asterisk_of_callSignature (h : HasForm .callSignature lead name after) :
    lead.getLast? = some '*' := by
  cases h with
  | callSignature => rfl

theorem HasForm.asterisk_of_boldBullet (h : HasForm .boldBullet lead name after) : lead.getLast? = some '*' := by
  cases h with
  | @boldBullet indent blanks =>
    have split : indent ++ '-' :: (blanks ++ "**".toList) = indent ++ '-' :: (blanks ++ ['*']) ++ ['*'] := by simp
    exact split ▸ List.getLast?_concat

theorem HasForm.isLead (h : HasForm .codeBlock lead name after) :
    IsLead lead ∧ ∀ c ∈ after.head?, continuesIdentifier c = false := by
  cases h with
  | codeBlock isLead _ blank => exact ⟨isLead, continuesIdentifier_of_mem_head? blank _⟩

/-- With a further character of its kind in front, the name would begin with that. -/
theorem HasForm.last_of_sectionMention (h : HasForm .sectionMention lead name after) :
    ∃ c, lead.getLast? = some c ∧ isNameChar c = false := by
  cases h with
  | @sectionMention blanks lead _ inner rest mark _ _ named closed first =>
    have last := List.getLast?_eq_some_getLast (List.cons_ne_nil mark lead)
    generalize (mark :: lead).getLast (List.cons_ne_nil mark lead) = c at last
    refine ⟨c, by rw [List.getLast?_append_cons, last], Bool.eq_false_iff.2 fun isName => ?_⟩
    obtain ⟨front, split⟩ := List.getLast?_eq_some_iff.1 last
    have longer : ∀ d ∈ c :: name, isNameChar d = true := List.forall_mem_cons.2 ⟨isName, named⟩
    have none := first [c] (by simp) (split ▸ List.suffix_append front [c])
    rw [List.singleton_append, ← List.cons_append, mention_append (by simp) longer closed] at none
    cases none

end

section

variable {evidence : Evidence} {text : List Char} {weights : Weights} {f : Found} {r : Reading}

/-! ## Bold names -/

private theorem exists_reads_of_mem_callSignatures (h : f ∈ callSignatures text weights) :
    ∃ r, Reads text .callSignature f r := by
  obtain ⟨⟨m, block⟩, hm, rfl⟩ := List.mem_map.1 h
  obtain ⟨call, front, colon, rest, split, -, hstart, -⟩ := exists_mark_of_mem_allMatches (mem_of_mem_describedMatches hm)
  exact ⟨⟨front, "**".toList, m.value.name, _⟩, by simp [split, Reading.text, Signature.mark], hstart, rfl,
    .callSignature call (colon ++ rest)⟩

private theorem exists_reads_of_mem_boldBullets (h : f ∈ boldBullets text weights) :
    ∃ r, Reads text .boldBullet f r := by
  obtain ⟨⟨m, block⟩, hm, rfl⟩ := List.mem_map.1 h
  obtain ⟨line, _, here, read, -⟩ := exists_line_of_mem_boldBulletMatches (mem_of_mem_describedMatches hm)
  obtain ⟨-, front, back, split, hstart⟩ := exists_of_mem_positionedLines here
  have bullet := (isBullet_of_boldBullet read).1
  obtain ⟨indent, blanks, rest, hindent, hblanks, rfl⟩ := bullet.exists_split
  exact ⟨⟨front, indent ++ '-' :: (blanks ++ "**".toList), m.value, _⟩, by simp [split, Reading.text], hstart, rfl,
    .boldBullet hindent hblanks bullet.named (rest ++ back)⟩

/-! ## Definitions in script code -/

/-- The place of a definition in the body of a script block, which stands behind whole lines of a text. -/
structure Found.StandsIn (text : List Char) (f : Found) (m : Match Signature) (front inner found rest back : List Char) :
    Prop where
  text_eq : text = front ++ (inner ++ (found ++ rest) ++ back)
  whole : IsWhole front
  mem : m ∈ allMatches codeDefinition (inner ++ (found ++ rest))
  start_eq : m.start = byteLength inner
  definition : IsDefinition found m.value
  free : isControlWord m.value.name = false
  position_eq : f.position = byteLength (front ++ inner)
  function_eq : f.specification.function = some (String.ofList m.value.name)

private theorem exists_standsIn_of_mem_codeBlocks (h : f ∈ codeBlocks text weights) :
    ∃ m front inner found rest back, f.StandsIn text m front inner found rest back := by
  obtain ⟨⟨start, body⟩, hblock, hf⟩ := List.mem_flatMap.1 h
  obtain ⟨m, hm, free, rfl⟩ := mem_definitionsIn.1 hf
  obtain ⟨front, back, split, whole, hfront⟩ := exists_split_of_mem_scriptBlocks hblock
  obtain ⟨inner, found, rest, rfl, -, -, read, hinner, -⟩ :=
    (isAt_of_mem_allMatches takes_codeDefinition hm).exists_split
  obtain ⟨_, definition, e⟩ := codeDefinition_eq_some read
  obtain rfl := List.append_cancel_right e
  rw [Nat.zero_add] at hinner
  refine ⟨m, front, inner, found, rest, back, split, whole, hm, hinner, definition, free, ?_, rfl⟩
  rw [byteLength_append, ← hinner]
  exact congrArg (· + m.start) hfront

private theorem exists_reads_of_mem_codeBlocks (h : f ∈ codeBlocks text weights) : ∃ r, Reads text .codeBlock f r := by
  obtain ⟨m, front, inner, found, rest, back, place⟩ := exists_standsIn_of_mem_codeBlocks h
  obtain ⟨named, closed, lead, blanks, between, isLead, blank, within, rfl⟩ := place.definition
  exact ⟨⟨front ++ inner, lead, m.value.name, _⟩, by simp [place.text_eq, Reading.text], place.position_eq,
    place.function_eq, .codeBlock isLead named blank closed within (rest ++ back)⟩

/-- A definition whose name stands at its start is not the keyword with the name behind it. -/
private theorem exists_split_of_name_append {found rest after : List Char} {s : Signature}
    (definition : IsDefinition found s)
    (free : isControlWord s.name = false) (h : found ++ rest = s.name ++ after)
    (stop : ∀ c ∈ after.head?, continuesIdentifier c = false) :
    ∃ blanks between, (∀ c ∈ blanks, isBlank c = true) ∧ (∀ c ∈ between, isWithinStatement c = true) ∧
      found = s.name ++ (blanks ++ '(' :: (s.parameters ++ ')' :: (between ++ ['\x7b']))) := by
  obtain ⟨lead, blanks, between, isLead, blank, within, rfl⟩ := definition.exists_split
  rcases isLead with rfl | ⟨spaces, hne, hall, rfl⟩
  · exact ⟨blanks, between, blank, within, rfl⟩
  · obtain ⟨space, spaces, rfl⟩ := List.exists_cons_of_ne_nil hne
    have ends := continuesIdentifier_of_isBlank (hall space List.mem_cons_self)
    have read := identifier_append_of_head? definition.isIdentifier stop
    rw [← h, List.append_assoc, List.append_assoc,
      identifier_append_of_head? isIdentifier_function (by simpa using ends)] at read
    have keyword : "function".toList = s.name := (Prod.mk.inj (Option.some.inj read)).1
    rw [← keyword] at free
    exact absurd free (by decide)

/-- In front of a definition that begins with its name stands no character that could begin the name. -/
theorem beginsIdentifier_eq_false_of_standsIn {m : Match Signature} {front inner found rest back after : List Char}
    {c : Char} (place : f.StandsIn text m front (inner ++ [c]) found rest back)
    (h : found ++ (rest ++ back) = m.value.name ++ after) (stop : ∀ d ∈ after.head?, continuesIdentifier d = false) :
    beginsIdentifier c = false := by
  refine Bool.eq_false_iff.2 fun begins => ?_
  obtain ⟨blanks, between, blank, within, rfl⟩ := exists_split_of_name_append place.definition place.free h stop
  have longer : IsIdentifier (c :: m.value.name) := by
    refine ⟨⟨c, _, rfl, begins⟩, fun d hd => ?_⟩
    rcases List.mem_cons.1 hd with rfl | hd
    · exact continuesIdentifier_of_beginsIdentifier begins
    · exact place.definition.isIdentifier.continues d hd
  have read := @isSome_codeDefinition_append ⟨c :: m.value.name, m.value.parameters⟩ longer place.definition.closed
    blanks between blank within rest
  have mem := place.mem
  rw [List.append_assoc, List.singleton_append] at mem
  obtain ⟨before, earlier, value, split, read'⟩ :=
    exists_append_of_isSome takes_codeDefinition mem place.start_eq (by simpa using read)
  -- the definition in front would end with the character
  obtain ⟨_, definition, e⟩ := codeDefinition_eq_some read'
  obtain rfl := List.append_cancel_right e
  have last := congrArg List.getLast? split
  rw [List.getLast?_concat, List.getLast?_append, definition.getLast?_eq, Option.some_or, Option.some.injEq] at last
  subst last
  exact absurd begins (by decide)

private theorem isIdentifierChar_eq_false_of_isWhole {front : List Char} (whole : IsWhole front) :
    ∀ c ∈ front.getLast?, isIdentifierChar c = false := by
  intro c hc
  rcases whole with rfl | last
  · cases hc
  · rw [last] at hc
    cases hc
    exact isIdentifierChar_of_isBlank (by decide)

/-- In front of a definition stands an identifier character only if no name begins with it. -/
private theorem isIdentifierChar_eq_of_reads_codeBlock (h : f ∈ codeBlocks text weights)
    (reads : Reads text .codeBlock f r) :
    ∀ c ∈ r.last?, isIdentifierChar c = isStray .codeBlock c := by
  obtain ⟨m, front, inner, found, rest, back, place⟩ := exists_standsIn_of_mem_codeBlocks h
  obtain ⟨isLead, stop⟩ := reads.hasForm.isLead
  have same : m.value.name = r.name := by
    have function_eq := reads.function_eq
    rw [place.function_eq] at function_eq
    exact String.ofList_injective (Option.some.inj function_eq)
  have split : front ++ inner ++ (found ++ (rest ++ back)) = r.before ++ (r.lead ++ (r.name ++ r.after)) := by
    have text_eq := reads.text_eq
    rw [place.text_eq, Reading.text] at text_eq
    rw [← text_eq]
    simp
  obtain ⟨before_eq, behind⟩ := append_inj_of_byteLength split (place.position_eq.symm.trans reads.position_eq)
  intro c hc
  rw [Reading.last?, ← before_eq] at hc
  rcases isLead with none | ⟨spaces, hne, hall, lead_eq⟩
  · -- the definition begins with its name
    rw [none, List.nil_append, ← same] at behind
    rw [none, List.append_nil] at hc
    by_cases hne : inner = []
    · rw [hne, List.append_nil] at hc
      simp [isStray, isIdentifierChar_eq_false_of_isWhole place.whole c hc]
    · rw [List.getLast?_append_of_ne_nil _ hne] at hc
      obtain ⟨inner, rfl⟩ := List.getLast?_eq_some_iff.1 hc
      simp [isStray, beginsIdentifier_eq_false_of_standsIn place behind stop]
  · -- blanks stand in front of the name
    rw [lead_eq, ← List.append_assoc, List.getLast?_append_of_ne_nil _ hne] at hc
    simp [isStray, isIdentifierChar_of_isBlank (hall c (List.mem_of_getLast? hc))]

/-! ## Mentions -/

/-- An item is read as its first mention of a call, which stands behind the mark of the item. -/
theorem itemMention?_eq_some {trimmed : List Char} {s : Specification} (h : itemMention? weights trimmed = some s) :
    ∃ mark lead name inner rest, (mark = '-' ∨ mark = '*') ∧ name ≠ [] ∧ (∀ c ∈ name, isNameChar c = true) ∧
      ')' ∉ inner ∧
      (∀ b, b ≠ [] → b <:+ mark :: lead → mention (b ++ (name ++ '(' :: (inner ++ ')' :: rest))) = none) ∧
      trimmed = mark :: (lead ++ (name ++ '(' :: (inner ++ ')' :: rest))) ∧
      s = .ofEvidence (String.ofList (trimStart (lead ++ (name ++ '(' :: (inner ++ ')' :: rest)))))
        (String.ofList name) .sectionMention weights := by
  unfold itemMention? at h
  split at h
  · next mark cs =>
    rw [Option.ite_none_right_eq_some] at h
    obtain ⟨isItem, h⟩ := h
    have isItem : mark = '-' ∨ mark = '*' := by simpa using isItem
    obtain ⟨name, found, rfl⟩ := Option.map_eq_some_iff.1 h
    obtain ⟨front, tail, rest, split, read, first⟩ := exists_of_firstMatch? found
    obtain ⟨hne, named, inner, closed, rfl⟩ := mention_eq_some read
    cases front with
    | nil =>
      -- the mark begins no name
      obtain ⟨c, name, rfl⟩ := List.exists_cons_of_ne_nil hne
      obtain ⟨rfl, -⟩ := List.cons_eq_cons.1 split
      have isName := named mark List.mem_cons_self
      rcases isItem with rfl | rfl <;> exact absurd isName (by decide)
    | cons c lead =>
      obtain ⟨rfl, rfl⟩ := List.cons_eq_cons.1 split
      exact ⟨mark, lead, name, inner, rest, isItem, hne, named, closed, first, rfl, rfl⟩
  · cases h

private theorem exists_reads_of_mem_sectionMentions (h : f ∈ sectionMentions text weights) :
    ∃ r, Reads text .sectionMention f r := by
  obtain ⟨line, listed⟩ := mem_of_mem_sectionMentionsFrom h
  obtain ⟨_, _, here⟩ := List.append_of_mem listed
  obtain ⟨-, item⟩ := (mem_sectionMentions_iff here).1 h
  obtain ⟨mark, lead, name, inner, rest, isItem, -, named, closed, first, trimmed, made⟩ := itemMention?_eq_some item
  obtain ⟨-, front, back, split, position_eq⟩ := exists_of_mem_positionedLines listed
  obtain ⟨blanks, blanks', blank, -, line_eq⟩ := exists_append_trim line
  rw [trimmed] at line_eq
  exact ⟨⟨front, blanks ++ mark :: lead, name, _⟩, by simp [split, line_eq, Reading.text], position_eq, by rw [made]; rfl,
    .sectionMention blank isItem named closed first (blanks' ++ back)⟩

private theorem isIdentifierChar_eq_of_reads (h : f ∈ foundBy evidence text weights) (reads : Reads text evidence f r) :
    ∀ c ∈ r.last?, isIdentifierChar c = isStray evidence c := by
  have asterisk : isIdentifierChar '*' = false := by decide
  cases evidence with
  | callSignature =>
    have last := reads.hasForm.asterisk_of_callSignature
    simp [Reading.last?, List.getLast?_append, last, asterisk, isStray]
  | boldBullet =>
    have last := reads.hasForm.asterisk_of_boldBullet
    simp [Reading.last?, List.getLast?_append, last, asterisk, isStray]
  | codeBlock => exact isIdentifierChar_eq_of_reads_codeBlock h reads
  | sectionMention =>
    obtain ⟨c, last, notName⟩ := reads.hasForm.last_of_sectionMention
    simp [Reading.last?, List.getLast?_append, last, notName, isStray]

end

/-- A specification names the function whose name its rule has read at a place of the text.  That name continues an
identifier exactly if a character of identifiers stands in front of it with which no name of the rule begins: a bold name
never does, and of the others none in a text without such characters. -/
theorem reading_isBounded_iff (text : String) (weights : Weights) :
    (∀ s, s ∈ extract text weights ↔ ∃ evidence, ∃ f ∈ foundBy evidence text.toList weights, f.specification = s) ∧
    ∀ evidence, ∀ f ∈ foundBy evidence text.toList weights,
      f.specification.evidence = some evidence ∧ (∃ r, Reads text.toList evidence f r) ∧
      ∀ r, Reads text.toList evidence f r → (r.IsBounded ↔ ∀ c ∈ r.last?, isStray evidence c = false) := by
  refine ⟨fun s => mem_extract_iff, fun evidence f hf => ⟨evidence_of_mem_foundBy hf, ?_, fun r reads => ?_⟩⟩
  · cases evidence with
    | callSignature => exact exists_reads_of_mem_callSignatures hf
    | boldBullet => exact exists_reads_of_mem_boldBullets hf
    | codeBlock => exact exists_reads_of_mem_codeBlocks hf
    | sectionMention => exact exists_reads_of_mem_sectionMentions hf
  · have same := isIdentifierChar_eq_of_reads hf reads
    exact forall₂_congr fun c hc => by rw [same c hc]

/-- The name of a definition behind the keyword. -/
theorem reading_isBounded_load :
    (⟨6, .ofEvidence "load(path): Extracted from code block" "load" .codeBlock {}⟩ : Found)
        ∈ foundBy .codeBlock "```js\nfunction load(path) \x7b\n\x7d\n```\n".toList {} ∧
      ∃ r, Reads "```js\nfunction load(path) \x7b\n\x7d\n```\n".toList .codeBlock
          ⟨6, .ofEvidence "load(path): Extracted from code block" "load" .codeBlock {}⟩ r ∧
        r.last? = some ' ' ∧ r.IsBounded := by
  have found : (⟨6, .ofEvidence "load(path): Extracted from code block" "load" .codeBlock {}⟩ : Found)
      ∈ foundBy .codeBlock "```js\nfunction load(path) \x7b\n\x7d\n```\n".toList {} := by decide +kernel
  have named : IsIdentifier "load".toList :=
    ⟨⟨'l', "oad".toList, by decide, by decide⟩, List.all_eq_true.1 (by decide +kernel)⟩
  have form : HasForm .codeBlock "function ".toList "load".toList "(path) \x7b\n\x7d\n```\n".toList :=
    @HasForm.codeBlock "function ".toList [] [' '] ⟨"load".toList, "path".toList⟩
      (.inr ⟨[' '], by simp, List.forall_mem_singleton.2 rfl, rfl⟩) named (by simp) (by decide)
      (List.forall_mem_singleton.2 rfl) "\n\x7d\n```\n".toList
  have reads : Reads "```js\nfunction load(path) \x7b\n\x7d\n```\n".toList .codeBlock
      ⟨6, .ofEvidence "load(path): Extracted from code block" "load" .codeBlock {}⟩
      ⟨"```js\n".toList, "function ".toList, "load".toList, "(path) \x7b\n\x7d\n```\n".toList⟩ :=
    ⟨by decide +kernel, by decide +kernel, by decide +kernel, form⟩
  obtain ⟨-, rules⟩ := reading_isBounded_iff "```js\nfunction load(path) \x7b\n\x7d\n```\n" {}
  obtain ⟨-, -, bounded⟩ := rules .codeBlock _ found
  have last : Reading.last? ⟨"```js\n".toList, "function ".toList, "load".toList, "(path) \x7b\n\x7d\n```\n".toList⟩
      = some ' ' := by decide +kernel
  refine ⟨found, _, reads, last, (bounded _ reads).2 ?_⟩
  rw [last]
  rintro c ⟨⟩
  decide +kernel

/-- The end of a longer name is read in script code and in a mention. -/
theorem not_isBounded_accented :
    extract "```js\néload(path) \x7b\n\x7d\n```\n" {}
        = [.ofEvidence "load(path): Extracted from code block" "load" .codeBlock {}] ∧
      extract "## Features\n- éload() reads\n" {} = [.ofEvidence "éload() reads" "load" .sectionMention {}] ∧
      ¬ ∀ (text : String) (weights : Weights) evidence, ∀ f ∈ foundBy evidence text.toList weights,
        ∀ r, Reads text.toList evidence f r → r.IsBounded := by
  refine ⟨by decide +kernel, by decide +kernel, fun allBounded => ?_⟩
  have first : ∀ b ∈ "- é".toList.tails, b ≠ [] → mention (b ++ "load() reads".toList) = none := by decide +kernel
  have form : HasForm .sectionMention "- é".toList "load".toList "() reads\n".toList :=
    @HasForm.sectionMention [] " é".toList "load".toList [] " reads".toList '-' (by simp) (.inl rfl)
      (List.all_eq_true.1 (by decide)) (by simp) (fun b hne suffix => first b ((List.mem_tails _ _).2 suffix) hne) ['\n']
  have reads : Reads "## Features\n- éload() reads\n".toList .sectionMention
      ⟨12, .ofEvidence "éload() reads" "load" .sectionMention {}⟩
      ⟨"## Features\n".toList, "- é".toList, "load".toList, "() reads\n".toList⟩ :=
    ⟨by decide +kernel, by decide +kernel, by decide +kernel, form⟩
  have bounded := allBounded "## Features\n- éload() reads\n" {} .sectionMention _ (by decide +kernel) _ reads
  exact absurd (bounded 'é' (by decide +kernel)) (by decide +kernel)

end SpecCoverage.Specifications
