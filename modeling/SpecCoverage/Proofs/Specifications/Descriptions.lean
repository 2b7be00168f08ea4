import SpecCoverage.Proofs.Documents.LineEnding
import SpecCoverage.Proofs.Specifications.Readings

/-!
# Descriptions

Descriptions are clean: they are not empty, stand in one line, and have no blanks at their ends (`IsClean`).  Those of the
first three rules begin with the name, and what follows it is made of trimmed lines (`lineFeed_not_mem_flowed`), of
parameters within a line, or of words.  The description of a mention is a part of a trimmed line, which goes from behind
the mark of the item to its end (`isDescription_item`).
-/

namespace SpecCoverage.Specifications

open Documents Text

/-- A text that is not empty, in one line, and without blanks at its ends. -/
structure IsClean (cs : List Char) : Prop where
  ne_nil : cs ≠ []
  oneLine : '\n' ∉ cs
  begins : ∀ c ∈ cs.head?, isBlank c = false
  ends : ∀ c ∈ cs.getLast?, isBlank c = false

/-- A description that is clean and holds a name. -/
structure IsDescription (description name : List Char) : Prop where
  clean : IsClean description
  name_ne_nil : name ≠ []
  occurs : name <:+: description

/-! ## One line -/

private theorem lineFeed_not_mem_trim {line cs : List Char} (h : line ∈ lines cs) : '\n' ∉ trim line := by
  have within : ∀ {c : Char}, c ∈ trim line → c ∈ line := by
    intro c hc
    obtain ⟨front, back, -, -, split⟩ := exists_append_trim line
    rw [split]
    exact List.mem_append_right _ (List.mem_append_left _ hc)
  rcases lineFeed_of_mem_lines h with none | ⟨front, none, rfl⟩
  · exact fun mem => none (within mem)
  · have feed : ∀ c ∈ ['\n'], isBlank c = true := List.all_eq_true.1 rfl
    rw [trim_append_blanks front feed]
    intro mem
    obtain ⟨before, back, -, -, split⟩ := exists_append_trim front
    rw [split] at none
    exact none (List.mem_append_right _ (List.mem_append_left _ mem))

theorem lineFeed_not_mem_flowed {ls : List (List Char)} {cs : List Char} (h : ∀ line ∈ ls, line ∈ lines cs) :
    '\n' ∉ flowed ls := by
  intro mem
  obtain ⟨piece, hpiece, mem⟩ := (mem_intercalate_iff (by decide)).1 mem
  obtain ⟨line, hline, rfl⟩ := List.mem_map.1 (List.mem_of_mem_filter hpiece)
  exact lineFeed_not_mem_trim (h line hline) mem

theorem lineFeed_not_mem_words_blockAt (text : List Char) (start : Nat) : '\n' ∉ (blockAt text start).words :=
  lineFeed_not_mem_flowed fun _ h => mem_lines_of_mem_blockLines h

private theorem lineFeed_not_mem_joined_words (cs : List Char) : '\n' ∉ joined [' '] (words cs) := by
  intro mem
  obtain ⟨word, hword, mem⟩ := (mem_intercalate_iff (by decide)).1 mem
  exact absurd (isBlank_of_mem_words hword _ mem) (by decide)

/-! ## Names with a text behind them -/

private theorem isBlank_of_isNameChar {c : Char} (h : isNameChar c = true) : isBlank c = false := by
  refine Bool.eq_false_iff.2 fun blank => ?_
  rw [eq_false_of_isBlank (p := isNameChar) (by decide +kernel) blank] at h
  cases h

section

variable {name : List Char}

private theorem lineFeed_not_mem_of_visible (visible : ∀ c ∈ name, isBlank c = false) : '\n' ∉ name :=
  fun mem => absurd (visible _ mem) (by decide)

private theorem isDescription_append (hne : name ≠ []) (visible : ∀ c ∈ name, isBlank c = false) {rest : List Char}
    (oneLine : '\n' ∉ rest) (ends : ∀ c ∈ (name ++ rest).getLast?, isBlank c = false) :
    IsDescription (name ++ rest) name where
  clean := {
    ne_nil := List.append_ne_nil_of_left_ne_nil hne rest
    oneLine := fun mem => (List.mem_append.1 mem).elim (lineFeed_not_mem_of_visible visible) oneLine
    begins := by
      rw [List.head?_append_of_ne_nil _ hne]
      exact fun c hc => visible c (List.mem_of_head? hc)
    ends }
  name_ne_nil := hne
  occurs := (List.prefix_append name rest).isInfix

/-- A name with a text in one line behind it, trimmed at the end. -/
private theorem isDescription_trimEnd (hne : name ≠ []) (visible : ∀ c ∈ name, isBlank c = false) {rest : List Char}
    (oneLine : '\n' ∉ rest) : IsDescription (trimEnd (name ++ rest)) name := by
  have split := trimEnd_append hne visible rest
  rw [split]
  refine isDescription_append hne visible (fun mem => oneLine ((trimEnd_isPrefix rest).subset mem)) ?_
  rw [← split]
  exact isBlank_of_mem_getLast?_trimEnd

private theorem isDescription_describedSignature {s : Signature} (call : s.IsCall) {words : List Char}
    (oneLine : '\n' ∉ words) :
    IsDescription (describedSignature s words) s.name := by
  have split : s.name ++ '(' :: s.parameters ++ "): ".toList ++ words
      = s.name ++ ('(' :: s.parameters ++ "): ".toList ++ words) := by simp
  rw [describedSignature, split]
  refine isDescription_trimEnd call.ne_nil (fun c hc => isBlank_of_isNameChar (call.named c hc)) ?_
  simp only [List.mem_append, List.mem_cons, not_or]
  exact ⟨⟨⟨by decide, fun mem => (call.closed _ mem).2 rfl⟩, by decide⟩, oneLine⟩

private theorem isDescription_describedName (hne : name ≠ []) (named : ∀ c ∈ name, isNameChar c = true)
    {words : List Char}
    (oneLine : '\n' ∉ words) : IsDescription (describedName name words) name := by
  rw [describedName, List.append_assoc]
  refine isDescription_trimEnd hne (fun c hc => isBlank_of_isNameChar (named c hc)) ?_
  rw [List.mem_append, not_or]
  exact ⟨by decide, oneLine⟩

private theorem isDescription_codeDescription {s : Signature} (named : IsIdentifier s.name) :
    IsDescription (codeDescription s) s.name := by
  have visible : ∀ c ∈ s.name, isBlank c = false := by
    refine fun c hc => Bool.eq_false_iff.2 fun blank => ?_
    have continues := named.continues c hc
    rw [continuesIdentifier_of_isBlank blank] at continues
    cases continues
  have split : codeDescription s
      = s.name ++ ('(' :: joined [' '] (words s.parameters) ++ "): Extracted from code block".toList) := by
    simp [codeDescription]
  rw [split]
  refine isDescription_append named.ne_nil visible ?_ ?_
  · simp only [List.mem_append, List.mem_cons, not_or]
    exact ⟨⟨by decide, lineFeed_not_mem_joined_words _⟩, by decide⟩
  · have last : "): Extracted from code block".toList.getLast? = some 'k' := by decide
    rw [← List.append_assoc, List.getLast?_append_of_ne_nil _ (by decide), last]
    rintro _ ⟨⟩
    decide

/-- The text of an item behind its mark. -/
theorem isDescription_item {line cs lead inner rest : List Char} {mark : Char} (h : line ∈ lines cs)
    (trimmed : trim line = mark :: (lead ++ (name ++ '(' :: (inner ++ ')' :: rest)))) (hne : name ≠ [])
    (visible : ∀ c ∈ name, isBlank c = false) :
    IsDescription (trimStart (lead ++ (name ++ '(' :: (inner ++ ')' :: rest)))) name := by
  obtain ⟨c, letters, rfl⟩ := List.exists_cons_of_ne_nil hne
  have kept : trimStart (lead ++ (c :: letters ++ '(' :: (inner ++ ')' :: rest)))
      = trimStart lead ++ (c :: letters ++ '(' :: (inner ++ ')' :: rest)) :=
    Functions.trimStart_append_cons lead (visible c List.mem_cons_self) _
  have tail : trimStart (lead ++ (c :: letters ++ '(' :: (inner ++ ')' :: rest))) <:+ trim line := by
    rw [trimmed]
    exact (List.dropWhile_suffix isBlank).trans (List.suffix_cons mark _)
  have visible' : trimStart (lead ++ (c :: letters ++ '(' :: (inner ++ ')' :: rest))) ≠ [] := by
    rw [kept]
    simp
  refine ⟨⟨visible', fun mem => lineFeed_not_mem_trim h (tail.subset mem), isBlank_of_mem_head?_trimStart, ?_⟩, by simp, ?_⟩
  · obtain ⟨front, split⟩ := tail
    intro d hd
    rw [← List.getLast?_append_of_ne_nil front visible', split] at hd
    exact isBlank_of_mem_getLast?_trimEnd d hd
  · rw [kept]
    exact ⟨trimStart lead, '(' :: (inner ++ ')' :: rest), by simp⟩

end

/-! ## The rules -/

/-- What a specification is that some evidence has made: it is mapped to a name in its clean description. -/
def IsDescribed (weights : Weights) (evidence : Evidence) (s : Specification) : Prop :=
  ∃ description name, IsDescription description name ∧
    s = .ofEvidence (String.ofList description) (String.ofList name) evidence weights

section

variable {text : List Char} {weights : Weights} {f : Found}

private theorem isDescribed_of_mem_callSignatures (h : f ∈ callSignatures text weights) :
    IsDescribed weights .callSignature f.specification := by
  obtain ⟨⟨m, block⟩, hm, rfl⟩ := List.mem_map.1 h
  obtain ⟨_, _, _, _, read⟩ := exists_of_mem_allMatches (mem_of_mem_describedMatches hm)
  obtain ⟨call, -⟩ := callSignature_eq_some read
  obtain rfl : block = blockAt text m.stop := block_of_mem_describedMatches hm
  exact ⟨_, _, isDescription_describedSignature call (lineFeed_not_mem_words_blockAt text m.stop), rfl⟩

private theorem isDescribed_of_mem_boldBullets (h : f ∈ boldBullets text weights) :
    IsDescribed weights .boldBullet f.specification := by
  obtain ⟨⟨m, block⟩, hm, rfl⟩ := List.mem_map.1 h
  obtain ⟨_, _, _, read, _⟩ := exists_line_of_mem_boldBulletMatches (mem_of_mem_describedMatches hm)
  obtain ⟨bullet, -⟩ := isBullet_of_boldBullet read
  obtain rfl : block = blockAt text m.stop := block_of_mem_describedMatches hm
  exact ⟨_, _, isDescription_describedName bullet.ne_nil bullet.named (lineFeed_not_mem_words_blockAt text m.stop), rfl⟩

private theorem isDescribed_of_mem_codeBlocks (h : f ∈ codeBlocks text weights) :
    IsDescribed weights .codeBlock f.specification := by
  obtain ⟨block, _, hf⟩ := List.mem_flatMap.1 h
  obtain ⟨m, hm, -, rfl⟩ := mem_definitionsIn.1 hf
  obtain ⟨_, _, _, _, read⟩ := exists_of_mem_allMatches hm
  obtain ⟨_, definition, -⟩ := codeDefinition_eq_some read
  exact ⟨_, _, isDescription_codeDescription definition.isIdentifier, rfl⟩

private theorem isDescribed_of_mem_sectionMentions (h : f ∈ sectionMentions text weights) :
    IsDescribed weights .sectionMention f.specification := by
  obtain ⟨line, listed⟩ := mem_of_mem_sectionMentionsFrom h
  obtain ⟨_, _, here⟩ := List.append_of_mem listed
  obtain ⟨-, item⟩ := (mem_sectionMentions_iff here).1 h
  obtain ⟨mark, lead, name, inner, rest, -, hne, named, -, -, trimmed, made⟩ := itemMention?_eq_some item
  have inText : line ∈ lines text := (exists_of_mem_positionedLines listed).1
  exact ⟨_, _, isDescription_item inText trimmed hne fun c hc => isBlank_of_isNameChar (named c hc), made⟩

/-- Every specification is mapped to a name in its clean description, with the weight of its rule up to the limit. -/
theorem isDescribed_of_mem_foundBy {evidence : Evidence} (h : f ∈ foundBy evidence text weights) :
    IsDescribed weights evidence f.specification := by
  cases evidence with
  | callSignature => exact isDescribed_of_mem_callSignatures h
  | boldBullet => exact isDescribed_of_mem_boldBullets h
  | codeBlock => exact isDescribed_of_mem_codeBlocks h
  | sectionMention => exact isDescribed_of_mem_sectionMentions h

end

end SpecCoverage.Specifications
