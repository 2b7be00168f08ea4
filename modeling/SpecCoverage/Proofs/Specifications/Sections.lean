import SpecCoverage.Proofs.Specifications.Rules

/-!
# Sections of requirements and features

Whether an item counts depends on the nearest heading in front of it, of those that the rule for mentions sees: the ones
of level two or deeper (`mem_sectionMentions_iff`).  A heading of level one ends no section, so that the items behind it
still count if they did in front of it (`sectionMention_iff`).

* (headings) the flag that goes from line to line says what the nearest heading says (`sectionMentionsFrom_append`);
* (items) a list item makes a specification exactly if it mentions a call (`isSome_itemMention?_iff`);
* (places) each line makes one specification at most, and they stand in the order of the lines
  (`pairwise_sectionMentions`).
-/

namespace SpecCoverage.Specifications

open Text

/-! ## Headings -/

/-- The number signs that a line begins with, behind blanks. -/
def headingLevel (line : List Char) : Nat := ((trim line).takeWhile (· = '#')).length

/-- What stands behind the number signs. -/
def headingTitle (line : List Char) : List Char := trimStart ((trim line).dropWhile (· = '#'))

/-- A title of requirements or features. -/
def IsCounted (line : List Char) : Prop :=
  "Requirements".toList <+: headingTitle line ∨ "Features".toList <+: headingTitle line

/-- The nearest line in front that is a heading of some level at least. -/
def nearestHeading? (level : Nat) (before : List (List Char)) : Option (List Char) :=
  before.reverse.find? fun line => level ≤ headingLevel line

private theorem isHeading_iff {line : List Char} : isHeading (trim line) = true ↔ 2 ≤ headingLevel line := by
  unfold isHeading headingLevel
  match trim line with
  | [] => simp
  | [c] => by_cases hc : c = '#' <;> simp [hc]
  | c :: d :: cs =>
    by_cases hc : c = '#'
    · by_cases hd : d = '#'
      · simp [hc, hd]
      · simp [hc, hd, Ne.symm hd]
    · simp [hc, Ne.symm hc]

private theorem opensSection_iff {line : List Char} : opensSection (trim line) = true ↔ IsCounted line := by
  simp only [opensSection, Bool.or_eq_true, List.isPrefixOf_iff_prefix]
  rfl

/-- Whether mentions count behind some lines. -/
def countsBehind (inSection : Bool) (before : List (List Char)) : Bool :=
  match nearestHeading? 2 before with
  | some heading => opensSection (trim heading)
  | none => inSection

private theorem countsBehind_cons (inSection : Bool) (line : List Char) (rest : List (List Char)) :
    countsBehind inSection (line :: rest)
      = countsBehind (if isHeading (trim line) then opensSection (trim line) else inSection) rest := by
  have nearest : nearestHeading? 2 (line :: rest)
      = (nearestHeading? 2 rest).or (if isHeading (trim line) then some line else none) := by
    simp only [nearestHeading?, List.reverse_cons, List.find?_append, List.find?_singleton, isHeading_iff, decide_eq_true_eq]
  unfold countsBehind
  rw [nearest]
  cases nearestHeading? 2 rest with
  | some heading => rfl
  | none => by_cases h : isHeading (trim line) = true <;> simp [h]

private theorem countsBehind_false_iff {before : List (List Char)} :
    countsBehind false before = true ↔ ∃ heading, nearestHeading? 2 before = some heading ∧ IsCounted heading := by
  unfold countsBehind
  cases nearestHeading? 2 before with
  | none => simp
  | some heading => simp [opensSection_iff]

/-! ## Items -/

/-- A list item. -/
def IsItem (line : List Char) : Prop := ∃ c cs, trim line = c :: cs ∧ (c = '-' ∨ c = '*')

/-- A text with `name(...)` in it. -/
def MentionsCall (cs : List Char) : Prop :=
  ∃ front name inner back, name ≠ [] ∧ (∀ c ∈ name, isNameChar c = true) ∧ ')' ∉ inner ∧
    cs = front ++ (name ++ '(' :: (inner ++ ')' :: back))

private theorem isSome_firstMatch?_append {α : Type} {pattern : Pattern α} {cs : List Char} (hne : cs ≠ [])
    (h : (pattern cs).isSome = true) (front : List Char) : (firstMatch? pattern (front ++ cs)).isSome = true := by
  induction front with
  | nil =>
    obtain ⟨c, cs, rfl⟩ := List.exists_cons_of_ne_nil hne
    obtain ⟨⟨value, rest⟩, read⟩ := Option.isSome_iff_exists.1 h
    rw [List.nil_append, firstMatch?, read]
    rfl
  | cons c front ih =>
    rw [List.cons_append, firstMatch?]
    split
    · rfl
    · exact ih

private theorem isSome_firstMatch?_mention_iff {cs : List Char} :
    (firstMatch? mention cs).isSome = true ↔ MentionsCall cs := by
  constructor
  · intro h
    obtain ⟨name, found⟩ := Option.isSome_iff_exists.1 h
    obtain ⟨front, tail, rest, rfl, read, -⟩ := exists_of_firstMatch? found
    obtain ⟨hne, named, inner, closed, rfl⟩ := mention_eq_some read
    exact ⟨front, name, inner, rest, hne, named, closed, rfl⟩
  · rintro ⟨front, name, inner, back, hne, named, closed, rfl⟩
    exact isSome_firstMatch?_append (by simp) (by rw [mention_append hne named closed]; rfl) front

theorem isSome_itemMention?_iff {weights : Weights} {line : List Char} :
    (itemMention? weights (trim line)).isSome = true ↔ IsItem line ∧ MentionsCall (trim line) := by
  unfold itemMention? IsItem
  split
  · next c cs h =>
    split
    · next mark =>
      rw [Option.isSome_map, isSome_firstMatch?_mention_iff]
      exact (and_iff_right ⟨c, cs, h, by simpa using mark⟩).symm
    · next noMark =>
      refine iff_of_false Bool.false_ne_true ?_
      rintro ⟨⟨d, ds, h', mark⟩, -⟩
      obtain ⟨rfl, -⟩ := List.cons_eq_cons.1 (h.symm.trans h')
      exact noMark (by simpa using mark)
  · next h =>
    refine iff_of_false Bool.false_ne_true ?_
    rintro ⟨⟨d, ds, h', -⟩, -⟩
    rw [h] at h'
    cases h'

/-- A list item is no heading. -/
private theorem not_isHeading_of_itemMention? {weights : Weights} {trimmed : List Char} {s : Specification}
    (h : itemMention? weights trimmed = some s) : isHeading trimmed = false := by
  unfold itemMention? at h
  split at h
  · next c cs =>
    split at h
    · next mark =>
      have differs : c ≠ '#' := by
        rintro rfl
        exact absurd mark (by decide)
      simp [isHeading, List.isPrefixOf, Ne.symm differs]
    · cases h
  · cases h

/-! ## From line to line -/

theorem sectionMentionsFrom_append (weights : Weights) (inSection : Bool) (ls rest : List (Nat × List Char)) :
    sectionMentionsFrom weights inSection (ls ++ rest)
      = sectionMentionsFrom weights inSection ls
        ++ sectionMentionsFrom weights (countsBehind inSection (ls.map Prod.snd)) rest := by
  induction ls generalizing inSection with
  | nil => rfl
  | cons first others ih =>
    obtain ⟨position, line⟩ := first
    simp only [List.cons_append, List.map_cons, sectionMentionsFrom, countsBehind_cons, ih]
    split
    · rfl
    · rw [List.append_assoc]

theorem mem_of_mem_sectionMentionsFrom {weights : Weights} {inSection : Bool} {ls : List (Nat × List Char)}
    {f : Found} (h : f ∈ sectionMentionsFrom weights inSection ls) : ∃ line, (f.position, line) ∈ ls := by
  induction ls generalizing inSection with
  | nil => simp [sectionMentionsFrom] at h
  | cons first rest ih =>
    have behind : ∀ {inSection : Bool}, f ∈ sectionMentionsFrom weights inSection rest →
        ∃ line, (f.position, line) ∈ first :: rest :=
      fun h => (ih h).imp fun _ => List.mem_cons_of_mem _
    obtain ⟨position, line⟩ := first
    simp only [sectionMentionsFrom] at h
    split at h
    · exact behind h
    · rcases List.mem_append.1 h with h | h
      · split at h
        · obtain ⟨s, -, rfl⟩ := Option.map_eq_some_iff.1 (Option.mem_toList.1 h)
          exact ⟨line, List.mem_cons_self⟩
        · cases h
      · exact behind h

/-- A line makes one specification at most, in front of those of the lines behind it. -/
private theorem pairwise_sectionMentionsFrom (weights : Weights) (inSection : Bool) {ls : List (Nat × List Char)}
    (ordered : ls.Pairwise fun l l' => l.1 < l'.1) :
    (sectionMentionsFrom weights inSection ls).Pairwise fun f g => f.position < g.position := by
  induction ls generalizing inSection with
  | nil => exact .nil
  | cons first rest ih =>
    obtain ⟨position, line⟩ := first
    obtain ⟨before, behind⟩ := List.pairwise_cons.1 ordered
    simp only [sectionMentionsFrom]
    split
    · exact ih _ behind
    · have alone : ∀ found : Option Found, found.toList.Pairwise fun f g => f.position < g.position := by
        rintro (_ | f) <;> simp
      refine List.pairwise_append.2 ⟨alone _, ih _ behind, ?_⟩
      intro f hf g hg
      obtain ⟨line', later⟩ := mem_of_mem_sectionMentionsFrom hg
      split at hf
      · obtain ⟨s, -, rfl⟩ := Option.map_eq_some_iff.1 (Option.mem_toList.1 hf)
        exact before _ later
      · cases hf

theorem pairwise_sectionMentions (text : List Char) (weights : Weights) :
    (sectionMentions text weights).Pairwise fun f g => f.position < g.position :=
  pairwise_sectionMentionsFrom weights false (pairwise_positionedLines text)

private theorem filter_extract_sectionMention (text : String) (weights : Weights) :
    ((extract text weights).filter fun s => s.evidence = some .sectionMention)
      = (sectionMentions text.toList weights).map Found.specification :=
  filter_extract_of_pairwise (pairwise_sectionMentions text.toList weights)

/-! ## Lines that mention a call -/

section

variable {text : List Char} {weights : Weights} {position : Nat} {line : List Char} {before after : List (Nat × List Char)}
variable (here : positionedLines text = before ++ (position, line) :: after)
include here

theorem mem_sectionMentions_iff {s : Specification} :
    ⟨position, s⟩ ∈ sectionMentions text weights ↔
      countsBehind false (before.map Prod.snd) = true ∧ itemMention? weights (trim line) = some s := by
  have ordered := pairwise_positionedLines text
  rw [here] at ordered
  obtain ⟨-, behind, front⟩ := List.pairwise_append.1 ordered
  -- no other line begins at this place
  have notBefore : ⟨position, s⟩ ∉ sectionMentionsFrom weights false before := by
    intro mem
    obtain ⟨other, listed⟩ := mem_of_mem_sectionMentionsFrom mem
    exact Nat.lt_irrefl position (front _ listed (position, line) List.mem_cons_self)
  have notBehind : ∀ inSection, ⟨position, s⟩ ∉ sectionMentionsFrom weights inSection after := by
    intro inSection mem
    obtain ⟨other, listed⟩ := mem_of_mem_sectionMentionsFrom mem
    exact Nat.lt_irrefl position ((List.pairwise_cons.1 behind).1 (position, other) listed)
  rw [sectionMentions, here, sectionMentionsFrom_append, List.mem_append, or_iff_right notBefore]
  simp only [sectionMentionsFrom]
  split
  · next heading =>
    refine iff_of_false (notBehind _) ?_
    rintro ⟨-, read⟩
    rw [not_isHeading_of_itemMention? read] at heading
    cases heading
  · rw [List.mem_append, or_iff_left (notBehind _), Option.mem_toList]
    cases countsBehind false (before.map Prod.snd) <;> simp

/-- A line makes a specification exactly if it is a list item that mentions a call and the nearest heading of level two
or deeper in front of it is one of requirements or features. -/
private theorem exists_sectionMention_iff :
    (∃ s, ⟨position, s⟩ ∈ sectionMentions text weights) ↔
      (IsItem line ∧ MentionsCall (trim line)) ∧
        ∃ heading, nearestHeading? 2 (before.map Prod.snd) = some heading ∧ IsCounted heading := by
  simp only [mem_sectionMentions_iff here, exists_and_left, ← Option.isSome_iff_exists, isSome_itemMention?_iff,
    countsBehind_false_iff]
  exact and_comm

end

/-! ## Headings of level one -/

/-- The nearest heading of a level at least is the nearest of all headings, unless that is of a lower level. -/
private theorem nearestHeading?_of_le {before : List (List Char)} {heading : List Char} {level lower : Nat}
    (le : lower ≤ level)
    (nearest : nearestHeading? lower before = some heading) (deep : level ≤ headingLevel heading) :
    nearestHeading? level before = some heading := by
  unfold nearestHeading? at nearest ⊢
  obtain ⟨-, front, back, split, others⟩ := List.find?_eq_some_iff_append.1 nearest
  refine List.find?_eq_some_iff_append.2 ⟨decide_eq_true deep, front, back, split, fun line h => ?_⟩
  have := others line h
  simp only [Bool.not_eq_true', decide_eq_false_iff_not] at this ⊢
  omega

private theorem exists_nearestHeading?_of_le {before : List (List Char)} {heading : List Char} {level lower : Nat}
    (le : lower ≤ level) (nearest : nearestHeading? level before = some heading) :
    ∃ other, nearestHeading? lower before = some other ∧ lower ≤ headingLevel other := by
  unfold nearestHeading? at nearest ⊢
  have mem := List.mem_of_find?_eq_some nearest
  have deep : level ≤ headingLevel heading := by simpa using List.find?_some nearest
  have found : (before.reverse.find? fun line => decide (lower ≤ headingLevel line)).isSome = true :=
    List.find?_isSome.2 ⟨heading, mem, decide_eq_true (Nat.le_trans le deep)⟩
  obtain ⟨other, hother⟩ := Option.isSome_iff_exists.1 found
  exact ⟨other, hother, by simpa using List.find?_some hother⟩

/-- A line stands in a section of requirements or features: the nearest heading of all is of level two or deeper and has
such a title. -/
def IsInSection (before : List (List Char)) : Prop :=
  ∃ heading, nearestHeading? 1 before = some heading ∧ 2 ≤ headingLevel heading ∧ IsCounted heading

/-- A heading of level one stands between a line and the heading of its section. -/
def IsBehindTitle (before : List (List Char)) : Prop :=
  (∃ title, nearestHeading? 1 before = some title ∧ headingLevel title = 1) ∧
    ∃ heading, nearestHeading? 2 before = some heading ∧ IsCounted heading

private theorem counted_iff {before : List (List Char)} :
    (∃ heading, nearestHeading? 2 before = some heading ∧ IsCounted heading) ↔
      IsInSection before ∨ IsBehindTitle before := by
  constructor
  · rintro ⟨heading, nearest, counted⟩
    obtain ⟨other, first, visible⟩ := exists_nearestHeading?_of_le (Nat.le_succ 1) nearest
    by_cases deep : 2 ≤ headingLevel other
    · have same := nearestHeading?_of_le (Nat.le_succ 1) first deep
      obtain rfl : heading = other := Option.some.inj (nearest.symm.trans same)
      exact .inl ⟨heading, first, deep, counted⟩
    · exact .inr ⟨⟨other, first, by omega⟩, heading, nearest, counted⟩
  · rintro (⟨heading, nearest, deep, counted⟩ | ⟨-, counted⟩)
    · exact ⟨heading, nearestHeading?_of_le (Nat.le_succ 1) nearest deep, counted⟩
    · exact counted

private theorem not_isInSection_of_isBehindTitle {before : List (List Char)} (h : IsBehindTitle before) :
    ¬ IsInSection before := by
  rintro ⟨heading, nearest, deep, -⟩
  obtain ⟨⟨title, nearest', level⟩, -⟩ := h
  obtain rfl : title = heading := Option.some.inj (nearest'.symm.trans nearest)
  omega

/-- The mentions among the specifications of a document are those of its lines, in order.  A line makes one exactly if it
is a list item that mentions a call and stands in a section of requirements or features, or did so until a heading of
level one came between.  So it makes one exactly where it stands in such a section, unless such a heading has come
between. -/
theorem sectionMention_iff (text : String) (weights : Weights) :
    ((extract text weights).filter fun s => s.evidence = some .sectionMention)
        = (sectionMentions text.toList weights).map Found.specification ∧
    (sectionMentions text.toList weights).Pairwise (fun f g => f.position < g.position) ∧
    (∀ f ∈ sectionMentions text.toList weights, ∃ line, (f.position, line) ∈ positionedLines text.toList) ∧
    ∀ before position line after, positionedLines text.toList = before ++ (position, line) :: after →
      ((∃ s, ⟨position, s⟩ ∈ sectionMentions text.toList weights) ↔
        (IsItem line ∧ MentionsCall (trim line)) ∧
          (IsInSection (before.map Prod.snd) ∨ IsBehindTitle (before.map Prod.snd))) ∧
      (((∃ s, ⟨position, s⟩ ∈ sectionMentions text.toList weights) ↔
          (IsItem line ∧ MentionsCall (trim line)) ∧ IsInSection (before.map Prod.snd)) ↔
        ¬ ((IsItem line ∧ MentionsCall (trim line)) ∧ IsBehindTitle (before.map Prod.snd))) := by
  refine ⟨filter_extract_sectionMention text weights, pairwise_sectionMentions _ _,
    fun f hf => mem_of_mem_sectionMentionsFrom hf, fun before position line after here => ?_⟩
  have yields := @exists_sectionMention_iff _ weights _ _ _ _ here
  rw [counted_iff] at yields
  refine ⟨yields, ?_⟩
  rw [yields]
  constructor
  · rintro same ⟨item, behind⟩
    exact not_isInSection_of_isBehindTitle behind (same.1 ⟨item, .inr behind⟩).2
  · refine fun clear => ⟨fun ⟨item, counted⟩ => ⟨item, ?_⟩, fun ⟨item, inside⟩ => ⟨item, .inl inside⟩⟩
    exact counted.resolve_right fun behind => clear ⟨item, behind⟩

/-- An item under a deeper heading whose title goes on. -/
theorem sectionMention_iff_nested :
    positionedLines "# Tool\n### Features of it\n* Calls run(x)\n".toList
        = [(0, "# Tool\n".toList), (7, "### Features of it\n".toList)] ++ (26, "* Calls run(x)\n".toList) :: [] ∧
      (IsItem "* Calls run(x)\n".toList ∧ MentionsCall (trim "* Calls run(x)\n".toList)) ∧
      IsInSection ["# Tool\n".toList, "### Features of it\n".toList] ∧
      ∃ s, ⟨26, s⟩ ∈ sectionMentions "# Tool\n### Features of it\n* Calls run(x)\n".toList {} := by
  have here : positionedLines "# Tool\n### Features of it\n* Calls run(x)\n".toList
      = [(0, "# Tool\n".toList), (7, "### Features of it\n".toList)] ++ (26, "* Calls run(x)\n".toList) :: [] := by
    decide +kernel
  have item : IsItem "* Calls run(x)\n".toList ∧ MentionsCall (trim "* Calls run(x)\n".toList) :=
    ⟨⟨'*', " Calls run(x)".toList, by decide +kernel, .inr rfl⟩,
      "* Calls ".toList, "run".toList, "x".toList, [], by decide, List.all_eq_true.1 (by decide), by decide,
      by decide +kernel⟩
  have inside : IsInSection ["# Tool\n".toList, "### Features of it\n".toList] :=
    ⟨"### Features of it\n".toList, by decide +kernel, by decide +kernel, .inr ⟨" of it".toList, by decide +kernel⟩⟩
  obtain ⟨-, -, -, lines⟩ := sectionMention_iff "# Tool\n### Features of it\n* Calls run(x)\n" {}
  exact ⟨here, item, inside, (lines _ _ _ _ here).1.2 ⟨item, .inl inside⟩⟩

/-- A heading of level one does not end a section. -/
theorem not_isInSection_behind_title :
    extract "## Features\n# Notes\n- load() reads\n" {} = [.ofEvidence "load() reads" "load" .sectionMention {}] ∧
      ¬ ∀ (text : String) (weights : Weights) before position line after,
        positionedLines text.toList = before ++ (position, line) :: after →
          ((∃ s, ⟨position, s⟩ ∈ sectionMentions text.toList weights) ↔
            (IsItem line ∧ MentionsCall (trim line)) ∧ IsInSection (before.map Prod.snd)) := by
  refine ⟨by decide +kernel, fun yields_iff => ?_⟩
  have lines_eq : positionedLines "## Features\n# Notes\n- load() reads\n".toList
      = [(0, "## Features\n".toList), (12, "# Notes\n".toList)] ++ (20, "- load() reads\n".toList) :: [] := by
    decide +kernel
  have nearest : nearestHeading? 1 ["## Features\n".toList, "# Notes\n".toList] = some "# Notes\n".toList := by
    decide +kernel
  have yields : ⟨20, .ofEvidence "load() reads" "load" .sectionMention {}⟩
      ∈ sectionMentions "## Features\n# Notes\n- load() reads\n".toList {} := by decide +kernel
  obtain ⟨-, heading, first, deep, -⟩ :=
    (yields_iff "## Features\n# Notes\n- load() reads\n" {} _ _ _ _ lines_eq).1 ⟨_, yields⟩
  obtain rfl : "# Notes\n".toList = heading := Option.some.inj (nearest.symm.trans first)
  exact absurd deep (by decide +kernel)

end SpecCoverage.Specifications
