import SpecCoverage.Proofs.Specifications.Cascade
import SpecCoverage.Proofs.Specifications.Cuts

/-!
# Script blocks between fences in pairs

The fence lines of a text, taken by twos, begin and end its blocks.  The pairs that begin with a fence that allows script
code are the script blocks, each of them the text between its two fences (`scriptBlocks_pairsFences`).

* (info) A fence allows script code if nothing stands behind its mark, or a script language as the first word
  (`isScriptInfo_iff`).
* (pairs) Opening and closing by turns takes the fences by twos (`scriptCutsFrom_eq`), and no fence stands between the two
  of a pair (`exists_append_of_mem_pairs_filter`).
* (last) Without a second fence there is no block (`scriptBlocks_eq_nil`), so that a fence without a partner begins none.
-/

namespace SpecCoverage.Text

/-! ## First words -/

/-- The first word of a text stands behind blanks, up to the next blank or to the end. -/
structure IsFirstWord (word cs : List Char) : Prop where
  ne_nil : word ≠ []
  visible : ∀ c ∈ word, isBlank c = false
  place : ∃ front rest, cs = front ++ (word ++ rest) ∧ (∀ c ∈ front, isBlank c = true) ∧
    ∀ c ∈ rest.head?, isBlank c = true

/-- The words that are found when the one that is begun ends. -/
def endWord (state : List Char × List (List Char)) : List (List Char) :=
  if state.1.isEmpty then state.2 else state.1 :: state.2

/-- What becomes of the word that is begun and of those that are found when one more character stands in front. -/
def wordStep (c : Char) (state : List Char × List (List Char)) : List Char × List (List Char) :=
  if isBlank c then ([], endWord state) else (c :: state.1, state.2)

private theorem words_eq_foldr (cs : List Char) : words cs = endWord (cs.foldr wordStep ([], [])) := rfl

private theorem wordStep_of_blank {c : Char} (h : isBlank c = true) (state : List Char × List (List Char)) :
    wordStep c state = ([], endWord state) := if_pos h

private theorem endWord_cons {word : List Char} (hne : word ≠ []) (found : List (List Char)) :
    endWord (word, found) = word :: found := if_neg (by simpa using hne)

private theorem words_append_of_blank {front : List Char} (blank : ∀ c ∈ front, isBlank c = true) (cs : List Char) :
    words (front ++ cs) = words cs := by
  induction front with
  | nil => rfl
  | cons c front ih =>
    obtain ⟨hc, others⟩ := List.forall_mem_cons.1 blank
    rw [← ih others, List.cons_append, words_eq_foldr, List.foldr_cons, wordStep_of_blank hc]
    rfl

private theorem words_eq_nil_of_blank {cs : List Char} (blank : ∀ c ∈ cs, isBlank c = true) : words cs = [] := by
  have behind := words_append_of_blank blank []
  rwa [List.append_nil] at behind

/-- In front of a blank, and at the end, no word is begun. -/
private theorem foldr_wordStep_of_stop {cs : List Char} (stop : ∀ c ∈ cs.head?, isBlank c = true) :
    cs.foldr wordStep ([], []) = ([], words cs) := by
  cases cs with
  | nil => rfl
  | cons c cs =>
    rw [words_eq_foldr, List.foldr_cons, wordStep_of_blank (stop c rfl)]
    rfl

private theorem foldr_wordStep_of_visible {word : List Char} (visible : ∀ c ∈ word, isBlank c = false)
    (found : List (List Char)) : word.foldr wordStep ([], found) = (word, found) := by
  induction word with
  | nil => rfl
  | cons c word ih =>
    obtain ⟨hc, others⟩ := List.forall_mem_cons.1 visible
    rw [List.foldr_cons, ih others, wordStep, if_neg (by simp [hc])]

private theorem words_append {word rest : List Char} (hne : word ≠ []) (visible : ∀ c ∈ word, isBlank c = false)
    (stop : ∀ c ∈ rest.head?, isBlank c = true) : words (word ++ rest) = word :: words rest := by
  rw [words_eq_foldr, List.foldr_append, foldr_wordStep_of_stop stop, foldr_wordStep_of_visible visible,
    endWord_cons hne]

private theorem IsFirstWord.exists_words_eq {word cs : List Char} (h : IsFirstWord word cs) :
    ∃ others, words cs = word :: others := by
  obtain ⟨front, rest, rfl, blank, stop⟩ := h.place
  exact ⟨words rest, by rw [words_append_of_blank blank, words_append h.ne_nil h.visible stop]⟩

private theorem blank_or_exists_isFirstWord (cs : List Char) :
    (∀ c ∈ cs, isBlank c = true) ∨ ∃ word, IsFirstWord word cs := by
  obtain ⟨front, blank, split⟩ := @exists_of_dropWhile_eq isBlank cs _ rfl
  cases behind : cs.dropWhile isBlank with
  | nil => exact .inl (List.dropWhile_eq_nil_iff.1 behind)
  | cons c rest =>
    have visible : isBlank c = false := by
      have stops := List.head?_dropWhile_not isBlank cs
      rw [behind] at stops
      simpa using stops
    refine .inr ⟨(c :: rest).takeWhile (!isBlank ·), ?_, ?_, front, (c :: rest).dropWhile (!isBlank ·), ?_, blank, ?_⟩
    · rw [List.takeWhile_cons_of_pos (by simpa using visible)]
      exact List.cons_ne_nil _ _
    · intro d hd
      simpa using List.mem_takeWhile_imp hd
    · rw [List.takeWhile_append_dropWhile, ← behind]
      exact split
    · intro d hd
      have ends := List.head?_dropWhile_not (!isBlank ·) (c :: rest)
      rw [hd] at ends
      simpa using ends

end SpecCoverage.Text

namespace SpecCoverage.Documents

open Text Specifications

/-! ## Fence lines -/

/-- A line that is, trimmed, three backquotes without another three behind them. -/
def IsFence (line : List Char) : Prop := ∃ info, trim line = fence ++ info ∧ ¬ fence <:+: info

/-- What stands behind the mark of a fence is blank, or begins with a script language in letters of either case. -/
inductive AllowsScript (info : List Char) : Prop
  | blank : (∀ c ∈ info, isBlank c = true) → AllowsScript info
  | language {word : List Char} {language : String} : IsFirstWord word info → language ∈ scriptLanguages →
      word.map Char.toLower = language.toList → AllowsScript info

/-- A fence that allows script code. -/
def OpensScript (line : List Char) : Prop := ∃ info, trim line = fence ++ info ∧ AllowsScript info

theorem isScriptInfo_iff {info : List Char} : isScriptInfo info = true ↔ AllowsScript info := by
  have lower : ∀ known ∈ scriptLanguages, known.toList.map Char.toLower = known.toList := by decide
  rcases blank_or_exists_isFirstWord info with blank | ⟨word, isFirst⟩
  · rw [isScriptInfo, words_eq_nil_of_blank blank]
    exact iff_of_true rfl (.blank blank)
  · obtain ⟨others, words_eq⟩ := isFirst.exists_words_eq
    have named : isScriptInfo info = true
        ↔ ∃ known ∈ scriptLanguages, known.toList.map Char.toLower = word.map Char.toLower := by
      rw [isScriptInfo, words_eq]
      simp only [List.any_eq_true, decide_eq_true_eq]
      rfl
    rw [named]
    constructor
    · rintro ⟨known, mem, same⟩
      exact .language isFirst mem (by rw [← same, lower known mem])
    · rintro (blank | ⟨isFirst', mem, same⟩)
      · obtain ⟨⟩ := words_eq.symm.trans (words_eq_nil_of_blank blank)
      · obtain ⟨others', words_eq'⟩ := isFirst'.exists_words_eq
        obtain ⟨rfl, -⟩ := List.cons_eq_cons.1 (words_eq.symm.trans words_eq')
        exact ⟨_, mem, by rw [same, lower _ mem]⟩

private theorem fenceInfo?_eq_some_iff {line info : List Char} :
    fenceInfo? line = some info ↔ trim line = fence ++ info ∧ ¬ fence <:+: info := by
  rw [fenceInfo?, Option.filter_eq_some_iff, behind?_eq_some_iff, Bool.not_eq_true', ← occursIn_iff_infix,
    Bool.not_eq_true]

private theorem isFenceLine_iff_isFence {line : List Char} : isFenceLine line = true ↔ IsFence line := by
  simp only [isFenceLine_iff, IsFence, ← occursIn_iff_infix, Bool.not_eq_true]

instance : DecidablePred IsFence := fun _ => decidable_of_iff _ isFenceLine_iff_isFence

private theorem opensScript_iff {line : List Char} :
    ((behind? fence (trim line)).any isScriptInfo) = true ↔ OpensScript line := by
  simp only [Option.any_eq_true, behind?_eq_some_iff, isScriptInfo_iff, OpensScript]

instance : DecidablePred OpensScript := fun _ => decidable_of_iff _ opensScript_iff

/-- The fence lines of a text, each with its byte position. -/
def fences (text : List Char) : List (Nat × List Char) := (positionedLines text).filter fun l => IsFence l.2

private theorem length_fences (text : List Char) : (fences text).length = fenceCount text := by
  rw [fenceCount, ← countP_withPositions _ 0, ← positionedLines, List.countP_eq_length_filter, fences]
  simp only [← isFenceLine_iff_isFence, Bool.decide_eq_true]

/-! ## Pairs -/

section

variable {α : Type}

/-- The members of a list by twos, the last one left out if it has no partner. -/
def pairs : List α → List (α × α)
  | x :: y :: rest => (x, y) :: pairs rest
  | _ => []

private theorem exists_append_of_mem_pairs {l : List α} {pair : α × α} (h : pair ∈ pairs l) :
    ∃ front back, l = front ++ pair.1 :: pair.2 :: back := by
  induction l using pairs.induct with
  | case1 x y rest ih =>
    rw [pairs] at h
    rcases List.mem_cons.1 h with rfl | h
    · exact ⟨[], rest, rfl⟩
    · obtain ⟨front, back, rfl⟩ := ih h
      exact ⟨x :: y :: front, back, rfl⟩
  | case2 l short =>
    rw [pairs] at h
    · cases h
    · exact short

/-- What stands between the two of a pair is not of the kind that is paired. -/
theorem exists_append_of_mem_pairs_filter {p : α → Bool} {l : List α} {pair : α × α} (h : pair ∈ pairs (l.filter p)) :
    ∃ front inner back, l = front ++ pair.1 :: (inner ++ pair.2 :: back) ∧ ∀ x ∈ inner, ¬ p x = true := by
  obtain ⟨outer, behind, split⟩ := exists_append_of_mem_pairs h
  obtain ⟨before, found, rfl, -, split⟩ := List.filter_eq_append_iff.1 split
  obtain ⟨others, found, rfl, -, -, split⟩ := List.filter_eq_cons_iff.1 split
  obtain ⟨inner, back, rfl, none, -, -⟩ := List.filter_eq_cons_iff.1 split
  exact ⟨before ++ others, inner, back, by simp, none⟩

/-- The second one of a pair stands in front of the first one of any later pair. -/
private theorem pairwise_pairs {R : α → α → Prop} {l : List α} (h : l.Pairwise R) :
    (pairs l).Pairwise fun a b => R a.2 b.1 := by
  induction l using pairs.induct with
  | case1 x y rest ih =>
    obtain ⟨-, hy, hrest⟩ : _ ∧ (∀ z ∈ rest, R y z) ∧ rest.Pairwise R := by simpa using h
    rw [pairs]
    refine List.pairwise_cons.2 ⟨fun b hb => hy _ ?_, ih hrest⟩
    obtain ⟨front, back, rfl⟩ := exists_append_of_mem_pairs hb
    simp
  | case2 l short =>
    rw [pairs]
    · exact .nil
    · exact short

end

/-! ## Cuts by pairs -/

/-- The pairs of fences whose first one allows script code. -/
def scriptPairs (text : List Char) : List ((Nat × List Char) × Nat × List Char) :=
  (pairs (fences text)).filter fun pair => OpensScript pair.1.2

/-- The end of the line of the opening fence, and the start of the line of the closing one. -/
def innerCut (pair : (Nat × List Char) × Nat × List Char) : Nat × Nat := (pair.1.1 + byteLength pair.1.2, pair.2.1)

/-- A scan finds the pairs of the fences that are left, or of the one that is open and those. -/
theorem scriptCutsFrom_eq (ls : List (Nat × List Char)) :
    scriptCutsFrom none ls
        = ((pairs (ls.filter fun l => IsFence l.2)).filter fun pair => OpensScript pair.1.2).map innerCut ∧
      ∀ opening : Nat × List Char, scriptCutsFrom (some (OpensScript opening.2, opening.1 + byteLength opening.2)) ls
        = ((pairs (opening :: ls.filter fun l => IsFence l.2)).filter fun pair => OpensScript pair.1.2).map innerCut := by
  induction ls with
  | nil => exact ⟨rfl, fun _ => rfl⟩
  | cons first rest ih =>
    obtain ⟨position, line⟩ := first
    obtain ⟨ihNone, ihSome⟩ := ih
    cases h : fenceInfo? line with
    | none =>
      have notFence : ¬ IsFence line := by simp [← isFenceLine_iff_isFence, isFenceLine, h]
      rw [List.filter_cons_of_neg (by simpa using notFence)]
      constructor
      · rw [scriptCutsFrom, h]
        exact ihNone
      · intro opening
        rw [scriptCutsFrom, h]
        exact ihSome opening
    | some info =>
      have isFence : IsFence line := ⟨info, fenceInfo?_eq_some_iff.1 h⟩
      rw [List.filter_cons_of_pos (by simpa using isFence)]
      constructor
      · have allows : isScriptInfo info = decide (OpensScript line) := by
          rw [Bool.eq_iff_iff, decide_eq_true_eq, ← opensScript_iff, behind?_eq_some_iff.2 (fenceInfo?_eq_some_iff.1 h).1]
          rfl
        rw [scriptCutsFrom, h]
        simp only [allows]
        exact ihSome (position, line)
      · intro opening
        rw [scriptCutsFrom, h, pairs, ihNone]
        by_cases allows : OpensScript opening.2
        · rw [List.filter_cons_of_pos (by simpa using allows)]
          simp [allows, innerCut]
        · rw [List.filter_cons_of_neg (by simpa using allows)]
          simp [allows]

private theorem scriptCuts_eq (text : List Char) : scriptCuts text = (scriptPairs text).map innerCut :=
  (scriptCutsFrom_eq (positionedLines text)).1

/-- The text between the lines of two fences. -/
def blockBetween (text : List Char) (pair : (Nat × List Char) × Nat × List Char) : ScriptBlock :=
  ⟨(innerCut pair).1, (slice? text (innerCut pair).1 (innerCut pair).2).getD []⟩

private theorem scriptBlocks_eq_map (text : List Char) :
    scriptBlocks text = (scriptPairs text).map (blockBetween text) := by
  have cuts := forall₂_scriptCuts text
  rw [scriptCuts_eq, List.forall₂_map_left_iff] at cuts
  have same : List.Forall₂ (fun pair block => blockBetween text pair = block) (scriptPairs text) (scriptBlocks text) := by
    refine cuts.imp fun pair block isBlockAt => ?_
    rw [blockBetween, isBlockAt.slice?_eq, ← isBlockAt.start_eq, Option.getD_some]
  rw [← List.forall₂_map_left_iff (R := Eq), List.forall₂_eq_eq_eq] at same
  exact same.symm

/-- A text with fewer than two fences has no script blocks. -/
theorem scriptBlocks_eq_nil {text : List Char} (few : fenceCount text < 2) : scriptBlocks text = [] := by
  rw [← length_fences] at few
  rw [scriptBlocks_eq_map, scriptPairs]
  match fences text, few with
  | [], _ => rfl
  | [_], _ => rfl

/-! ## Script blocks -/

/-- A block that is the text between the lines of two fences, without a fence in it. -/
structure IsBetween (text : List Char) (pair : (Nat × List Char) × Nat × List Char) (b : ScriptBlock) : Prop where
  start_eq : b.start = pair.1.1 + byteLength pair.1.2
  stop_eq : b.start + byteLength b.body = pair.2.1
  slice?_eq : slice? text b.start pair.2.1 = some b.body
  withoutFences : ∀ line ∈ lines b.body, ¬ IsFence line

private theorem isBetween_blockBetween {text : List Char} {pair : (Nat × List Char) × Nat × List Char}
    (h : pair ∈ pairs (fences text)) : IsBetween text pair (blockBetween text pair) := by
  obtain ⟨⟨start, opening⟩, stop, closing⟩ := pair
  obtain ⟨before, inner, after, split, none⟩ := exists_append_of_mem_pairs_filter h
  rw [← List.cons_append, ← List.append_assoc] at split
  -- the closing line stands behind a text of whole lines, and the opening one within that
  obtain ⟨outer, back, rfl, -, hstop, split, -⟩ := positionedLines_eq_append split
  obtain ⟨front, body, rfl, whole, hstart, hbefore, behind⟩ := positionedLines_eq_append split
  have inner_eq : inner.map Prod.snd = lines body := by
    have all := congrArg (List.map Prod.snd) split
    rw [positionedLines, map_snd_withPositions, lines_append whole, behind, ← hbefore, List.map_append, positionedLines,
      map_snd_withPositions, List.map_cons] at all
    exact (List.cons_eq_cons.1 (List.append_cancel_left all)).2.symm
  have start_eq : start + byteLength opening = byteLength (front ++ opening) := by rw [hstart, byteLength_append]
  have stop_eq : byteLength (front ++ opening) + byteLength body = stop := by
    rw [hstop, ← byteLength_append, List.append_assoc]
  have cut : slice? (front ++ (opening ++ body) ++ (closing ++ back)) (byteLength (front ++ opening)) stop = some body := by
    rw [← stop_eq, ← List.append_assoc front, List.append_assoc]
    exact slice?_append _ _ _
  have block_eq : blockBetween (front ++ (opening ++ body) ++ (closing ++ back)) ((start, opening), stop, closing)
      = ⟨byteLength (front ++ opening), body⟩ := by
    rw [blockBetween, innerCut, start_eq, cut, Option.getD_some]
  rw [block_eq]
  refine ⟨start_eq.symm, stop_eq, cut, ?_⟩
  intro line hline
  obtain ⟨l, hl, rfl⟩ := List.mem_map.1 (inner_eq ▸ hline)
  simpa using none l hl

/-- A fence without a partner begins no block, nor does what follows it. -/
private theorem exists_front_of_unpaired {text : List Char} {before : List (Nat × List Char)} {last : Nat × List Char}
    (h : fences text = before ++ [last]) (even : before.length % 2 = 0) :
    ∃ front rest, text = front ++ (last.2 ++ rest) ∧ last.1 = byteLength front ∧ scriptBlocks text = scriptBlocks front := by
  obtain ⟨start, line⟩ := last
  obtain ⟨paired, found, split, hpaired, hfound⟩ := List.filter_eq_append_iff.1 h
  obtain ⟨others, after, rfl, none, -, -⟩ := List.filter_eq_cons_iff.1 hfound
  rw [← List.append_assoc] at split
  obtain ⟨front, rest, rfl, whole, hstart, hfront, -⟩ := positionedLines_eq_append split
  have fences_front : fences front = before := by
    rw [fences, hfront, List.filter_append, hpaired, List.filter_eq_nil_iff.2 none, List.append_nil]
  have count_front : fenceCount front = before.length := by rw [← length_fences, fences_front]
  have count_rest : fenceCount (line ++ rest) = 1 := by
    have all : fenceCount (front ++ (line ++ rest)) = before.length + 1 := by
      rw [← length_fences, h, List.length_append, List.length_singleton]
    rw [fenceCount, lines_append whole, List.countP_append, ← fenceCount, ← fenceCount, count_front] at all
    exact Nat.add_left_cancel all
  have alone : scriptBlocks (line ++ rest) = [] := scriptBlocks_eq_nil (by omega)
  refine ⟨front, rest, rfl, hstart, ?_⟩
  rw [scriptBlocks_append whole (count_front ▸ even), alone, List.map_nil, List.append_nil]

/-- The script blocks of a text are what stands between its fences by twos. -/
structure PairsFences (text : List Char) : Prop where
  blocks_eq : scriptBlocks text = (scriptPairs text).map (blockBetween text)
  between : ∀ pair ∈ scriptPairs text, IsBetween text pair (blockBetween text pair)
  apart : (scriptBlocks text).Pairwise fun b b' => b.start + byteLength b.body < b'.start
  unpaired : ∀ before last, fences text = before ++ [last] → before.length % 2 = 0 →
    ∃ front rest, text = front ++ (last.2 ++ rest) ∧ last.1 = byteLength front ∧ scriptBlocks text = scriptBlocks front

theorem scriptBlocks_pairsFences (text : List Char) : PairsFences text := by
  have between : ∀ pair ∈ scriptPairs text, IsBetween text pair (blockBetween text pair) :=
    fun pair h => isBetween_blockBetween (List.mem_of_mem_filter h)
  refine ⟨scriptBlocks_eq_map text, between, ?_, fun _ _ => exists_front_of_unpaired⟩
  have inOrder : (scriptPairs text).Pairwise fun a b => a.2.1 < b.1.1 :=
    (pairwise_pairs ((pairwise_positionedLines text).filter _)).filter _
  rw [scriptBlocks_eq_map, List.pairwise_map]
  refine inOrder.imp_of_mem fun {a b} ha hb lt => ?_
  rw [(between a ha).stop_eq, (between b hb).start_eq]
  exact Nat.lt_of_lt_of_le lt (Nat.le_add_right _ _)

/-- A fence with another language is paired too, so that no prose is taken for a block; the last fence has no partner. -/
example : scriptBlocks "```python\nx\n```\nuse ```run()```\n\u3000``` TypeScript é\nf() \x7b\x7d\n````\n```js\ng()".toList
    = [⟨53, "f() \x7b\x7d\n".toList⟩] := by decide +kernel

end SpecCoverage.Documents
