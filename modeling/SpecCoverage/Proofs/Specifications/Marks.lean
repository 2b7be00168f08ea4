import SpecCoverage.Proofs.Specifications.Composition
import SpecCoverage.Proofs.Specifications.Rules

/-!
# Marks with a description

A call signature or a bold bullet takes the block of text behind it for its description, and marks within that block are
part of the description.

* (blocks) What is taken by one mark ends in front of the next one that is reported (`pairwise_describedMatches`), and a
  mark is reported exactly if no reported one that begins earlier takes the place where it begins
  (`mem_describedMatches_iff`, `reportedCalls_iff`).
* (lines) A block does not reach into a line that a mark begins, since that line is a boundary.  So a call signature at
  the start of a line is reported (`mem_reportedCalls_of_line`), and so is every bold bullet
  (`reportedBullets_eq_map`).
-/

namespace SpecCoverage.Specifications

open Documents Sorting Text

/-! ## Blocks of matches that stand in order -/

section

variable {α : Type} {text : List Char} {found : List (Match α)} {consumed : Nat}

/-- Matches that stand one behind the other. -/
structure InOrder (found : List (Match α)) : Prop where
  start_lt : ∀ m ∈ found, m.start < m.stop
  pairwise : found.Pairwise fun m m' => m.stop ≤ m'.start

theorem InOrder.tail {m : Match α} (h : InOrder (m :: found)) :
    (∀ m' ∈ found, m.stop ≤ m'.start) ∧ InOrder found := by
  obtain ⟨before, behind⟩ := List.pairwise_cons.1 h.pairwise
  exact ⟨before, fun m' hm' => h.start_lt m' (List.mem_cons_of_mem _ hm'), behind⟩

private theorem inOrder_allMatches {pattern : Pattern α} (takes : Takes pattern) (cs : List Char) :
    InOrder (allMatches pattern cs) where
  start_lt _ h := (isAt_of_mem_allMatches takes h).start_lt_stop
  pairwise := pairwise_allMatches takes cs

theorem block_of_mem_describedMatches {r : Match α × Block} (h : r ∈ describedMatches text consumed found) :
    r.2 = blockAt text r.1.stop := by
  induction found generalizing consumed with
  | nil => cases h
  | cons first rest ih =>
    rw [describedMatches] at h
    split at h
    · exact ih h
    · rcases List.mem_cons.1 h with rfl | h
      · rfl
      · exact ih h

private theorem le_stop_blockAt (text : List Char) (start : Nat) :
    start ≤ (blockAt text start).stop := Nat.le_add_right _ _

private theorem le_start_of_mem_describedMatches (inOrder : InOrder found) {r : Match α × Block}
    (h : r ∈ describedMatches text consumed found) : consumed ≤ r.1.start := by
  induction found generalizing consumed with
  | nil => cases h
  | cons first rest ih =>
    rw [describedMatches] at h
    split at h
    · exact ih inOrder.tail.2 h
    · rcases List.mem_cons.1 h with rfl | h
      · show consumed ≤ first.start
        omega
      · have behind := ih inOrder.tail.2 h
        have := inOrder.start_lt first List.mem_cons_self
        have := le_stop_blockAt text first.stop
        omega

/-- What one mark takes ends in front of the next one that is reported. -/
theorem pairwise_describedMatches (inOrder : InOrder found) :
    (describedMatches text consumed found).Pairwise fun r r' => r.2.stop ≤ r'.1.start := by
  induction found generalizing consumed with
  | nil => exact .nil
  | cons first rest ih =>
    rw [describedMatches]
    split
    · exact ih inOrder.tail.2
    · exact List.pairwise_cons.2 ⟨fun r hr => le_start_of_mem_describedMatches inOrder.tail.2 hr, ih inOrder.tail.2⟩

/-- A mark is reported exactly if no reported one that begins earlier takes the place where it begins. -/
theorem mem_describedMatches_iff (inOrder : InOrder found) {m : Match α} (hm : m ∈ found) :
    (m, blockAt text m.stop) ∈ describedMatches text consumed found ↔
      consumed ≤ m.start ∧ ∀ r ∈ describedMatches text consumed found, r.1.start < m.start → r.2.stop ≤ m.start := by
  induction found generalizing consumed with
  | nil => cases hm
  | cons first rest ih =>
    obtain ⟨before, inOrder'⟩ := inOrder.tail
    have visible := inOrder.start_lt first List.mem_cons_self
    rw [describedMatches]
    split
    · next skipped =>
      rcases List.mem_cons.1 hm with rfl | hm
      · refine iff_of_false (fun h => ?_) (fun h => ?_)
        · exact Nat.not_le.2 skipped (le_start_of_mem_describedMatches inOrder' h)
        · exact Nat.not_le.2 skipped h.1
      · exact ih inOrder' hm
    · next reached =>
      rcases List.mem_cons.1 hm with rfl | hm
      · refine iff_of_true List.mem_cons_self ⟨Nat.not_lt.1 reached, fun r hr lt => ?_⟩
        rcases List.mem_cons.1 hr with rfl | hr
        · exact absurd lt (Nat.lt_irrefl _)
        · have := before r.1 (mem_of_mem_describedMatches hr)
          omega
      · have later := before m hm
        have differs : (m, blockAt text m.stop) ≠ (first, blockAt text first.stop) := by
          intro same
          obtain rfl := (Prod.mk.inj same).1
          omega
        rw [List.mem_cons, or_iff_right differs, ih inOrder' hm, List.forall_mem_cons]
        have := le_stop_blockAt text first.stop
        constructor
        · rintro ⟨le, clear⟩
          exact ⟨by omega, fun _ => le, clear⟩
        · rintro ⟨-, le, clear⟩
          exact ⟨le (Nat.lt_of_lt_of_le visible later), clear⟩

/-- Marks, each with the block of text behind it, where no block reaches the next mark. -/
structure AreApart (text : List Char) (reported : List (Match α × Block)) : Prop where
  block_eq : ∀ r ∈ reported, r.2 = blockAt text r.1.stop
  start_lt_stop : ∀ r ∈ reported, r.1.start < r.1.stop
  pairwise : reported.Pairwise fun r r' => r.2.stop ≤ r'.1.start

private theorem areApart_describedMatches (inOrder : InOrder found) (consumed : Nat) :
    AreApart text (describedMatches text consumed found) where
  block_eq _ := block_of_mem_describedMatches
  start_lt_stop r hr := inOrder.start_lt r.1 (mem_of_mem_describedMatches hr)
  pairwise := pairwise_describedMatches inOrder

private theorem AreApart.pairwise_start {reported : List (Match α × Block)} (apart : AreApart text reported) :
    reported.Pairwise fun r r' => r.1.start < r'.1.start := by
  refine apart.pairwise.imp_of_mem fun {r r'} hr _ le => ?_
  have := apart.start_lt_stop r hr
  have := le_stop_blockAt text r.1.stop
  rw [← apart.block_eq r hr] at this
  omega

/-- Where no block reaches the next mark, all marks are reported. -/
private theorem describedMatches_eq_map (clear : found.Pairwise fun m m' => (blockAt text m.stop).stop ≤ m'.start)
    (le : ∀ m ∈ found, consumed ≤ m.start) :
    describedMatches text consumed found = found.map fun m => (m, blockAt text m.stop) := by
  induction found generalizing consumed with
  | nil => rfl
  | cons first rest ih =>
    obtain ⟨before, behind⟩ := List.pairwise_cons.1 clear
    rw [describedMatches, if_neg (Nat.not_lt.2 (le first List.mem_cons_self))]
    exact congrArg _ (ih behind before)

end

/-! ## Call signatures -/

/-- The call signatures that are reported, each with its description. -/
def reportedCalls (text : List Char) : List (Match Signature × Block) :=
  describedMatches text 0 (allMatches callSignature text)

def callSpecification (weights : Weights) (r : Match Signature × Block) : Specification :=
  .ofEvidence (String.ofList (describedSignature r.1.value r.2.words)) (String.ofList r.1.value.name) .callSignature
    weights

section

variable {text : List Char}

private theorem inOrder_callSignatures (text : List Char) : InOrder (allMatches callSignature text) :=
  inOrder_allMatches takes_callSignature text

/-- A call signature stands in one line. -/
theorem exists_mark_of_mem_allMatches {m : Match Signature} (h : m ∈ allMatches callSignature text) :
    m.value.IsCall ∧ ∃ front colon rest, text = front ++ (m.value.mark ++ colon ++ rest) ∧ '\n' ∉ m.value.mark ++ colon ∧
      m.start = byteLength front ∧ m.stop = m.start + byteLength (m.value.mark ++ colon) := by
  obtain ⟨front, found, rest, split, -, -, read, hstart, hstop⟩ := (isAt_of_mem_allMatches takes_callSignature h).exists_split
  obtain ⟨call, colon, hcolon, e⟩ := callSignature_eq_some read
  rw [← List.append_assoc] at e
  obtain rfl := List.append_cancel_right e
  refine ⟨call, front, colon, rest, split, ?_, by rw [hstart, Nat.zero_add], hstop⟩
  rw [List.mem_append, not_or]
  exact ⟨call.lineFeed_not_mem, by rcases hcolon with rfl | rfl <;> decide⟩

/-- No block ends within a call signature. -/
private theorem stop_le_or_le_stop {m m' : Match Signature} (hm : m ∈ allMatches callSignature text)
    (hm' : m' ∈ allMatches callSignature text) :
    (blockAt text m.stop).stop ≤ m'.start ∨ m'.stop ≤ (blockAt text m.stop).stop := by
  obtain ⟨-, front, colon, rest, split, -, hstart, hstop⟩ := exists_mark_of_mem_allMatches hm
  obtain ⟨-, front', colon', rest', split', inLine, hstart', hstop'⟩ := exists_mark_of_mem_allMatches hm'
  obtain ⟨a, b, h, block_eq, ends⟩ := exists_of_stop_blockAt (front ++ (m.value.mark ++ colon)) rest
  rw [List.append_assoc, ← split, byteLength_append, ← hstart, ← hstop] at block_eq
  rw [List.append_assoc, ← split, split'] at h
  rw [block_eq, hstart', hstop', hstart', ← byteLength_append]
  rcases ends with rfl | whole
  · refine .inr ?_
    rw [List.append_nil, ← List.append_assoc] at h
    rw [← h, byteLength_append _ rest']
    exact Nat.le_add_right _ _
  · exact whole.byteLength_le_or_le h.symm inLine

/-- A call signature that stands in a text is reported exactly if no reported one that begins earlier takes the place
where it begins. -/
theorem reportedCalls_iff {front rest : List Char} {s : Signature} (call : s.IsCall)
    (split : text = front ++ (s.mark ++ rest)) :
    (∃ r ∈ reportedCalls text, r.1.start = byteLength front ∧ r.1.value = s) ↔
      ∀ r ∈ reportedCalls text, r.1.start < byteLength front → r.2.stop ≤ byteLength front := by
  have inOrder := inOrder_callSignatures text
  have mem_iff := fun {m} => @mem_describedMatches_iff _ text _ 0 inOrder m
  constructor
  · rintro ⟨⟨m, block⟩, hr, hstart, -⟩
    obtain rfl : block = blockAt text m.stop := block_of_mem_describedMatches hr
    have clear := ((mem_iff (mem_of_mem_describedMatches hr)).1 hr).2
    rwa [hstart] at clear
  · intro clear
    obtain ⟨colon, -, hrest⟩ := optionally_eq_append [':'] rest
    have read := callSignature_mark call rest
    have here : s.mark ++ rest = s.mark ++ colon ++ optionally [':'] rest := by rw [List.append_assoc, ← hrest]
    rw [here] at read split
    have visible : s.mark ++ colon ≠ [] := by simp [Signature.mark]
    have mem : (⟨byteLength front, byteLength (front ++ (s.mark ++ colon)), s⟩ : Match Signature)
        ∈ allMatches callSignature text := by
      rw [split, mem_allMatches_iff takes_callSignature visible read, ← split]
      intro m hm lt
      -- a match that is not reported begins within a block, and then it ends there
      by_cases reported : (m, blockAt text m.stop) ∈ reportedCalls text
      · exact Nat.le_trans (le_stop_blockAt text m.stop) (clear _ reported lt)
      · have taken : ∃ r ∈ reportedCalls text, r.1.start < m.start ∧ m.start < r.2.stop := by
          simpa [reportedCalls, mem_iff hm] using reported
        obtain ⟨r, hr, before, within⟩ := taken
        have stop_le := clear r hr (Nat.lt_trans before lt)
        rw [block_of_mem_describedMatches hr] at within stop_le
        exact Nat.le_trans ((stop_le_or_le_stop (mem_of_mem_describedMatches hr) hm).resolve_left (Nat.not_le.2 within))
          stop_le
    exact ⟨_, (mem_iff mem).2 ⟨Nat.zero_le _, clear⟩, rfl, rfl⟩

private theorem isBlockBoundary_of_trimStart {line cs : List Char} {c : Char} (h : trimStart line = c :: cs)
    (mark : c = '-' ∨ c = '*') : isBlockBoundary line = true := by
  unfold isBlockBoundary
  rw [h]
  rcases mark with rfl | rfl <;> simp

/-- A call signature at the start of a line is reported. -/
theorem mem_reportedCalls_of_line {position : Nat} {line rest : List Char} {s : Signature}
    (here : (position, line) ∈ positionedLines text) (call : s.IsCall) (begins : trimStart line = s.mark ++ rest) :
    ∃ r ∈ reportedCalls text, r.1.start = position + byteLength (line.takeWhile isBlank) ∧ r.1.value = s := by
  obtain ⟨_, _, listed⟩ := List.append_of_mem here
  obtain ⟨a, b, split, whole, rfl, -, lines_eq⟩ := positionedLines_eq_append listed
  have boundary : BeginsWithBoundary (line ++ b) :=
    beginsWithBoundary_of_lines lines_eq (isBlockBoundary_of_trimStart begins (.inr rfl))
  have indented : line = line.takeWhile isBlank ++ (s.mark ++ rest) := by
    rw [← begins]
    exact List.takeWhile_append_dropWhile.symm
  have blank : ∀ c ∈ line.takeWhile isBlank, isBlank c = true := List.all_eq_true.1 List.all_takeWhile
  generalize line.takeWhile isBlank = indent at indented blank ⊢
  have place : text = a ++ (indent ++ (s.mark ++ (rest ++ b))) := by rw [split, indented]; simp
  rw [← byteLength_append]
  refine (reportedCalls_iff call (by rw [place, List.append_assoc])).2 fun r hr lt => ?_
  have hm := mem_of_mem_describedMatches hr
  by_cases before : r.1.start < byteLength a
  · -- its block stops at the line
    have inLine := stopsInLine_of_mem_allMatches callSignature_isLineBound whole
      (mem_allMatches_of_start_lt callSignature_isLineBound whole (split ▸ hm) before)
    have stop_le := stop_blockAt_le_of_boundary whole boundary inLine
    rw [← split, ← block_of_mem_describedMatches hr] at stop_le
    rw [byteLength_append]
    exact Nat.le_add_right_of_le stop_le
  · -- it would begin with one of the blanks
    obtain ⟨-, front, colon, tail, split', -, hstart, -⟩ := exists_mark_of_mem_allMatches hm
    rw [hstart] at before lt
    rw [split'] at place
    obtain ⟨e, rfl, behind⟩ := exists_append_of_byteLength_le place.symm (Nat.le_of_not_lt before)
    rw [byteLength_append, byteLength_append, Nat.add_lt_add_iff_left] at lt
    obtain ⟨e', rfl, within⟩ := exists_append_of_byteLength_le behind.symm (Nat.le_of_lt lt)
    cases e' with
    | nil => rw [List.append_nil] at lt; exact absurd lt (Nat.lt_irrefl _)
    | cons c e' =>
      obtain rfl : c = '*' := (List.cons_eq_cons.1 within).1.symm
      exact absurd (blank '*' (by simp)) (by decide)

end

/-! ## Bold bullets -/

def IsBulletLine (line : List Char) : Prop := ∃ name, IsBullet line name

private theorem isBulletLine_iff {line : List Char} : IsBulletLine line ↔ (boldBullet line).isSome = true := by
  rw [Option.isSome_iff_exists]
  constructor
  · rintro ⟨name, bullet⟩
    obtain ⟨rest, read⟩ := boldBullet_of_isBullet bullet
    exact ⟨_, read⟩
  · rintro ⟨⟨name, rest⟩, read⟩
    exact ⟨name, (isBullet_of_boldBullet read).1⟩

instance : DecidablePred IsBulletLine := fun _ => decidable_of_iff _ isBulletLine_iff.symm

theorem IsBullet.isBlockBoundary {line name : List Char} (h : IsBullet line name) : isBlockBoundary line = true := by
  obtain ⟨indent, blanks, rest, hindent, -, rfl⟩ := h.exists_split
  have blank : ∀ c ∈ indent, isBlank c = true := by
    intro c hc
    rcases hindent c hc with rfl | rfl <;> decide
  exact isBlockBoundary_of_trimStart (dropWhile_append_cons blank (by decide) _) (.inl rfl)

/-- The bold bullets that are reported, each with its description. -/
def reportedBullets (text : List Char) : List (Match (List Char) × Block) :=
  describedMatches text 0 (boldBulletMatches text)

def bulletSpecification (weights : Weights) (r : Match (List Char) × Block) : Specification :=
  .ofEvidence (String.ofList (describedName r.1.value r.2.words)) (String.ofList r.1.value) .boldBullet weights

section

variable {text : List Char}

/-- A bold bullet that a line begins. -/
def BeginsLine (l : Nat × List Char) (m : Match (List Char)) : Prop := m.start = l.1 ∧ IsBullet l.2 m.value

private theorem pairwise_start_boldBulletMatches (text : List Char) :
    (boldBulletMatches text).Pairwise fun m m' => m.start < m'.start := by
  refine List.Pairwise.filterMap _ ?_ (pairwise_positionedLines text)
  rintro ⟨start, line⟩ ⟨start', line'⟩ lt m hm m' hm'
  obtain ⟨_, -, rfl⟩ := Option.map_eq_some_iff.1 hm
  obtain ⟨_, -, rfl⟩ := Option.map_eq_some_iff.1 hm'
  exact lt

/-- Where a bold bullet begins, all blocks of earlier ones have ended. -/
private theorem stop_blockAt_le_of_bullet {m m' : Match (List Char)} (hm : m ∈ boldBulletMatches text)
    (hm' : m' ∈ boldBulletMatches text) (lt : m.start < m'.start) : (blockAt text m.stop).stop ≤ m'.start := by
  obtain ⟨line, rest, here, read, -⟩ := exists_line_of_mem_boldBulletMatches hm'
  obtain ⟨_, _, listed⟩ := List.append_of_mem here
  obtain ⟨a, b, split, whole, hstart, -, lines_eq⟩ := positionedLines_eq_append listed
  have boundary := beginsWithBoundary_of_lines lines_eq (isBullet_of_boldBullet read).1.isBlockBoundary
  have before : m ∈ boldBulletMatches a := by
    rw [split, boldBulletMatches_append whole] at hm
    refine (List.mem_append.1 hm).resolve_right fun behind => ?_
    obtain ⟨_, -, rfl⟩ := List.mem_map.1 behind
    rw [hstart] at lt
    exact Nat.not_lt.2 (Nat.le_add_right _ _) lt
  rw [hstart, split]
  exact stop_blockAt_le_of_boundary whole boundary (stopsInLine_of_mem_boldBulletMatches whole before)

theorem reportedBullets_eq_map (text : List Char) :
    reportedBullets text = (boldBulletMatches text).map fun m => (m, blockAt text m.stop) :=
  describedMatches_eq_map
    ((pairwise_start_boldBulletMatches text).imp_of_mem fun hm hm' lt => stop_blockAt_le_of_bullet hm hm' lt)
    fun _ _ => Nat.zero_le _

private theorem start_lt_stop_of_mem_boldBulletMatches {m : Match (List Char)} (h : m ∈ boldBulletMatches text) :
    m.start < m.stop := by
  obtain ⟨line, rest, -, read, hstop⟩ := exists_line_of_mem_boldBulletMatches h
  have shorter := (isBullet_of_boldBullet read).2
  omega

/-- Each bold bullet is reported, and no line makes two. -/
private theorem forall₂_boldBulletMatches (text : List Char) :
    List.Forall₂ BeginsLine ((positionedLines text).filter fun l => IsBulletLine l.2) (boldBulletMatches text) := by
  unfold boldBulletMatches
  induction positionedLines text with
  | nil => exact .nil
  | cons l rest ih =>
    obtain ⟨start, line⟩ := l
    rw [List.filter_cons, List.filterMap_cons]
    cases read : boldBullet line with
    | none =>
      have notBullet : ¬ IsBulletLine line := by simp [isBulletLine_iff, read]
      simpa [notBullet, read] using ih
    | some found =>
      have bullet := (isBullet_of_boldBullet read).1
      have isBullet : IsBulletLine line := ⟨_, bullet⟩
      simp only [isBullet, decide_true, if_true, read, Option.map_some]
      exact .cons ⟨rfl, bullet⟩ ih

private theorem inOrder_boldBulletMatches (text : List Char) : InOrder (boldBulletMatches text) where
  start_lt _ h := start_lt_stop_of_mem_boldBulletMatches h
  pairwise := (pairwise_start_boldBulletMatches text).imp_of_mem fun {m _} hm hm' lt =>
    Nat.le_trans (le_stop_blockAt text m.stop) (stop_blockAt_le_of_bullet hm hm' lt)

end

/-! ## The marks of a document -/

private theorem areApart_reportedCalls (text : List Char) : AreApart text (reportedCalls text) :=
  areApart_describedMatches (inOrder_callSignatures text) 0

private theorem areApart_reportedBullets (text : List Char) : AreApart text (reportedBullets text) :=
  areApart_describedMatches (inOrder_boldBulletMatches text) 0

private theorem filter_extract_callSignature (text : String) (weights : Weights) :
    ((extract text weights).filter fun s => s.evidence = some .callSignature)
      = (reportedCalls text.toList).map (callSpecification weights) := by
  rw [filter_extract_of_pairwise]
  · exact List.map_map
  · exact List.pairwise_map.2 (areApart_reportedCalls text.toList).pairwise_start

private theorem filter_extract_boldBullet (text : String) (weights : Weights) :
    ((extract text weights).filter fun s => s.evidence = some .boldBullet)
      = (reportedBullets text.toList).map (bulletSpecification weights) := by
  rw [filter_extract_of_pairwise]
  · exact List.map_map
  · exact List.pairwise_map.2 (areApart_reportedBullets text.toList).pairwise_start

/-- The bold bullets among the specifications of a document are those of the lines that a bold bullet begins, one for
each.  The call signatures among them stand in the text; one at the start of a line is never left out, and one at
another place only where it begins within what an earlier one has taken with its description.  What two marks of a kind
take does not overlap. -/
theorem extract_keepsMarks (text : String) (weights : Weights) :
    (((extract text weights).filter fun s => s.evidence = some .boldBullet)
        = (reportedBullets text.toList).map (bulletSpecification weights) ∧
      List.Forall₂ (fun l r => BeginsLine l r.1) ((positionedLines text.toList).filter fun l => IsBulletLine l.2)
        (reportedBullets text.toList)) ∧
    (((extract text weights).filter fun s => s.evidence = some .callSignature)
        = (reportedCalls text.toList).map (callSpecification weights) ∧
      (∀ r ∈ reportedCalls text.toList, r.1.value.IsCall ∧
        ∃ front rest, text.toList = front ++ (r.1.value.mark ++ rest) ∧ r.1.start = byteLength front) ∧
      (∀ position line s rest, (position, line) ∈ positionedLines text.toList → s.IsCall →
        trimStart line = s.mark ++ rest → ∃ r ∈ reportedCalls text.toList,
          r.1.start = position + byteLength (line.takeWhile isBlank) ∧ r.1.value = s) ∧
      (∀ front s rest, s.IsCall → text.toList = front ++ (s.mark ++ rest) →
        ((∃ r ∈ reportedCalls text.toList, r.1.start = byteLength front ∧ r.1.value = s) ↔
          ∀ r ∈ reportedCalls text.toList, ¬ (r.1.start < byteLength front ∧ byteLength front < r.2.stop)))) ∧
    AreApart text.toList (reportedBullets text.toList) ∧ AreApart text.toList (reportedCalls text.toList) := by
  refine ⟨⟨filter_extract_boldBullet text weights, ?_⟩, ⟨filter_extract_callSignature text weights, ?_, ?_, ?_⟩,
    areApart_reportedBullets _, areApart_reportedCalls _⟩
  · rw [reportedBullets_eq_map, List.forall₂_map_right_iff]
    exact forall₂_boldBulletMatches _
  · intro r hr
    obtain ⟨call, front, colon, rest, split, -, hstart, -⟩ := exists_mark_of_mem_allMatches (mem_of_mem_describedMatches hr)
    exact ⟨call, front, colon ++ rest, by rw [split, List.append_assoc], hstart⟩
  · intro position line s rest here call begins
    exact mem_reportedCalls_of_line here call begins
  · intro front s rest call split
    simp only [reportedCalls_iff call split, not_and, Nat.not_lt]

/-- A call signature at the start of a line is found, behind spaces, and one in the description of another is not. -/
theorem extract_keepsMarks_nested :
    (Signature.mk "load".toList []).IsCall ∧
      (41, "  **load()**\n".toList)
        ∈ positionedLines "**save(x)**: Writes\nlike **drop()** does\n  **load()**\n".toList ∧
      trimStart "  **load()**\n".toList = (Signature.mk "load".toList []).mark ++ ['\n'] ∧
      (∃ r ∈ reportedCalls "**save(x)**: Writes\nlike **drop()** does\n  **load()**\n".toList,
        r.1.start = 43 ∧ r.1.value = ⟨"load".toList, []⟩) ∧
      (Signature.mk "drop".toList []).IsCall ∧
      ¬ ∃ r ∈ reportedCalls "**save(x)**: Writes\nlike **drop()** does\n  **load()**\n".toList,
        r.1.start = 25 ∧ r.1.value = ⟨"drop".toList, []⟩ := by
  have load : (Signature.mk "load".toList []).IsCall :=
    ⟨by decide, List.all_eq_true.1 (by decide), by simp⟩
  have drop : (Signature.mk "drop".toList []).IsCall :=
    ⟨by decide, List.all_eq_true.1 (by decide), by simp⟩
  have here : (41, "  **load()**\n".toList)
      ∈ positionedLines "**save(x)**: Writes\nlike **drop()** does\n  **load()**\n".toList := by decide +kernel
  have begins : trimStart "  **load()**\n".toList = (Signature.mk "load".toList []).mark ++ ['\n'] := by decide +kernel
  obtain ⟨-, ⟨-, -, atStart, anywhere⟩, -⟩ :=
    extract_keepsMarks "**save(x)**: Writes\nlike **drop()** does\n  **load()**\n" {}
  refine ⟨load, here, begins, atStart 41 _ _ ['\n'] here load begins, drop, ?_⟩
  -- the block of the first signature reaches from 11 to 41
  have taken := anywhere "**save(x)**: Writes\nlike ".toList ⟨"drop".toList, []⟩ " does\n  **load()**\n".toList drop
    (by decide +kernel)
  exact taken.not.2 (by decide +kernel)

end SpecCoverage.Specifications
