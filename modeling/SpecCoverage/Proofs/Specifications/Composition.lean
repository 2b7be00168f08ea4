import SpecCoverage.Proofs.Documents.Block
import SpecCoverage.Proofs.Documents.Fence
import SpecCoverage.Proofs.Sorting
import SpecCoverage.Proofs.Specifications.Sections

/-!
# Documents in parts

A heading begins anew.  If the first part of a document consists of whole lines with its fences in pairs, and
the second part begins with a heading, then the specifications of the document are those of the first part and
then those of the second (`extract_append`).  Each rule is treated apart: it finds in the whole what it finds in
the first part, in front of the place where the parts meet, and what it finds in the second part, moved by the
bytes of the first (`FindsApart`).  The four rules are bound in different ways:

* a call signature and a bold bullet stand in one line, and their blocks stop at the heading;
* between the parts no fenced block is open;
* the heading settles whether mentions count, whatever stood in front of it.
-/

namespace SpecCoverage.Specifications

open Documents Sorting Text

/-- What is found in a text that has `offset` more bytes in front. -/
def Found.shift (offset : Nat) (f : Found) : Found := ⟨offset + f.position, f.specification⟩

/-- Whether the first line of a text is a heading. -/
def BeginsWithHeading (cs : List Char) : Prop := ∃ line rest, lines cs = line :: rest ∧ isHeading (trim line) = true

private theorem BeginsWithHeading.beginsWithBoundary {cs : List Char} (heading : BeginsWithHeading cs) :
    BeginsWithBoundary cs := by
  obtain ⟨line, rest, hcs, hline⟩ := heading
  refine ⟨line, rest, hcs, ?_⟩
  have trimmed : trim line <+: trimStart line := by
    unfold trim trimEnd
    rw [← List.reverse_suffix, List.reverse_reverse]
    exact List.dropWhile_suffix _
  obtain ⟨title, h⟩ : ['#', '#'] <+: trimStart line := (List.isPrefixOf_iff_prefix.1 hline).trans trimmed
  unfold isBlockBoundary
  rw [← h]
  simp

/-! ## Marks with a description -/

theorem callSignature_isLineBound : IsLineBound callSignature :=
  .behind (by decide) <| .run rfl fun _ => .behind (by decide) <| .takeWhile (by decide) fun _ =>
    .behind (by decide) <| isLineBound_optionally (by decide) _

theorem boldBullet_isLineBound : IsLineBound boldBullet := by
  have closed (name : List Char) : IsLineBound fun cs =>
      (behind? "**".toList cs).bind fun rest => some (name, optionally [':'] rest) :=
    .behind (by decide) <| isLineBound_optionally (by decide) _
  have named := @IsLineBound.run _ isNameChar rfl _ closed
  exact @IsLineBound.dropWhile _ _ rfl (fun cs => (behind? ['-'] cs).bind _) <| .behind (by decide) <|
    @IsLineBound.dropWhile _ _ rfl (fun cs => (behind? "**".toList cs).bind _) <| .behind (by decide) named

private theorem describedMatches_shift {α : Type} (a b : List Char) (consumed : Nat) (found : List (Match α)) :
    describedMatches (a ++ b) consumed (found.map (Match.shift (byteLength a)))
      = (describedMatches b (consumed - byteLength a) found).map fun (m, block) =>
          (m.shift (byteLength a), block.shift (byteLength a)) := by
  induction found generalizing consumed with
  | nil => rfl
  | cons m rest ih =>
    have same : (m.shift (byteLength a)).start < consumed ↔ m.start < consumed - byteLength a := by
      simp only [Match.shift]
      omega
    simp only [List.map_cons, describedMatches, same]
    split
    · exact ih consumed
    · have moved : blockAt (a ++ b) (m.shift (byteLength a)).stop = (blockAt b m.stop).shift (byteLength a) :=
        blockAt_add a b m.stop
      have consumed_eq : ((blockAt b m.stop).shift (byteLength a)).stop - byteLength a = (blockAt b m.stop).stop :=
        Nat.add_sub_cancel_left ..
      rw [moved, ih, consumed_eq]
      rfl

/-- The blocks of the first part stop at the heading, so that nothing of the second part is consumed. -/
private theorem describedMatches_append {α : Type} {a b : List Char} (whole : IsWhole a) (heading : BeginsWithHeading b)
    {first : List (Match α)} (inLine : ∀ m ∈ first, m.StopsInLine a) (second : List (Match α))
    {consumed : Nat} (hconsumed : consumed ≤ byteLength a) :
    describedMatches (a ++ b) consumed (first ++ second.map (Match.shift (byteLength a)))
      = describedMatches a consumed first ++ (describedMatches b 0 second).map fun (m, block) =>
          (m.shift (byteLength a), block.shift (byteLength a)) := by
  induction first generalizing consumed with
  | nil => rw [List.nil_append, describedMatches_shift, Nat.sub_eq_zero_of_le hconsumed]; rfl
  | cons m rest ih =>
    have ih := @ih fun n hn => inLine n (List.mem_cons_of_mem _ hn)
    obtain ⟨front, back, rfl, hfeed, hstop⟩ := inLine m List.mem_cons_self
    simp only [List.cons_append, describedMatches]
    split
    · exact ih hconsumed
    · have block_eq : blockAt (front ++ back ++ b) m.stop = blockAt (front ++ back) m.stop := by
        rw [hstop]
        exact blockAt_append whole (List.ne_nil_of_mem hfeed) heading.beginsWithBoundary
      have block_le : (blockAt (front ++ back) m.stop).stop ≤ byteLength (front ++ back) := by
        rw [hstop]
        exact stop_blockAt_le
      rw [block_eq, ih block_le]
      rfl

/-! ## Rules -/

/-- A rule finds in the whole what it finds in the first part and, behind it, what it finds in the second. -/
structure FindsApart (rule : List Char → Weights → List Found) (a b : List Char) (weights : Weights) : Prop where
  append : rule (a ++ b) weights = rule a weights ++ (rule b weights).map (Found.shift (byteLength a))
  position_lt : ∀ f ∈ rule a weights, f.position < byteLength a

section

variable {a b : List Char}

private theorem findsApart_callSignatures (whole : IsWhole a) (heading : BeginsWithHeading b) (weights : Weights) :
    FindsApart callSignatures a b weights where
  append := by
    unfold callSignatures
    rw [allMatches_append callSignature_isLineBound whole, describedMatches_append whole heading
      (fun m hm => stopsInLine_of_mem_allMatches callSignature_isLineBound whole hm) _ (Nat.zero_le _)]
    simp only [List.map_append, List.map_map]
    rfl
  position_lt f hf := by
    obtain ⟨⟨m, block⟩, hm, rfl⟩ := List.mem_map.1 hf
    exact start_lt_of_mem_allMatches (mem_of_mem_describedMatches hm)

theorem boldBulletMatches_append (whole : IsWhole a) (b : List Char) :
    boldBulletMatches (a ++ b) = boldBulletMatches a ++ (boldBulletMatches b).map (Match.shift (byteLength a)) := by
  unfold boldBulletMatches
  rw [positionedLines_append whole, List.filterMap_append, List.filterMap_map, List.map_filterMap]
  congr 2
  funext ⟨position, line⟩
  simp only [Function.comp_apply, Option.map_map]
  congr 1
  funext ⟨name, rest⟩
  simp [Match.shift, Nat.add_assoc]

theorem exists_line_of_mem_boldBulletMatches {m : Match (List Char)} (h : m ∈ boldBulletMatches a) :
    ∃ line rest, (m.start, line) ∈ positionedLines a ∧ boldBullet line = some (m.value, rest) ∧
      m.stop = m.start + (byteLength line - byteLength rest) := by
  obtain ⟨⟨position, line⟩, hmem, hline⟩ := List.mem_filterMap.1 h
  obtain ⟨⟨name, rest⟩, read, rfl⟩ := Option.map_eq_some_iff.1 hline
  exact ⟨line, rest, hmem, read, rfl⟩

theorem stopsInLine_of_mem_boldBulletMatches (whole : IsWhole a) {m : Match (List Char)}
    (h : m ∈ boldBulletMatches a) : m.StopsInLine a := by
  obtain ⟨line, rest, hmem, read, hstop⟩ := exists_line_of_mem_boldBulletMatches h
  obtain ⟨hline, front, back, ha, hstart⟩ := exists_of_mem_positionedLines hmem
  have hfeed := boldBullet_isLineBound.mem (whole.mem_lineFeed_of_mem_lines hline) read
  obtain ⟨found, rfl⟩ := boldBullet_isLineBound.suffix read
  refine ⟨front ++ found, rest ++ back, by simp [ha], List.mem_append_left _ hfeed, ?_⟩
  rw [hstop, hstart, byteLength_append, byteLength_append, Nat.add_sub_cancel]

private theorem findsApart_boldBullets (whole : IsWhole a) (heading : BeginsWithHeading b) (weights : Weights) :
    FindsApart boldBullets a b weights where
  append := by
    unfold boldBullets
    rw [boldBulletMatches_append whole, describedMatches_append whole heading
      (fun m hm => stopsInLine_of_mem_boldBulletMatches whole hm) _ (Nat.zero_le _)]
    simp only [List.map_append, List.map_map]
    rfl
  position_lt f hf := by
    obtain ⟨⟨m, block⟩, hm, rfl⟩ := List.mem_map.1 hf
    obtain ⟨line, rest, hmem, -, -⟩ := exists_line_of_mem_boldBulletMatches (mem_of_mem_describedMatches hm)
    exact start_lt_of_mem_positionedLines hmem

private theorem definitionsIn_shift (weights : Weights) (offset : Nat) (block : ScriptBlock) :
    definitionsIn weights (block.shift offset) = (definitionsIn weights block).map (Found.shift offset) := by
  unfold definitionsIn
  rw [List.map_map]
  congr 1
  funext m
  simp [Found.shift, ScriptBlock.shift, Nat.add_assoc]

private theorem findsApart_codeBlocks (whole : IsWhole a) (even : fenceCount a % 2 = 0) (weights : Weights) :
    FindsApart codeBlocks a b weights where
  append := by
    unfold codeBlocks
    rw [scriptBlocks_append whole even, List.flatMap_append, List.flatMap_map, List.map_flatMap]
    simp only [definitionsIn_shift]
  position_lt f hf := by
    obtain ⟨block, hblock, hf⟩ := List.mem_flatMap.1 hf
    obtain ⟨m, hm, rfl⟩ := List.mem_map.1 hf
    have inBody := start_lt_of_mem_allMatches (List.mem_filter.1 hm).1
    have inText := stop_le_of_mem_scriptBlocks hblock
    show block.start + m.start < byteLength a
    omega

private theorem sectionMentionsFrom_shift (weights : Weights) (offset : Nat) (inSection : Bool)
    (ls : List (Nat × List Char)) :
    sectionMentionsFrom weights inSection (ls.map fun (start, line) => (offset + start, line))
      = (sectionMentionsFrom weights inSection ls).map (Found.shift offset) := by
  induction ls generalizing inSection with
  | nil => rfl
  | cons first rest ih =>
    obtain ⟨position, line⟩ := first
    simp only [List.map_cons, sectionMentionsFrom]
    split
    · exact ih _
    · rw [ih, List.map_append]
      cases inSection with
      | false => rfl
      | true => cases itemMention? weights (trim line) <;> rfl

/-- A heading settles whether mentions count. -/
private theorem sectionMentionsFrom_append_heading {position : Nat} {line : List Char}
    (heading : isHeading (trim line) = true)
    (weights : Weights) (inSection : Bool) (ls rest : List (Nat × List Char)) :
    sectionMentionsFrom weights inSection (ls ++ (position, line) :: rest)
      = sectionMentionsFrom weights inSection ls
        ++ sectionMentionsFrom weights false ((position, line) :: rest) := by
  rw [sectionMentionsFrom_append]
  simp only [sectionMentionsFrom, heading, if_true]

private theorem findsApart_sectionMentions (whole : IsWhole a) (heading : BeginsWithHeading b) (weights : Weights) :
    FindsApart sectionMentions a b weights where
  append := by
    obtain ⟨line, rest, hb, hline⟩ := heading
    have moved := sectionMentionsFrom_shift weights (byteLength a) false (positionedLines b)
    unfold sectionMentions
    rw [positionedLines_append whole, ← moved]
    simp only [positionedLines, hb, withPositions, List.map_cons]
    exact sectionMentionsFrom_append_heading hline weights false _ _
  position_lt f hf := by
    obtain ⟨line, hmem⟩ := mem_of_mem_sectionMentionsFrom hf
    exact start_lt_of_mem_positionedLines hmem

end

/-! ## The whole -/

/-- What lies in front of the meeting place is what the rule has found in the first part. -/
private theorem FindsApart.filter_eq {rule : List Char → Weights → List Found} {a b : List Char} {weights : Weights}
    (apart : FindsApart rule a b weights) :
    ((rule (a ++ b) weights).filter fun f => f.position < byteLength a) = rule a weights ∧
      ((rule (a ++ b) weights).filter fun f => !decide (f.position < byteLength a))
        = (rule b weights).map (Found.shift (byteLength a)) := by
  have before : ∀ f ∈ rule a weights, f.position < byteLength a := apart.position_lt
  have behind : ∀ f ∈ (rule b weights).map (Found.shift (byteLength a)), ¬ f.position < byteLength a := by
    intro f hf
    obtain ⟨g, -, rfl⟩ := List.mem_map.1 hf
    exact Nat.not_lt.2 (Nat.le_add_right _ _)
  rw [apart.append, List.filter_append, List.filter_append]
  constructor
  · rw [List.filter_eq_self.2 fun f hf => decide_eq_true (before f hf),
      List.filter_eq_nil_iff.2 fun f hf => by simpa using behind f hf, List.append_nil]
  · rw [List.filter_eq_nil_iff.2 fun f hf => by simpa using before f hf,
      List.filter_eq_self.2 fun f hf => by simpa using behind f hf, List.nil_append]

/-- The specifications of a document in two parts are those of the first and then those of the second, if the
first part consists of whole lines, its fences stand in pairs, and the second part begins with a heading. -/
theorem extract_append {a b : String} (whole : IsWhole a.toList) (even : fenceCount a.toList % 2 = 0)
    (heading : BeginsWithHeading b.toList) (weights : Weights) :
    extract (a ++ b) weights = extract a weights ++ extract b weights := by
  obtain ⟨calls, calls'⟩ := (findsApart_callSignatures whole heading weights).filter_eq
  obtain ⟨bullets, bullets'⟩ := (findsApart_boldBullets whole heading weights).filter_eq
  obtain ⟨code, code'⟩ := (findsApart_codeBlocks (b := b.toList) whole even weights).filter_eq
  obtain ⟨mentions, mentions'⟩ := (findsApart_sectionMentions whole heading weights).filter_eq
  have parts := @sorted_eq_append Found (fun f g => f.position ≤ g.position)
    (fun f => f.position < byteLength a.toList) (fun f g hf hg => by
      simp only [decide_eq_true_eq, decide_eq_false_iff_not] at hf hg ⊢
      omega) (foundByRules (a.toList ++ b.toList) weights)
  have before : (foundByRules (a.toList ++ b.toList) weights).filter
      (fun f => decide (f.position < byteLength a.toList)) = foundByRules a.toList weights := by
    simp only [foundByRules, List.filter_append, calls, bullets, code, mentions]
  have behind : (foundByRules (a.toList ++ b.toList) weights).filter
      (fun f => !decide (f.position < byteLength a.toList))
        = (foundByRules b.toList weights).map (Found.shift (byteLength a.toList)) := by
    simp only [foundByRules, List.filter_append, List.map_append, calls', bullets', code', mentions']
  have moved := @sorted_map Found Found (fun f g => f.position ≤ g.position) (fun f g => f.position ≤ g.position)
    (Found.shift (byteLength a.toList)) (fun f g => by simp [Found.shift]) (foundByRules b.toList weights)
  unfold extract
  rw [String.toList_append, parts, before, behind, moved, List.map_append, List.map_map]
  rfl

/-- A bullet behind a block of code, and a section whose heading cuts off the description of the bullet. -/
theorem extract_append_features :
    IsWhole "```js\nsave(data) \x7b\x7d\n```\n**load(path)**: Reads\na file\n".toList ∧
      fenceCount "```js\nsave(data) \x7b\x7d\n```\n**load(path)**: Reads\na file\n".toList % 2 = 0 ∧
      BeginsWithHeading "## Features\n- Cleans up with sweep()\n".toList ∧
      extract ("```js\nsave(data) \x7b\x7d\n```\n**load(path)**: Reads\na file\n"
          ++ "## Features\n- Cleans up with sweep()\n") {} =
        extract "```js\nsave(data) \x7b\x7d\n```\n**load(path)**: Reads\na file\n" {}
          ++ extract "## Features\n- Cleans up with sweep()\n" {} := by
  have whole : IsWhole "```js\nsave(data) \x7b\x7d\n```\n**load(path)**: Reads\na file\n".toList :=
    .inr (by decide +kernel)
  have even : fenceCount "```js\nsave(data) \x7b\x7d\n```\n**load(path)**: Reads\na file\n".toList % 2 = 0 := by
    decide +kernel
  have heading : BeginsWithHeading "## Features\n- Cleans up with sweep()\n".toList :=
    ⟨"## Features\n".toList, ["- Cleans up with sweep()\n".toList], by decide +kernel, by decide +kernel⟩
  exact ⟨whole, even, heading, extract_append whole even heading {}⟩

end SpecCoverage.Specifications
