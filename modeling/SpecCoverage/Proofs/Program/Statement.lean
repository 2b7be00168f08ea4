import SpecCoverage.Program.Statement
import SpecCoverage.Proofs.Program.Declaration

/-!
# Statements keep their place

A function in a branch or behind a label begins at its first word, and so do the variables in the head of a loop.
-/

namespace SpecCoverage.Program

variable {src : List Char} {s t : State} {g : Grammar} {cx : Context} {start : Nat}

/-! ## Parts of statements -/

private theorem keeps_blockStatement (hg : g.Keeps src) : Keeps src s (blockStatement g cx) := by
  unfold blockStatement
  grind [keeps_statementsUntilBrace]

private theorem keeps_condition (hg : g.Keeps src) : Keeps src s (condition g cx) := by
  unfold condition
  grind

private theorem keeps_loopBody (hg : g.Keeps src) : Keeps src s (loopBody g cx) := hg.statement _ _

/-! ## Loops -/

private theorem keeps_expressionUntil (hg : g.Keeps src) {close : String} :
    Keeps src s (expressionUntil g cx close) := by
  unfold expressionUntil
  grind

private theorem keeps_countingRest (hg : g.Keeps src) {first : List Tree} (h : AllSound src first) :
    Keeps src s (countingRest g cx start first) := by
  unfold countingRest
  grind [keeps_expressionUntil, keeps_loopBody]

private theorem keeps_refuseIterated_bind {overKeys isVar : Bool} {declared : Tree} {next : Unit → Parse Tree}
    (h : Keeps src s (next ())) : Keeps src s (refuseIterated cx overKeys isVar declared >>= next) := by
  unfold refuseIterated
  split
  · exact keeps_refuseAtIf_bind.2 fun _ => h
  · exact ⟨⟨fun _ _ _ => nofun⟩⟩

private theorem keeps_loopOver (hg : g.Keeps src) {target : Tree} (h : Sound src target)
    (goesOn : s.token.kind ≠ .endOfText) :
    Keeps src s (loopOver g cx start target) := by
  unfold loopOver
  grind [keeps_loopBody]

private theorem keeps_forStatement (hg : g.Keeps src) : Keeps src s (forStatement g cx) := by
  refine keeps_here.2 (keeps_bind keeps_expectWord fun _ t _ => keeps_atWord.2 (keeps_refuseIf_bind.2 fun _ => ?_))
  refine keeps_bind keeps_eatWord fun awaited t _ => keeps_bind keeps_expectSymbol fun _ t _ => ?_
  extract_lets head
  refine keeps_atSymbol.2 (keeps_ite (fun _ => keeps_countingRest hg allSound_nil) fun _ => keeps_current.2 ?_)
  refine keeps_asks asks_atAnyWord fun atWord hword => keeps_asks asks_atLet fun atLet hlet => ?_
  extract_lets declares rest
  have hrest : ∀ initial u, AllSound src initial → Keeps src u (rest initial) := by
    intro initial u hinitial
    have hsound : Sound src initial := allSound_tree.1 hinitial
    refine keeps_atAnyWord ⟨fun goesOn => keeps_atWord.2 (keeps_refuseIf_bind.2 fun _ => ?_), ?_⟩
    · refine keeps_ite (fun _ => keeps_refuseIterated_bind (keeps_loopOver hg hsound goesOn)) fun _ => ?_
      exact keeps_refuseAtIf_bind.2 fun _ => keeps_toTarget_bind hsound fun target h => keeps_loopOver hg h goesOn
    · exact keeps_refuseIf_bind.2 fun _ => keeps_countingRest hg (by simpa using hsound)
  clear_value rest
  refine keeps_ite (fun declared => ?_) fun _ => keeps_bind (hg.expression _ _) hrest
  have hstart : BeginsBinding t.token.kind := by
    rcases Bool.or_eq_true_iff.1 declared with here | here
    · obtain ⟨word, mem, kind⟩ := hword here
      exact ⟨word, by grind, kind⟩
    · exact ⟨"let", by simp, hlet here⟩
  exact keeps_bind (keeps_headVariables hg hstart) hrest

private theorem keeps_whileStatement (hg : g.Keeps src) : Keeps src s (whileStatement g cx) := by
  unfold whileStatement
  grind [keeps_condition, keeps_loopBody]

private theorem keeps_doStatement (hg : g.Keeps src) : Keeps src s (doStatement g cx) := by
  unfold doStatement
  grind [keeps_condition, keeps_loopBody]

/-! ## Branches -/

private theorem keeps_branch (hg : g.Keeps src) : Keeps src s (branch g cx) :=
  keeps_atWord.2 (keeps_ite (fun _ => keeps_here.2 (keeps_functionDeclaration hg (.inl rfl))) fun _ => hg.statement _ _)

private theorem keeps_ifStatement (hg : g.Keeps src) : Keeps src s (ifStatement g cx) := by
  unfold ifStatement
  grind [keeps_condition, keeps_branch]

private theorem keeps_switchCase (hg : g.Keeps src) : Keeps src s (switchCase g cx) := by
  refine keeps_here.2 (keeps_bind keeps_eatWord fun isDefault t _ => ?_)
  extract_lets rest
  have hrest : ∀ test u, AllSound src test → Keeps src u (rest test) := by
    intro test u htest
    grind
  clear_value rest
  grind

private theorem allSound_map_fst {cases : List (Tree × Bool)} (h : AllSound src cases) :
    AllSound src (cases.map Prod.fst) := by
  simp only [allSound_list, List.forall_mem_map] at h ⊢
  exact fun p mem => (h p mem).fst

private theorem keeps_switchStatement (hg : g.Keeps src) : Keeps src s (switchStatement g cx) := by
  unfold switchStatement
  grind [keeps_condition, keeps_switchCase, allSound_map_fst]

private theorem keeps_catchClause (hg : g.Keeps src) : Keeps src s (catchClause g cx) := by
  have block : ∀ (parameter : List Tree) t, AllSound src parameter → Keeps src t (do
      return parameter ++ [← blockStatement g cx]) := by
    intro parameter t h
    grind [keeps_blockStatement]
  refine keeps_bind keeps_eatSymbol fun _ t _ => keeps_ite (fun _ => ?_) fun _ => ?_
  case refine_2 => exact keeps_pure_bind.2 (block [] t allSound_nil)
  refine keeps_bind_of_gives (hg.binding _ _) (hg.pattern _) fun target t htarget plain => ?_
  refine keeps_bind (keeps_withAscription hg plain (allSound_tree.1 htarget)) fun target t htarget => ?_
  exact keeps_bind keeps_expectSymbol fun _ t _ => keeps_pure_bind.2 (block [target] t (by simpa using htarget))

private theorem keeps_tryStatement (hg : g.Keeps src) : Keeps src s (tryStatement g cx) := by
  unfold tryStatement
  grind [keeps_blockStatement, keeps_catchClause]

/-! ## Jumps and labels -/

private theorem keeps_jumpStatement (goesOn : s.token.kind ≠ .endOfText) : Keeps src s (jumpStatement cx) := by
  unfold jumpStatement
  grind

private theorem keeps_returnStatement (hg : g.Keeps src) : Keeps src s (returnStatement g cx) := by
  unfold returnStatement
  grind

private theorem keeps_throwStatement (hg : g.Keeps src) : Keeps src s (throwStatement g cx) := by
  unfold throwStatement
  grind

private theorem keeps_withStatement (hg : g.Keeps src) : Keeps src s (withStatement g cx) := by
  unfold withStatement
  grind [keeps_condition]

private theorem keeps_labelledStatement (hg : g.Keeps src) : Keeps src s (labelledStatement g cx) := by
  refine keeps_here.2 (keeps_bind keeps_variableName fun label t _ => keeps_bind keeps_expectSymbol fun _ t _ => ?_)
  refine keeps_refuseAtIf_bind.2 fun _ => ?_
  extract_lets inner rest
  have hrest : ∀ body u, AllSound src body → Keeps src u (rest body) := by
    intro body u hbody
    grind
  clear_value inner rest
  refine keeps_atWord.2 (keeps_ite (fun _ => ?_) fun _ => keeps_bind (hg.statement _ _) hrest)
  refine keeps_asks asks_peekIs fun _ _ => keeps_refuseIf_bind.2 fun _ => keeps_here.2 ?_
  exact keeps_bind (keeps_functionDeclaration hg (.inl rfl)) hrest

private theorem keeps_expressionStatement (hg : g.Keeps src) : Keeps src s (expressionStatement g cx) := by
  refine keeps_here.2 (keeps_asks tells_atAnyWord fun _ _ => keeps_atWord.2 (keeps_asks asks_peekIs fun _ _ => ?_))
  refine keeps_refuseIf_bind.2 fun _ => keeps_atWord.2 (keeps_asks asks_peekIs fun _ _ => ?_)
  refine keeps_refuseIf_bind.2 fun _ => ?_
  grind

/-! ## Statements -/

private theorem keeps_wordStatement (hg : g.Keeps src) {word : String} (kind : s.token.kind = .name word false) :
    Keeps src s (wordStatement g cx word) := by
  have goesOn : s.token.kind ≠ .endOfText := by simp [kind]
  refine keeps_ite (fun isVar => keeps_here.2 (keeps_variableStatement hg ?_)) fun _ => ?_
  · exact .inl ⟨rfl, "var", by simp, beq_iff_eq.1 isVar ▸ kind⟩
  refine keeps_ite (fun _ => keeps_ifStatement hg) fun _ => keeps_ite (fun _ => keeps_forStatement hg) fun _ => ?_
  refine keeps_ite (fun _ => keeps_whileStatement hg) fun _ => keeps_ite (fun _ => keeps_doStatement hg) fun _ => ?_
  refine keeps_ite (fun _ => keeps_switchStatement hg) fun _ => keeps_ite (fun _ => keeps_tryStatement hg) fun _ => ?_
  grind [keeps_jumpStatement, keeps_returnStatement, keeps_throwStatement, keeps_withStatement,
    keeps_expressionStatement]

theorem keeps_statement (hg : g.Keeps src) : Keeps src s (statement g cx) := by
  refine keeps_kind.2 ?_
  split
  · grind [keeps_blockStatement, keeps_expressionStatement]
  · refine keeps_asks asks_peekIs fun _ _ => keeps_ite (fun _ => keeps_labelledStatement hg) fun _ => ?_
    refine keeps_ite (fun _ => keeps_expressionStatement hg) fun plain => keeps_wordStatement hg ?_
    simp_all
  · exact keeps_expressionStatement hg

theorem keeps_listedStatement (hg : g.Keeps src) : Keeps src s (listedStatement g cx) := by
  refine keeps_bind (keeps_declaration? hg) fun declared t h => ?_
  split <;> grind [keeps_statement]

end SpecCoverage.Program
