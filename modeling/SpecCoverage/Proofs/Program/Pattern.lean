import SpecCoverage.Program.Pattern
import SpecCoverage.Proofs.Program.Keeps

/-!
# Patterns keep their place

The rules of a grammar are assumed to keep their place (`Grammar.Keeps`); then the rules that are built from them do.
A pattern is no declaration, so it may be extended by an ascription.
-/

namespace SpecCoverage.Program

variable {src : List Char} {s : State} {α : Type} [HasTrees α] {g : Grammar} {cx : Context}

/-- The rules of the grammar keep their place, and a target that is declared is a pattern.  An element is read ahead of
the current token, up to the end of a lexeme. -/
structure Grammar.Keeps (src : List Char) (g : Grammar) : Prop where
  assignment : ∀ cx s, Program.Keeps src s (g.assignment cx)
  expression : ∀ cx s, Program.Keeps src s (g.expression cx)
  binary : ∀ cx s, Program.Keeps src s (g.binary cx)
  unary : ∀ cx s, Program.Keeps src s (g.unary cx)
  leftHand : ∀ cx calls s, Program.Keeps src s (g.leftHand cx calls)
  binding : ∀ cx s, Program.Keeps src s (g.binding cx)
  statement : ∀ cx s, Program.Keeps src s (g.statement cx)
  listed : ∀ cx s, Program.Keeps src s (g.listed cx)
  moduleItem : ∀ cx s, Program.Keeps src s (g.moduleItem cx)
  type : ∀ cx s, Program.Keeps src s (g.type cx)
  pattern : ∀ cx, Gives (fun t _ => t.kind.isPlain = true) (g.binding cx)
  element : ∀ cx s start, Within src start → start.head? = some '<' → s.token.startOffset ≤ start.offset →
    Runs Moved src s (g.element cx start) fun found t => AllSound src found ∧ Closed src t found.2

attribute [grind ←] Grammar.Keeps.assignment Grammar.Keeps.expression Grammar.Keeps.binary Grammar.Keeps.unary
  Grammar.Keeps.leftHand Grammar.Keeps.binding Grammar.Keeps.statement Grammar.Keeps.listed Grammar.Keeps.moduleItem
  Grammar.Keeps.type

/-- A key that has a name is one token, and a method may begin with it. -/
theorem runs_propertyKey (hg : g.Keeps src) : Runs Step src s (propertyKey g cx) fun key _ =>
    AllSound src key ∧ key.tree.kind = .key ∧ (key.name.isSome = true → BeginsMethod s.token.kind) := by
  have key : ∀ {t children name isIdentifier}, AllSound src children →
      (name.isSome = true → BeginsMethod s.token.kind) → Runs Step src t (do
        return (⟨← finish s.token.startOffset .key children, name, isIdentifier, s.token.startOffset⟩ : PropertyKey))
      fun key _ => AllSound src key ∧ key.tree.kind = .key ∧ (key.name.isSome = true → BeginsMethod s.token.kind) :=
    fun hchildren hname => ⟨(runs_pure ⟨by simpa using hchildren, rfl, hname⟩).step⟩
  refine runs_here (runs_kind ?_)
  split
  · next h => exact runs_bind (keeps_advance (by simp [h])).runs fun _ t _ _ => key (by simp) fun _ => h ▸ .name
  · next h =>
    refine runs_refuseIf_bind fun _ => runs_bind (keeps_advance (by simp [h])).runs fun _ t _ _ => ?_
    exact key (by simp) fun _ => h ▸ .string
  · next h =>
    refine runs_refuseIf_bind fun _ => runs_bind (keeps_advance (by simp [h])).runs fun _ t _ _ => ?_
    exact key (by simp) nofun
  · next h => exact runs_bind (keeps_advance (by simp [h])).runs fun _ t _ _ => key (by simp) nofun
  · refine runs_bind keeps_expectSymbol.runs fun _ t _ _ => runs_bind (hg.assignment _ _).runs fun computed t _ h => ?_
    exact runs_bind keeps_expectSymbol.runs fun _ t _ _ => key (by simpa using h) nofun

theorem keeps_propertyKey (hg : g.Keeps src) : Keeps src s (propertyKey g cx) :=
  (runs_propertyKey hg).keeps fun _ _ => And.left

theorem keeps_withDefault (hg : g.Keeps src) {start : Nat} {pattern : Tree} (h : Sound src pattern) :
    Keeps src s (withDefault g cx start pattern) := by
  unfold withDefault
  grind

private theorem keeps_boundVariable : Keeps src s (boundVariable cx) := by
  unfold boundVariable
  grind

private theorem keeps_arrayElement (hg : g.Keeps src) : Keeps src s (arrayElement g cx) := by
  unfold arrayElement
  grind [keeps_withDefault, sound_of_isPlain]

private theorem keeps_objectElement (hg : g.Keeps src) : Keeps src s (objectElement g cx) := by
  refine keeps_here.2 (keeps_bind keeps_eatSymbol fun rest t _ => keeps_ite (fun _ => ?_) fun _ => ?_)
  · grind [keeps_boundVariable]
  · refine keeps_current.2 (keeps_bind (keeps_propertyKey hg) fun key t hkey => ?_)
    refine keeps_bind keeps_eatSymbol fun colon t _ => keeps_ite (fun _ => ?_) fun _ => ?_
    · grind [keeps_withDefault]
    · split <;> grind [keeps_withDefault, sound_of_isPlain]

theorem keeps_bindingTarget (hg : g.Keeps src) : Keeps src s (bindingTarget g cx) := by
  unfold bindingTarget
  grind [keeps_arrayElement, keeps_objectElement, keeps_boundVariable]

theorem gives_bindingTarget : Gives (fun t _ => t.kind.isPlain = true) (bindingTarget g cx) := by
  refine gives_bind fun start => gives_bind fun array => gives_ite ?_ (gives_bind fun object => gives_ite ?_ ?_)
  · exact gives_bind fun _ => gives_finish fun _ _ => rfl
  · exact gives_bind fun _ => gives_finish fun _ _ => rfl
  · exact gives_bind fun _ => gives_bind fun _ => gives_finish fun _ _ => rfl

/-! ## Ascriptions -/

private theorem sound_ascribed {pattern ascription : Tree} (plain : pattern.kind.isPlain = true) (h : Sound src pattern)
    (hascription : Sound src ascription) : Sound src (ascribed pattern ascription) := by
  obtain ⟨kind, extent, children⟩ := pattern
  have hchildren : AllSound src children := (sound_node.1 h).2
  exact sound_of_isPlain plain (by grind)

theorem keeps_ascription? (hg : g.Keeps src) : Keeps src s (ascription? g cx) := by
  refine keeps_bind keeps_eatSymbolIf fun colon t _ => keeps_ite (fun _ => ?_) fun _ => keeps_pure allSound_none
  refine keeps_bind (hg.type _ _) fun type t htype => keeps_pure ?_
  grind [sound_of_isPlain]

theorem keeps_withAscription (hg : g.Keeps src) {pattern : Tree} (plain : pattern.kind.isPlain = true)
    (h : Sound src pattern) : Keeps src s (withAscription g cx pattern) := by
  refine keeps_bind (keeps_ascription? hg) fun ascription t hascription => ?_
  split <;> grind [sound_ascribed]

/-! ## Patterns that were read as expressions -/

mutual

private theorem sound_toPattern {strict : Bool} {use : TargetUse} (t : Tree) {pattern : Tree} (h : Sound src t)
    (run : toPattern strict use t = .ok pattern) : Sound src pattern := by
  unfold toPattern at run
  split at run
  · next name e cs =>
    split at run
    · cases run
    · cases run
      exact sound_of_isPlain rfl (sound_node.1 h).2
  · next e cs =>
    obtain ⟨elements, helements, run⟩ := bind_eq_ok.1 run
    cases run
    exact sound_of_isPlain rfl (allSound_toElements cs (sound_node.1 h).2 helements)
  · next e cs =>
    obtain ⟨members, hmembers, run⟩ := bind_eq_ok.1 run
    cases run
    exact sound_of_isPlain rfl (allSound_toProperties cs (sound_node.1 h).2 hmembers)
  all_goals
    split at run <;> cases run
    exact h
termination_by sizeOf t

private theorem allSound_toElements {strict : Bool} {use : TargetUse} (ts : List Tree) {patterns : List Tree}
    (h : AllSound src ts) (run : toElements strict use ts = .ok patterns) : AllSound src patterns := by
  unfold toElements at run
  split at run
  · cases run
    exact allSound_nil
  · next e cs rest =>
    obtain ⟨hole, hrest⟩ := allSound_cons.1 h
    obtain ⟨others, hothers, run⟩ := bind_eq_ok.1 run
    cases run
    exact allSound_cons.2 ⟨hole, allSound_toElements rest hrest hothers⟩
  · next e inner rest =>
    split at run
    · obtain ⟨target, htarget, run⟩ := bind_eq_ok.1 run
      cases run
      have hinner : Sound src inner := by simpa using (allSound_cons.1 h).1
      simpa using sound_toPattern inner hinner htarget
    · cases run
  · next e left right rest =>
    have hparts : Sound src left ∧ Sound src right ∧ AllSound src rest := by simpa [and_assoc] using h
    obtain ⟨target, htarget, run⟩ := bind_eq_ok.1 run
    obtain ⟨others, hothers, run⟩ := bind_eq_ok.1 run
    cases run
    simp [sound_toPattern left hparts.1 htarget, allSound_toElements rest hparts.2.2 hothers, hparts]
  · next first rest _ _ _ =>
    have hparts : Sound src first ∧ AllSound src rest := by simpa using h
    obtain ⟨target, htarget, run⟩ := bind_eq_ok.1 run
    obtain ⟨others, hothers, run⟩ := bind_eq_ok.1 run
    cases run
    simp [sound_toPattern first hparts.1 htarget, allSound_toElements rest hparts.2 hothers]
termination_by sizeOf ts

private theorem allSound_toProperties {strict : Bool} {use : TargetUse} (ts : List Tree) {patterns : List Tree}
    (h : AllSound src ts) (run : toProperties strict use ts = .ok patterns) : AllSound src patterns := by
  unfold toProperties at run
  split at run
  · cases run
    exact allSound_nil
  · next name e _ rest =>
    split at run
    · cases run
    · obtain ⟨others, hothers, run⟩ := bind_eq_ok.1 run
      cases run
      simp [allSound_toProperties rest (allSound_cons.1 h).2 hothers]
  · next name e key value rest =>
    split at run
    · cases run
    · obtain ⟨others, hothers, run⟩ := bind_eq_ok.1 run
      cases run
      have hparts : Sound src key ∧ Sound src value ∧ AllSound src rest := by simpa [and_assoc] using h
      simp [allSound_toProperties rest hparts.2.2 hothers, hparts]
  · next e key e' left right rest =>
    have hparts : Sound src key ∧ Sound src left ∧ Sound src right ∧ AllSound src rest := by simpa [and_assoc] using h
    obtain ⟨target, htarget, run⟩ := bind_eq_ok.1 run
    obtain ⟨others, hothers, run⟩ := bind_eq_ok.1 run
    cases run
    simp [sound_toPattern left hparts.2.1 htarget, allSound_toProperties rest hparts.2.2.2 hothers, hparts]
  · next e key value rest _ =>
    have hparts : Sound src key ∧ Sound src value ∧ AllSound src rest := by simpa [and_assoc] using h
    obtain ⟨target, htarget, run⟩ := bind_eq_ok.1 run
    obtain ⟨others, hothers, run⟩ := bind_eq_ok.1 run
    cases run
    simp [sound_toPattern value hparts.2.1 htarget, allSound_toProperties rest hparts.2.2 hothers, hparts]
  · next e inner rest =>
    have hinner : Sound src inner := by simpa using (allSound_cons.1 h).1
    obtain ⟨target, htarget, run⟩ := bind_eq_ok.1 run
    split at run
    · cases run
    · cases run
    · cases run
      simpa using sound_toPattern inner hinner htarget
    · cases run
  · cases run
termination_by sizeOf ts

end

theorem keeps_toTarget_bind {strict : Bool} {t : Tree} {next : Tree → Parse α} (h : Sound src t)
    (hnext : ∀ target, Sound src target → Keeps src s (next target)) : Keeps src s (toTarget strict t >>= next) :=
  keeps_lift_bind fun target run => hnext target (sound_toPattern t h run)

theorem keeps_toParameter {strict : Bool} {t : Tree} (h : Sound src t) : Keeps src s (toParameter strict t) := by
  unfold toParameter
  split
  · next e left right =>
    have hparts : Sound src left ∧ Sound src right := by simpa [and_assoc] using h
    refine keeps_bind (keeps_lift fun _ run => allSound_tree.2 (sound_toPattern left hparts.1 run)) ?_
    exact fun target t htarget => keeps_pure (by simpa using ⟨allSound_tree.1 htarget, hparts.2⟩)
  · exact keeps_pure (allSound_tree.2 h)
  · exact keeps_pure (allSound_tree.2 h)
  · next e inner =>
    have hinner : Sound src inner := by simpa [and_assoc] using h
    refine keeps_bind (keeps_lift fun _ run => allSound_tree.2 (sound_toPattern inner hinner run)) ?_
    exact fun target t htarget => keeps_pure (by simpa using htarget)
  · exact keeps_lift fun _ run => allSound_tree.2 (sound_toPattern t h run)

/-- The pattern of a parameter has the kind of a pattern. -/
private theorem isPlain_toPattern {strict : Bool} {t pattern : Tree}
    (run : toPattern strict .parameter t = .ok pattern) :
    pattern.kind.isPlain = true := by
  unfold toPattern at run
  split at run
  case h_2 | h_3 =>
    obtain ⟨children, -, run⟩ := bind_eq_ok.1 run
    cases run
    rfl
  all_goals split at run <;> cases run
  all_goals first | rfl | contradiction

theorem gives_toParameter {strict : Bool} {t : Tree} :
    Gives (fun t _ => t.kind.isPlain = true) (toParameter strict t) := by
  unfold toParameter
  split
  · exact gives_bind fun _ => gives_pure fun _ => rfl
  · exact gives_pure fun _ => rfl
  · exact gives_pure fun _ => rfl
  · exact gives_bind fun _ => gives_pure fun _ => rfl
  · intro s pattern u run
    exact isPlain_toPattern (lift_ok run).1

end SpecCoverage.Program
