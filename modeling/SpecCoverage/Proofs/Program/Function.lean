import SpecCoverage.Program.Function
import SpecCoverage.Proofs.Program.Type

/-!
# Functions keep their place

A body ends in its closing brace, and so does a function that has one.
-/

namespace SpecCoverage.Program

variable {src : List Char} {s t : State} {g : Grammar} {cx : Context} {start : Nat} {α : Type} [HasTrees α]

/-! ## Arguments and decorators -/

private theorem keeps_argument (hg : g.Keeps src) : Keeps src s (argument g cx) := by
  unfold argument
  grind

theorem keeps_callArguments (hg : g.Keeps src) : Keeps src s (callArguments g cx) := by
  unfold callArguments
  grind [keeps_argument]

private theorem keeps_decorator (hg : g.Keeps src) : Keeps src s (decorator g cx) := by
  refine keeps_here.2 (keeps_bind keeps_expectSymbol fun _ t _ => ?_)
  extract_lets rest
  have hrest : ∀ target t, Sound src target → Keeps src t (rest target) := by
    intro target t htarget
    grind [keeps_callArguments, keeps_typeArguments?]
  clear_value rest
  refine keeps_bind keeps_eatSymbol fun parenthesis t _ => keeps_ite (fun _ => by grind) fun _ => ?_
  refine keeps_here.2 (keeps_bind keeps_variableName fun name t _ => keeps_lastStop.2 ?_)
  refine keeps_bind (keeps_loop (by simp) fun object t hobject => ?_) fun target t htarget => ?_
  · grind
  · grind

theorem keeps_decorators (hg : g.Keeps src) : Keeps src s (decorators g cx) := by
  unfold decorators
  grind [keeps_decorator]

private theorem gives_decorator : Gives (fun t _ => t.kind = .decorator) (decorator g cx) := by
  refine gives_bind fun start => gives_bind fun _ => ?_
  extract_lets rest
  have hrest : ∀ target, Gives (fun t _ => t.kind = .decorator) (rest target) := by
    intro target
    have arguments : ∀ generics, Gives (fun t _ => t.kind = .decorator) (do
        let arguments ← if ← atSymbol "(" then callArguments g cx else pure []
        finish start .decorator (target :: generics ++ arguments)) := fun generics =>
      gives_bind fun _ => gives_ite (gives_bind fun _ => gives_finish fun _ _ => rfl)
        (gives_bind fun _ => gives_finish fun _ _ => rfl)
    exact gives_ite (gives_bind arguments) (gives_bind arguments)
  refine gives_bind fun _ => gives_ite (gives_bind fun _ => gives_bind fun _ => gives_bind hrest) ?_
  exact gives_bind fun _ => gives_bind fun _ => gives_bind fun _ => gives_bind hrest

theorem gives_decorators : Gives (fun found _ => ∀ d ∈ found, d.kind = .decorator) (decorators g cx) := by
  refine gives_repeated (gives_bind fun _ => gives_ite ?_ (gives_pure fun _ => by simp))
  exact gives_bind_of gives_decorator fun d _ hd => gives_pure fun _ => by simpa using hd

/-! ## Parameters -/

private theorem keeps_fieldModifiers {ofConstructor : Bool} : Keeps src s (fieldModifiers ofConstructor) := by
  unfold fieldModifiers
  grind

private theorem keeps_parameterPattern (hg : g.Keeps src) : Keeps src s (parameterPattern g cx) := by
  refine keeps_here.2 (keeps_bind keeps_eatSymbol fun rest t _ => keeps_ite (fun _ => ?_) fun _ => ?_)
  · grind [keeps_withAscription]
  · extract_lets given
    have hgiven : ∀ target t, AllSound src target → target.kind.isPlain = true → Keeps src t (given target) := by
      grind [keeps_withAscription, keeps_withDefault]
    clear_value given
    refine keeps_bind keeps_eatWordIf fun this t _ => keeps_ite (fun _ => ?_) fun _ => ?_
    · exact keeps_finish_bind.2 (hgiven _ t (by simp) rfl)
    · exact keeps_bind_of_gives (hg.binding _ _) (hg.pattern _) fun target t => hgiven target t

private theorem keeps_parameter (hg : g.Keeps src) {ofConstructor : Bool} :
    Keeps src s (parameter g cx ofConstructor) := by
  unfold parameter
  grind [keeps_decorators, keeps_fieldModifiers, keeps_parameterPattern]

private theorem keeps_parameters (hg : g.Keeps src) {ofConstructor : Bool} :
    Keeps src s (parameters g cx ofConstructor) := by
  unfold parameters
  grind [keeps_parameter]

private theorem gives_parameter {ofConstructor : Bool} :
    Gives (fun t _ => t.kind = .parameter) (parameter g cx ofConstructor) := by
  refine gives_bind fun start => gives_bind fun decorators => ?_
  have rest : Gives (fun t _ => t.kind = .parameter) (do
      let pattern ← parameterPattern g cx
      finish start .parameter (decorators ++ [pattern])) :=
    gives_bind fun _ => gives_finish fun _ _ => rfl
  exact gives_ite (gives_bind fun _ => rest) rest

private theorem gives_parameters {ofConstructor : Bool} :
    Gives (fun ts _ => ∀ t ∈ ts, t.kind = .parameter) (parameters g cx ofConstructor) := by
  exact gives_bind fun _ => gives_bind_of (gives_listedUntil gives_parameter) fun found _ h => gives_pure fun _ => h

/-! ## Bodies -/

theorem asks_asksForStrict : Asks asksForStrict s fun _ => True :=
  asks_bind (asks_glance _) fun _ _ => ⟨_, rfl, trivial⟩

private theorem runs_statementsUntilBrace (hg : g.Keeps src) :
    Runs Step src s (statementsUntilBrace g cx) fun statements t =>
    AllSound src statements ∧ Ends src IsClosingBrace s.token.startOffset t.lastStop := by
  refine runs_bind (Keeps.runs (by grind)) fun statements t step hstatements => ?_
  exact runs_bind runs_expectBrace fun _ u _ ends => runs_pure ⟨hstatements, ends.mono step.start_le⟩

theorem keeps_statementsUntilBrace (hg : g.Keeps src) : Keeps src s (statementsUntilBrace g cx) :=
  (runs_statementsUntilBrace hg).keeps fun _ _ => And.left

private theorem runs_functionBody (hg : g.Keeps src) {simple : Bool} :
    Runs Step src s (functionBody g cx simple) fun body t =>
    body.kind = .block ∧ Sound src body ∧ Ends src IsClosingBrace s.token.startOffset t.lastStop := by
  refine runs_here (runs_bind keeps_expectSymbol.runs fun _ t step _ => ?_)
  refine runs_asks asks_asksForStrict fun strict _ => runs_refuseIf_bind fun _ => ?_
  refine runs_bind (runs_statementsUntilBrace hg) fun statements u step' ⟨hstatements, ends⟩ => ?_
  exact runs_finish ⟨rfl, sound_of_isPlain rfl hstatements, ends.mono step.start_le⟩

private theorem keeps_functionBody (hg : g.Keeps src) {simple : Bool} : Keeps src s (functionBody g cx simple) :=
  (runs_functionBody hg).keeps fun _ _ h => allSound_tree.2 h.2.1

/-! ## Functions -/

theorem runs_functionRest (hg : g.Keeps src) {form : FunctionForm} {isAsync isGenerator : Bool} {before : List Tree}
    (hbefore : AllSound src before) :
    Runs Step src s (functionRest g cx start form isAsync isGenerator before) fun tree t => ∃ children,
      tree = .node (.function form) ⟨start, t.lastStop⟩ children ∧ AllSound src children ∧
      ((∀ b ∈ before, b.kind ≠ .block) → HasBlock children →
        (cx.ambient && cx.typescript) = false ∧ Ends src IsClosingBrace s.token.startOffset t.lastStop) := by
  unfold functionRest
  extract_lets inner
  clear_value inner
  refine runs_bind ((keeps_typeParameters? hg).runs.and_gives gives_typeParameters?) fun generics t₁ step₁ h₁ => ?_
  refine runs_bind ((keeps_parameters hg).runs.and_gives gives_parameters) fun parameters t₂ step₂ h₂ => ?_
  refine runs_bind ((keeps_resultAscription? hg).runs.and_gives gives_resultAscription?) fun result t₃ step₃ h₃ => ?_
  extract_lets withBody
  refine runs_atSymbol (runs_ite (fun _ => ?_) fun _ => ?_)
  · refine runs_refuseIf_bind fun noBody => runs_bind (runs_functionBody hg) fun body t₄ step₄ ⟨_, hbody, ends⟩ => ?_
    have first := step₁.trans (step₂.trans step₃)
    refine runs_finish ⟨_, rfl, ?_, fun _ _ => ⟨noBody, ends.mono first.start_le⟩⟩
    simp [hbefore, h₁.1, h₂.1, h₃.1, hbody]
  · refine runs_refuseIf_bind fun _ => runs_bind keeps_expectSemicolon.runs fun _ t₄ step₄ _ => ?_
    refine runs_finish ⟨_, rfl, ?_, fun hbefore hasBlock => ?_⟩
    · simp [hbefore, h₁.1, h₂.1, h₃.1]
    · obtain ⟨body, last, block⟩ := hasBlock
      have mem := List.mem_of_getLast? last
      grind

theorem keeps_functionRest (hg : g.Keeps src) {form : FunctionForm} {isAsync isGenerator : Bool} {before : List Tree}
    (plain : (Kind.function form).isPlain = true) (hbefore : AllSound src before) :
    Keeps src s (functionRest g cx start form isAsync isGenerator before) := by
  refine (runs_functionRest hg hbefore).keeps fun tree t ⟨children, htree, hchildren, _⟩ => ?_
  exact htree ▸ allSound_tree.2 (sound_of_isPlain plain hchildren)

theorem keeps_refuseAccessor {isGetter : Bool} {function : Tree} : Keeps src s (refuseAccessor isGetter function) :=
  keeps_refuseAtIf

theorem keeps_functionExpression (hg : g.Keeps src) {isAsync nameOptional : Bool} :
    Keeps src s (functionFromKeyword g cx start isAsync true nameOptional) := by
  unfold functionFromKeyword
  grind [keeps_functionRest]

/-- Where a declaration of a function may start: at `function`, at `async` in front of it, or where nothing has a
body. -/
def StartsFunction (src : List Char) (cx : Context) (start : Nat) (s : State) : Prop :=
  start = s.token.startOffset ∨ Begins src BeginsFunction start s.lastStop ∨
    (cx.ambient && cx.typescript) = true ∧ start ≤ s.lastStop

theorem StartsFunction.begins {src : List Char} {cx : Context} {start : Nat} (h : StartsFunction src cx start s)
    (keyword : Begins src (· = .name "function" false) s.token.startOffset t.lastStop) (le : s.lastStop ≤ t.lastStop) :
    start ≤ t.lastStop ∧ ((cx.ambient && cx.typescript) = false → Begins src BeginsFunction start t.lastStop) := by
  rcases h with rfl | begins | ⟨ambient, behind⟩
  · exact ⟨keyword.le, fun _ => keyword.imp fun _ => .inl⟩
  · exact ⟨Nat.le_trans begins.le le, fun _ => begins.mono le⟩
  · exact ⟨Nat.le_trans behind le, fun noBody => absurd (ambient.symm.trans noBody) nofun⟩

theorem keeps_functionDeclaration (hg : g.Keeps src) {isAsync nameOptional : Bool}
    (hstart : StartsFunction src cx start s) :
    Keeps src s (functionFromKeyword g cx start isAsync false nameOptional) := by
  suffices Runs Step src s (functionFromKeyword g cx start isAsync false nameOptional) fun tree _ =>
      AllSound src tree from this.keeps fun _ _ => id
  refine runs_bind runs_expectWord fun _ t step keyword => ?_
  obtain ⟨le, begins⟩ := hstart.begins keyword step.stop_le
  refine runs_bind keeps_eatSymbol.runs fun isGenerator t₁ step₁ _ => ?_
  extract_lets nameContext rest
  have hrest : ∀ name u, Step src t u → Runs Step src u (rest name) fun tree _ => AllSound src tree := by
    intro name u step
    refine ⟨fun hu tree v run => ?_⟩
    obtain ⟨step', children, rfl, hchildren, hblock⟩ := (runs_functionRest hg allSound_nil).step hu tree v run
    refine ⟨step', allSound_tree.2 (sound_function hchildren fun block => ?_)⟩
    obtain ⟨noBody, ends⟩ := hblock (by simp) block
    have : start ≤ u.token.startOffset := Nat.le_trans le (Nat.le_trans step.stop_le hu.behind)
    exact ⟨(begins noBody).mono (step.trans step').stop_le, ends.mono this⟩
  refine runs_asks tells_atAnySymbol fun anonymous _ => runs_ite (fun _ => hrest none t₁ step₁) fun _ => ?_
  exact runs_bind keeps_boundName.runs fun name t₂ step₂ _ => hrest (some name) t₂ (step₁.trans step₂)

theorem keeps_arrowRest (hg : g.Keeps src) {isAsync : Bool} {generics patterns result : List Tree}
    (hgenerics : AllSound src generics) (hpatterns : AllSound src patterns) (hresult : AllSound src result) :
    Keeps src s (arrowRest g cx start isAsync generics patterns result) := by
  have hparameters : AllSound src (patterns.map asParameter) := by
    simp only [allSound_list, List.forall_mem_map, asParameter] at hpatterns ⊢
    exact fun pattern mem => by simpa using hpatterns pattern mem
  unfold arrowRest
  grind [keeps_functionBody]

end SpecCoverage.Program
