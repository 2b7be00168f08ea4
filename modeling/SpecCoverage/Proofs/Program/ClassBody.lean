import SpecCoverage.Program.ClassBody
import SpecCoverage.Proofs.Program.Function

/-!
# Classes keep their place

A member begins where its first decorator, its first modifier or its key does.  The rules in front of the key leave the
state as it is unless one of these stands there (`Opens`), so the token that a method begins with is one of them.
-/

namespace SpecCoverage.Program

variable {src : List Char} {s t u : State} {g : Grammar} {cx : Context} {start : Nat}

instance : HasTrees Modifiers := ⟨fun _ => []⟩

@[simp, grind norm] theorem allSound_modifiers (m : Modifiers) : AllSound src m := allSound_of_trees_eq_nil rfl

private theorem keeps_modifiers : Keeps src s (modifiers cx) := by
  unfold modifiers
  refine keeps_bind (keeps_loop (by simp) fun words t _ => keeps_kind.2 ?_) (by grind)
  split <;> grind

private theorem keeps_staticBlock (hg : g.Keeps src) : Keeps src s (staticBlock g cx start) := by
  unfold staticBlock
  grind [keeps_statementsUntilBrace]

private theorem keeps_fieldRest (hg : g.Keeps src) {before : List Tree} (hbefore : AllSound src before) :
    Keeps src s (fieldRest g cx start before) := by
  unfold fieldRest
  grind [keeps_ascription?]

/-! ## The first token of a member -/

/-- The second state is the first one, or a member begins at the first one. -/
def Opens (s t : State) : Prop := t = s ∨ BeginsMethod s.token.kind

theorem Opens.trans (hst : Opens s t) (htu : Opens t u) : Opens s u := by
  rcases hst with rfl | begins
  · exact htu
  · exact .inr begins

theorem Opens.begins (h : Opens s t) (begins : BeginsMethod t.token.kind) : BeginsMethod s.token.kind := by
  rcases h with rfl | begins'
  · exact begins
  · exact begins'

/-- A rule in front of a key gives a fixed answer where no member begins. -/
private theorem runs_opens {α : Type} {rule : Parse α} {p : α → State → Prop} (h : Runs Step src s rule p)
    (stays : ¬ BeginsMethod s.token.kind → ∃ a, rule s = .ok (a, s)) :
    Runs Step src s rule fun a t => p a t ∧ Opens s t := by
  refine ⟨fun hs a t run => ⟨(h.step hs a t run).1, (h.step hs a t run).2, ?_⟩⟩
  by_cases begins : BeginsMethod s.token.kind
  · exact .inr begins
  · obtain ⟨_, stay⟩ := stays begins
    cases stay.symm.trans run
    exact .inl rfl

private theorem runs_decorators (hg : g.Keeps src) : Runs Step src s (decorators g cx) fun found t =>
    (AllSound src found ∧ ∀ d ∈ found, d.kind = .decorator) ∧ Opens s t := by
  refine runs_opens ((keeps_decorators hg).runs.and_gives gives_decorators) fun h => ⟨[], repeated_of_none ?_⟩
  have other : (s.token.kind == .symbol "@") = false := by
    refine Bool.eq_false_iff.2 fun at_ => h ?_
    rw [beq_iff_eq.1 at_]
    exact .decorator
  exact (bind_of_ok rfl).trans (by rw [other]; rfl)

private theorem runs_modifiers : Runs Step src s (modifiers cx) fun _ t => True ∧ Opens s t := by
  refine runs_opens (keeps_modifiers.runs.imp fun _ _ _ => trivial) fun h => ⟨⟨[]⟩, ?_⟩
  unfold modifiers
  generalize (if cx.typescript then scriptModifiers ++ typedModifiers else scriptModifiers) = known
  refine (bind_of_ok (loop_of_unchanged ((bind_of_ok rfl).trans ?_))).trans rfl
  cases kind : s.token.kind with
  | name word escaped => exact absurd (kind ▸ .name) h
  | _ => rfl

private theorem runs_eatGenerator : Runs Step src s (eatSymbol "*") fun _ t => True ∧ Opens s t := by
  refine runs_opens (keeps_eatSymbol.runs.imp fun _ _ _ => trivial) fun h => ⟨false, (bind_of_ok rfl).trans ?_⟩
  have other : (s.token.kind == .symbol "*") = false := by
    refine Bool.eq_false_iff.2 fun star => h ?_
    rw [beq_iff_eq.1 star]
    exact .generator
  rw [other]
  rfl

private theorem runs_memberKey (hg : g.Keeps src) : Runs Step src s (memberKey g cx) fun key _ =>
    AllSound src key ∧ (∀ k ∈ key, k.tree.kind = .key) ∧
      ((key.bind PropertyKey.name).isSome = true → BeginsMethod s.token.kind) := by
  refine runs_kind ?_
  split
  · next h =>
    exact runs_refuseIf_bind fun _ => runs_bind (keeps_advance (by simp [h])).runs fun _ t _ _ => runs_pure (by simp)
  · refine runs_bind (runs_propertyKey hg) fun key t _ ⟨hkey, kind, begins⟩ => runs_pure ?_
    simpa [kind, hkey] using begins

/-! ## Members -/

/-- What a member with parameters is, apart from a method with a name its extent does not matter. -/
private theorem isPlain_memberForm {isConstructor isAccessor : Bool} {key : Option PropertyKey} :
    (Kind.function (memberForm isConstructor isAccessor key)).isPlain = true ∨
      ∃ name, memberForm isConstructor isAccessor key = .method (some name) ∧
        key.bind PropertyKey.name = some name := by
  unfold memberForm
  split
  · exact .inl rfl
  split
  · exact .inl rfl
  cases named : key.bind PropertyKey.name with
  | none => exact .inl rfl
  | some name => exact .inr ⟨name, rfl, rfl⟩

private theorem runs_memberRest (hg : g.Keeps src) {decorators : List Tree} {m : Modifiers} (ht : Inv src t)
    (hdecorators : AllSound src decorators) (kinds : ∀ d ∈ decorators, d.kind = .decorator) (opens : Opens t s)
    (step : Step src t s) :
    Runs Step src s (memberRest g cx t.token.startOffset decorators m) fun tree _ => AllSound src tree := by
  refine runs_bind runs_eatGenerator fun isGenerator t₁ step₁ ⟨_, opens₁⟩ => runs_here ?_
  refine runs_bind (runs_memberKey hg) fun key t₂ step₂ ⟨hkey, kind, begins⟩ => ?_
  extract_lets before named isAccessor special isConstructor rest
  have hbefore : AllSound src before := by
    cases key <;> simp_all [before]
  have noBlock : ∀ b ∈ before, b.kind ≠ .block := by
    intro b hb
    rcases List.mem_append.1 hb with mem | mem
    · simp [kinds b mem]
    · cases key <;> simp_all
  have hrest : ∀ t₃, Step src t₂ t₃ → Runs Step src t₃ (rest ()) fun tree _ => AllSound src tree := by
    intro t₃ step₃
    refine runs_asks tells_atAnySymbol fun parenthesis _ => runs_ite (fun _ => ?_) fun _ => ?_
    · refine runs_refuseAtIf_bind (runs_refuseAtIf_bind (runs_bind (runs_functionRest hg hbefore) ?_))
      rintro function t₄ step₄ ⟨children, rfl, hchildren, hblock⟩
      have hfunction : AllSound src (Tree.node (.function (memberForm isConstructor isAccessor key))
          ⟨t.token.startOffset, t₄.lastStop⟩ children) := by
        refine allSound_tree.2 ?_
        rcases isPlain_memberForm with plain | ⟨name, form, hname⟩
        · exact sound_of_isPlain plain hchildren
        rw [form]
        refine sound_method hchildren fun _ block => ?_
        have through : Step src t t₃ := step.trans (step₁.trans (step₂.trans step₃))
        have ends := (hblock noBlock block).2.mono through.start_le
        have method : BeginsMethod t.token.kind := (opens.trans opens₁).begins (begins (by simp [hname]))
        exact ⟨begins_of_step ht (through.trans step₄) method method.isFirm ends.lt, ends⟩
      refine runs_ite (fun _ => ?_) fun _ => runs_pure hfunction
      exact runs_refuseAtIf_bind (runs_pure hfunction)
    · exact runs_refuseIf_bind fun _ => runs_refuseAtIf_bind (keeps_fieldRest hg hbefore).runs
  refine runs_ite (fun _ => ?_) fun _ => hrest t₂ (.refl step₂.inv)
  refine runs_bind keeps_eatSymbol.runs fun optional t₃ step₃ _ => runs_ite (fun _ => ?_) fun _ => hrest t₃ step₃
  refine runs_atSymbol (runs_asks (asks_of_eq rfl) fun onNewLine _ => ?_)
  refine runs_ite (fun given => ?_) fun _ => hrest t₃ step₃
  have some : t₃.token.kind ≠ .endOfText := by simp_all
  exact runs_bind (keeps_advance some).runs fun _ t₄ step₄ _ => hrest t₄ (step₃.trans step₄)

/-- Where no index signature stands, nothing is read. -/
private theorem runs_indexSignature (hg : g.Keeps src) : Runs Step src s (indexSignature g cx) fun parts t =>
    AllSound src parts ∧ (parts = none → t = s) := by
  have asks : Asks atIndexSignature s fun _ => True := asks_bind (asks_glance _) fun _ _ => ⟨_, rfl, trivial⟩
  refine runs_asks asks fun found _ => runs_ite (fun _ => ?_) fun _ => runs_pure ⟨allSound_none, fun _ => rfl⟩
  refine (Runs.and_gives (q := fun parts _ => parts ≠ none) (Keeps.runs ?keeps) ?gives).imp fun parts t h =>
    ⟨h.1, fun none => absurd none h.2⟩
  case keeps =>
    grind [keeps_ascription?]
  case gives =>
    refine gives_bind fun _ => gives_bind fun _ => gives_bind fun _ => gives_bind fun _ => gives_bind fun _ => ?_
    exact gives_bind fun _ => gives_pure fun _ => nofun

private theorem keeps_member (hg : g.Keeps src) : Keeps src s (member g cx) := by
  refine keeps_of_inv fun hs => ?_
  suffices Runs Step src s (member g cx) fun tree _ => AllSound src tree from this.keeps fun _ _ => id
  refine runs_here (runs_bind (runs_decorators hg) fun decorators t₁ step₁ ⟨⟨hdecorators, kinds⟩, opens₁⟩ => ?_)
  refine runs_atWord (runs_asks asks_peekIs fun brace _ => runs_ite (fun _ => (keeps_staticBlock hg).runs) fun _ => ?_)
  refine runs_bind runs_modifiers fun m t₂ step₂ ⟨_, opens₂⟩ => ?_
  have opens := opens₁.trans opens₂
  have through := step₁.trans step₂
  refine runs_atSymbol (runs_ite (fun _ => ?_) fun _ => runs_memberRest hg hs hdecorators kinds opens through)
  refine runs_bind (runs_indexSignature hg) fun parts t₃ step₃ ⟨hparts, stays⟩ => ?_
  cases parts with
  | none =>
    obtain rfl := stays rfl
    exact runs_memberRest hg hs hdecorators kinds opens through
  | some parts =>
    refine runs_bind keeps_expectSemicolon.runs fun _ t₄ _ _ => runs_finish ?_
    simp_all

private theorem keeps_className : Keeps src s (className cx) := by
  unfold className
  grind

theorem keeps_classRest (hg : g.Keeps src) {decorators : List Tree} {nameOptional : Bool}
    (hdecorators : AllSound src decorators) : Keeps src s (classRest g cx start decorators nameOptional) := by
  refine keeps_bind keeps_expectWord fun _ t _ => ?_
  extract_lets strict bracketed inner
  clear_value inner
  refine keeps_asks tells_atVariable fun named _ => keeps_refuseIf_bind.2 fun _ => ?_
  refine keeps_bind keeps_className fun _ t _ => keeps_bind (keeps_typeParameters? hg) fun generics t hgenerics => ?_
  refine keeps_bind keeps_eatWord fun extended t _ => ?_
  extract_lets withBase
  have hwithBase : ∀ base t, AllSound src base → Keeps src t (withBase base) := by
    intro base t hbase
    refine keeps_bind keeps_eatWordIf fun implementing t _ => ?_
    extract_lets rest
    have hrest : ∀ interfaces t, AllSound src interfaces → Keeps src t (rest interfaces) := by
      intro interfaces t hinterfaces
      have hmember : ∀ t, Keeps src t (do
          let _ ← repeated do
            if ← eatSymbol ";" then return some () else return none
          if ← atSymbol "\x7d" then return none
          return some (← member g inner)) := by
        grind [keeps_member]
      grind
    clear_value rest
    grind
  clear_value withBase
  grind [keeps_typeArguments?]

end SpecCoverage.Program
