import SpecCoverage.Proofs.Program.Runs
import SpecCoverage.Proofs.Program.Written

/-!
# Rules that keep their place

A rule keeps its place in a text (`Keeps`) if it moves forward from lexeme to lexeme and all trees that it gives are
sound.  Rules are built from rules: `keeps_bind`, `keeps_attempt`, `keeps_loop` and the like say that what they are
built from decides.  A question leaves the state as it is, so what follows it is judged in the same state, with what
the answer says of the current token.
-/

namespace SpecCoverage.Program

variable {src : List Char} {s t : State} {α β σ : Type} [HasTrees α] [HasTrees β] [HasTrees σ]

/-- Run in a state of the text, the rule makes a step and gives sound trees, if it gives anything. -/
structure Keeps (src : List Char) (s : State) (rule : Parse α) : Prop where
  runs : Runs Step src s rule fun a _ => AllSound src a

section Keeps

variable {γ : Type} {rule other : Parse α} {next : α → Parse β}

theorem Keeps.step (h : Keeps src s rule) (hs : Inv src s) {a : α} (run : rule s = .ok (a, t)) :
    Step src s t ∧ AllSound src a := h.runs.step hs a t run

theorem Keeps.runs_le (h : Keeps src s rule) :
    Runs Step src s rule fun a t => AllSound src a ∧ s.lastStop ≤ t.lastStop :=
  ⟨fun hs _ _ run => have both := h.step hs run; ⟨both.1, both.2, both.1.stop_le⟩⟩

theorem Runs.keeps {p : α → State → Prop} (h : Runs Step src s rule p) (sound : ∀ a t, p a t → AllSound src a) :
    Keeps src s rule := ⟨h.imp sound⟩

theorem keeps_of_inv (h : Inv src s → Keeps src s rule) : Keeps src s rule := ⟨runs_of_inv fun hs => (h hs).runs⟩

theorem keeps_bind (first : Keeps src s rule) (second : ∀ a t, AllSound src a → Keeps src t (next a)) :
    Keeps src s (rule >>= next) :=
  ⟨runs_bind first.runs fun a t _ ha => (second a t ha).runs⟩

theorem keeps_bind_of_runs {rule : Parse γ} {next : γ → Parse α} {p : γ → State → Prop} (first : Runs Step src s rule p)
    (second : ∀ a t, p a t → Keeps src t (next a)) : Keeps src s (rule >>= next) :=
  ⟨runs_bind first fun a t _ ha => (second a t ha).runs⟩

theorem keeps_bind_of_gives {p : α → State → Prop} (first : Keeps src s rule) (gives : Gives p rule)
    (second : ∀ a t, AllSound src a → p a t → Keeps src t (next a)) : Keeps src s (rule >>= next) :=
  keeps_bind_of_runs (first.runs.and_gives gives) fun a t h => second a t h.1 h.2

theorem keeps_pure {a : α} (h : AllSound src a) : Keeps src s (pure a : Parse α) := ⟨runs_pure h⟩

theorem keeps_ite {c : Prop} [Decidable c] (hrule : c → Keeps src s rule) (hother : ¬ c → Keeps src s other) :
    Keeps src s (if c then rule else other) :=
  ⟨runs_ite (fun h => (hrule h).runs) fun h => (hother h).runs⟩

/-! ## Refusals -/

theorem keeps_refuse : Keeps src s (refuse : Parse α) := ⟨runs_refuse⟩

private theorem keeps_refuseAt {offset : Nat} : Keeps src s (refuseAt offset : Parse α) := ⟨⟨fun _ _ _ => nofun⟩⟩

theorem keeps_refuseIf {condition : Bool} : Keeps src s (refuseIf condition) :=
  keeps_ite (fun _ => keeps_refuse) fun _ => keeps_pure (allSound_unit ())

theorem keeps_refuseAtIf {offset : Nat} {condition : Bool} : Keeps src s (refuseAtIf offset condition) :=
  keeps_ite (fun _ => keeps_refuseAt) fun _ => keeps_pure (allSound_unit ())

theorem keeps_refuseIf_bind {condition : Bool} {next : Unit → Parse α} :
    Keeps src s (refuseIf condition >>= next) ↔ (condition = false → Keeps src s (next ())) := by
  refine ⟨?_, fun h => ⟨runs_refuseIf_bind fun refused => (h refused).runs⟩⟩
  rintro h rfl
  exact ⟨⟨h.runs.step⟩⟩

theorem keeps_refuseAtIf_bind {offset : Nat} {condition : Bool} {next : Unit → Parse α} :
    Keeps src s (refuseAtIf offset condition >>= next) ↔ (condition = false → Keeps src s (next ())) := by
  cases condition with
  | false => exact ⟨fun h _ => ⟨⟨h.runs.step⟩⟩, fun h => ⟨⟨(h rfl).runs.step⟩⟩⟩
  | true => exact ⟨fun _ => nofun, fun _ => ⟨⟨fun _ _ _ => nofun⟩⟩⟩

/-! ## Scanning -/

theorem keeps_lift {scan : Except Failure α} (h : ∀ a, scan = .ok a → AllSound src a) :
    Keeps src s (liftM scan : Parse α) := by
  refine ⟨⟨fun hs a t run => ?_⟩⟩
  obtain ⟨hscan, rfl⟩ := lift_ok run
  exact ⟨.refl hs, h a hscan⟩

theorem keeps_lift_bind {scan : Except Failure γ} {next : γ → Parse α}
    (h : ∀ a, scan = .ok a → Keeps src s (next a)) : Keeps src s (liftM scan >>= next) :=
  ⟨runs_lift_bind fun a ha => (h a ha).runs⟩

/-- Reads on behind a piece of a template. -/
theorem keeps_resumeTemplate {c stop : Cursor} {ending : TemplateEnd} {valid : Bool} (ahead : Ahead src s c)
    (read : readTemplate c = .ok (ending, valid, stop)) : Keeps src s (resume stop) := by
  refine ⟨⟨fun hs _ _ run => ⟨?_, allSound_unit _⟩⟩⟩
  have passes : Cursor.Passes c stop := readTemplate_passes read
  have start : s.token.startOffset ≤ s.token.stopOffset := hs.located.reaches.le
  exact step_resume hs ahead.within (.template read) passes (Nat.le_trans start ahead.le)
    (fun _ => Nat.le_trans ahead.le passes.1.le) run

/-! ## Questions -/

theorem keeps_asks {question : Parse γ} {p : γ → Prop} {next : γ → Parse α} (asks : Asks question s p)
    (h : ∀ a, p a → Keeps src s (next a)) : Keeps src s (question >>= next) :=
  ⟨runs_asks asks fun a ha => (h a ha).runs⟩

end Keeps

section Questions

variable {next : Bool → Parse α}

private theorem keeps_tells {question : Parse Bool} (tells : Tells question s)
    (h : (s.token.kind ≠ .endOfText → Keeps src s (next true)) ∧ Keeps src s (next false)) :
    Keeps src s (question >>= next) := by
  refine keeps_asks tells fun b hb => ?_
  cases b with
  | true => exact h.1 (hb rfl)
  | false => exact h.2

theorem keeps_atAnySymbol {texts : List String}
    (h : (s.token.kind ≠ .endOfText → Keeps src s (next true)) ∧ Keeps src s (next false)) :
    Keeps src s (atAnySymbol texts >>= next) :=
  keeps_tells tells_atAnySymbol h

theorem keeps_atAnyWord {texts : List String}
    (h : (s.token.kind ≠ .endOfText → Keeps src s (next true)) ∧ Keeps src s (next false)) :
    Keeps src s (atAnyWord texts >>= next) :=
  keeps_tells tells_atAnyWord h

theorem keeps_atAnyName
    (h : (s.token.kind ≠ .endOfText → Keeps src s (next true)) ∧ Keeps src s (next false)) :
    Keeps src s (atAnyName >>= next) :=
  keeps_tells tells_atAnyName h

theorem keeps_atPrivateName
    (h : (s.token.kind ≠ .endOfText → Keeps src s (next true)) ∧ Keeps src s (next false)) :
    Keeps src s (atPrivateName >>= next) :=
  keeps_tells tells_atPrivateName h

theorem keeps_atVariable {cx : Context}
    (h : (s.token.kind ≠ .endOfText → Keeps src s (next true)) ∧ Keeps src s (next false)) :
    Keeps src s (atVariable cx >>= next) :=
  keeps_tells tells_atVariable h

theorem keeps_atClosingAngle
    (h : (s.token.kind ≠ .endOfText → Keeps src s (next true)) ∧ Keeps src s (next false)) :
    Keeps src s (atClosingAngle >>= next) :=
  keeps_tells tells_atClosingAngle h

theorem keeps_atSemicolon (h : Keeps src s (next true) ∧ Keeps src s (next false)) :
    Keeps src s (atSemicolon >>= next) :=
  keeps_asks asks_atSemicolon fun b _ => by cases b <;> simp [h]

theorem keeps_peekIs {p : Token → Bool} (h : (Peeked p s → Keeps src s (next true)) ∧ Keeps src s (next false)) :
    Keeps src s (peekIs p >>= next) := by
  refine keeps_asks asks_peekIs fun b hb => ?_
  cases b with
  | true => exact h.1 (hb rfl)
  | false => exact h.2

end Questions

section Definitional

variable {text : String}

private theorem keeps_iff_of_run_eq {rule other : Parse α} (h : rule s = other s) :
    Keeps src s rule ↔ Keeps src s other :=
  ⟨fun k => ⟨⟨h ▸ k.runs.step⟩⟩, fun k => ⟨⟨h ▸ k.runs.step⟩⟩⟩

theorem keeps_pure_bind {γ : Type} {a : γ} {next : γ → Parse α} :
    Keeps src s (pure a >>= next) ↔ Keeps src s (next a) :=
  keeps_iff_of_run_eq rfl

theorem keeps_bind_assoc {γ δ : Type} {first : Parse γ} {second : γ → Parse δ} {third : δ → Parse α} :
    Keeps src s (first >>= second >>= third) ↔ Keeps src s (first >>= fun a => second a >>= third) := by
  rw [bind_assoc]

private theorem keeps_get {next : State → Parse α} : Keeps src s (get >>= next) ↔ Keeps src s (next s) :=
  keeps_iff_of_run_eq rfl

theorem keeps_current {next : Token → Parse α} : Keeps src s (current >>= next) ↔ Keeps src s (next s.token) :=
  keeps_iff_of_run_eq rfl

theorem keeps_kind {next : TokenKind → Parse α} : Keeps src s (kind >>= next) ↔ Keeps src s (next s.token.kind) :=
  keeps_iff_of_run_eq rfl

theorem keeps_here {next : Nat → Parse α} : Keeps src s (here >>= next) ↔ Keeps src s (next s.token.startOffset) :=
  keeps_iff_of_run_eq rfl

theorem keeps_lastStop {next : Nat → Parse α} : Keeps src s (lastStop >>= next) ↔ Keeps src s (next s.lastStop) :=
  keeps_iff_of_run_eq rfl

theorem keeps_onNewLine {next : Bool → Parse α} :
    Keeps src s (onNewLine >>= next) ↔ Keeps src s (next s.token.onNewLine) :=
  keeps_iff_of_run_eq rfl

theorem keeps_atSymbol {next : Bool → Parse α} :
    Keeps src s (atSymbol text >>= next) ↔ Keeps src s (next (s.token.kind == .symbol text)) :=
  keeps_iff_of_run_eq rfl

theorem keeps_atWord {next : Bool → Parse α} :
    Keeps src s (atWord text >>= next) ↔ Keeps src s (next (s.token.kind == .name text false)) :=
  keeps_iff_of_run_eq rfl

theorem keeps_atEnd {next : Bool → Parse α} :
    Keeps src s (atEnd >>= next) ↔ Keeps src s (next (s.token.kind == .endOfText)) :=
  keeps_iff_of_run_eq rfl

theorem keeps_finish_bind {start : Nat} {kind : Kind} {children : List Tree} {next : Tree → Parse α} :
    Keeps src s (finish start kind children >>= next) ↔ Keeps src s (next (.node kind ⟨start, s.lastStop⟩ children)) :=
  keeps_iff_of_run_eq rfl

end Definitional

theorem keeps_peek {next : Option Token → Parse α} (h : ∀ t, Keeps src s (next t)) : Keeps src s (peek >>= next) :=
  keeps_asks asks_peek fun t _ => h t

theorem keeps_glance {γ : Type} {rule : Parse γ} {next : Option γ → Parse α} (h : ∀ a, Keeps src s (next a)) :
    Keeps src s (glance rule >>= next) :=
  keeps_asks (asks_glance rule) fun a _ => h a

/-! ## Moving on -/

theorem keeps_advance (some : s.token.kind ≠ .endOfText) : Keeps src s advance :=
  ⟨⟨fun h _ _ run => ⟨step_advance h some run, allSound_unit _⟩⟩⟩

theorem keeps_advance_bind {p : Token → Bool} {next : Unit → Parse α} (some : s.token.kind ≠ .endOfText)
    (peeked : Peeked p s) (h : ∀ t, p t.token = true → Keeps src t (next ())) : Keeps src s (advance >>= next) := by
  refine keeps_bind_of_runs (p := fun _ t => p t.token = true)
    ⟨fun hs _ t run => ⟨step_advance hs some run, ?_⟩⟩ fun _ => h
  obtain ⟨_, _, get, run⟩ := bind_ok run
  cases get
  obtain ⟨token, _, lifted, run⟩ := bind_ok run
  obtain ⟨read, rfl⟩ := lift_ok lifted
  cases run
  exact peeked _ read

theorem keeps_eatSymbol {text : String} : Keeps src s (eatSymbol text) := by
  refine keeps_atSymbol.2 (keeps_ite (fun h => ?_) fun _ => keeps_pure (allSound_bool _))
  have : s.token.kind ≠ .endOfText := by simp [beq_iff_eq.1 h]
  exact keeps_bind (keeps_advance this) fun _ _ _ => keeps_pure (allSound_bool _)

theorem keeps_eatWord {text : String} : Keeps src s (eatWord text) := by
  refine keeps_atWord.2 (keeps_ite (fun h => ?_) fun _ => keeps_pure (allSound_bool _))
  have : s.token.kind ≠ .endOfText := by simp [beq_iff_eq.1 h]
  exact keeps_bind (keeps_advance this) fun _ _ _ => keeps_pure (allSound_bool _)

/-- If the word is not there, nothing is read. -/
theorem keeps_eatWord_bind {text : String} {next : Bool → Parse α} (yes : ∀ t, Keeps src t (next true))
    (no : Keeps src s (next false)) : Keeps src s (eatWord text >>= next) := by
  unfold eatWord
  refine keeps_bind_assoc.2 (keeps_atWord.2 ?_)
  split
  · next h =>
    have some : s.token.kind ≠ .endOfText := by simp [beq_iff_eq.1 h]
    exact keeps_bind_assoc.2 (keeps_bind (keeps_advance some) fun _ t _ => keeps_pure_bind.2 (yes t))
  · exact keeps_pure_bind.2 no

theorem keeps_eatSymbolIf {condition : Bool} {text : String} : Keeps src s (eatSymbolIf condition text) :=
  keeps_ite (fun _ => keeps_eatSymbol) fun _ => keeps_pure (allSound_bool _)

theorem keeps_eatWordIf {condition : Bool} {text : String} : Keeps src s (eatWordIf condition text) :=
  keeps_ite (fun _ => keeps_eatWord) fun _ => keeps_pure (allSound_bool _)

theorem keeps_expectSymbol {text : String} : Keeps src s (expectSymbol text) :=
  keeps_atSymbol.2 (keeps_ite (fun h => keeps_advance (by simp [beq_iff_eq.1 h])) fun _ => keeps_refuse)

theorem keeps_expectWord {text : String} : Keeps src s (expectWord text) :=
  keeps_atWord.2 (keeps_ite (fun h => keeps_advance (by simp [beq_iff_eq.1 h])) fun _ => keeps_refuse)

theorem keeps_expectSemicolon : Keeps src s expectSemicolon := by
  refine keeps_bind keeps_eatSymbol fun eaten t _ => keeps_ite (fun _ => keeps_pure (allSound_unit _)) fun _ => ?_
  exact keeps_atSemicolon ⟨keeps_pure (allSound_unit _), keeps_refuse⟩

theorem keeps_finish {start : Nat} {kind : Kind} {children : List Tree} (plain : kind.isPlain = true)
    (h : AllSound src children) : Keeps src s (finish start kind children) :=
  keeps_lastStop.2 (keeps_pure (allSound_tree.2 (sound_of_isPlain plain h)))

/-! ## Choice and repetition -/

theorem keeps_attempt_bind {rule : Parse α} {next : Option α → Parse β} (h : Keeps src s rule)
    (ifSome : ∀ a t, AllSound src a → Keeps src t (next (some a))) (ifNone : Keeps src s (next none)) :
    Keeps src s (attempt rule >>= next) :=
  ⟨runs_attempt_bind h.runs (fun a t _ ha => (ifSome a t ha).runs) ifNone.runs⟩

theorem keeps_attempt {rule : Parse α} (h : Keeps src s rule) : Keeps src s (attempt rule) := by
  rw [← bind_pure (attempt rule)]
  exact keeps_attempt_bind h (fun a t ha => keeps_pure (allSound_some.2 ha)) (keeps_pure allSound_none)

theorem keeps_repeated {step : Parse (Option α)} (h : ∀ t, Keeps src t step) : Keeps src s (repeated step) := by
  refine (runs_repeated fun t => (h t).runs.imp fun o u ho a ha => ?_).keeps fun l u hl => allSound_list.2 hl
  cases ha
  exact allSound_some.1 ho

/-- A loop keeps its place if each round does and leaves the values and the state in their relation. -/
theorem keeps_loop_of {start : σ} {step : σ → Parse (σ × Bool)} (related : σ → State → Prop)
    (hstart : AllSound src start) (hrelated : related start s) (keeps : ∀ x t, AllSound src x → related x t → Keeps src t (step x))
    (relates : ∀ x, Gives (fun p t => p.2 = true → Inv src t → related p.1 t) (step x)) :
    Keeps src s (loop start step) := by
  refine keeps_asks asks_rounds fun n _ => ?_
  induction n generalizing s start with
  | zero => exact keeps_pure hstart
  | succ n ih =>
    refine keeps_bind_of_gives (keeps start s hstart hrelated) (relates start) fun p t hp hrelated => ?_
    obtain ⟨next, more⟩ := p
    exact keeps_ite (fun more => keeps_of_inv fun ht => ih hp.fst (hrelated more ht)) fun _ => keeps_pure hp.fst

theorem keeps_loop {start : σ} {step : σ → Parse (σ × Bool)} (hstart : AllSound src start)
    (h : ∀ x t, AllSound src x → Keeps src t (step x)) : Keeps src s (loop start step) :=
  (runs_loop (fun x _ => AllSound src x) hstart fun x t hx => (h x t hx).runs.imp fun _ _ => AllSound.fst).keeps
    fun _ _ => id

theorem keeps_listedUntil {close : String} {item : Parse α} (h : ∀ t, Keeps src t item) :
    Keeps src s (listedUntil close item) := by
  have given : ∀ {items : List α} {trailing more : Bool} {u : State}, AllSound src items →
      Keeps src u (pure ((items, trailing), more) : Parse ((List α × Bool) × Bool)) := fun h =>
    keeps_pure (allSound_prod.2 ⟨allSound_prod.2 ⟨h, allSound_bool _⟩, allSound_bool _⟩)
  have nothing : AllSound src (([], false) : List α × Bool) := allSound_prod.2 ⟨allSound_nil, allSound_bool _⟩
  refine keeps_bind (keeps_loop nothing fun x t hx => ?_) fun x t hx => ?_
  · obtain ⟨items, trailing⟩ := x
    have hitems : AllSound src items := hx.fst
    refine keeps_atSymbol.2 (keeps_ite (fun _ => given hitems) fun _ => keeps_bind (h t) fun a _ ha => ?_)
    have more : AllSound src (a :: items) := allSound_cons.2 ⟨ha, hitems⟩
    refine keeps_atSymbol.2 (keeps_ite (fun _ => given more) fun _ => ?_)
    exact keeps_bind keeps_expectSymbol fun _ _ _ => given more
  · obtain ⟨items, trailing⟩ := x
    have hitems : AllSound src items.reverse := allSound_reverse.2 hx.fst
    exact keeps_bind keeps_expectSymbol fun _ _ _ => keeps_pure (allSound_prod.2 ⟨hitems, allSound_bool _⟩)

/-! ## Names -/

theorem keeps_variableName {cx : Context} : Keeps src s (variableName cx) := by
  refine keeps_kind.2 ?_
  split
  · next h =>
    exact keeps_refuseIf_bind.2 fun _ =>
      keeps_bind (keeps_advance (by simp [h])) fun _ _ _ => keeps_pure (allSound_string _)
  · exact keeps_refuse

theorem keeps_boundName {cx : Context} : Keeps src s (boundName cx) := by
  refine keeps_kind.2 ?_
  split
  · next h =>
    exact keeps_refuseIf_bind.2 fun _ =>
      keeps_bind (keeps_advance (by simp [h])) fun _ _ _ => keeps_pure (allSound_string _)
  · exact keeps_refuse

theorem keeps_anyName : Keeps src s anyName := by
  refine keeps_kind.2 ?_
  split
  · next h => exact keeps_bind (keeps_advance (by simp [h])) fun _ _ _ => keeps_pure (allSound_string _)
  · exact keeps_refuse

private theorem keeps_advanceByOne {text : String} (symbol : s.token.kind = .symbol text)
    (angle : s.token.start.head? = some '<' ∨ s.token.start.head? = some '>') : Keeps src s advanceByOne :=
  ⟨⟨fun h _ _ run => ⟨step_advanceByOne h symbol angle run, allSound_unit _⟩⟩⟩

theorem keeps_expectClosingAngle : Keeps src s expectClosingAngle := by
  refine keeps_current.2 ?_
  split
  · next text h =>
    refine keeps_ite (fun _ => keeps_advance (by simp [h])) fun _ => keeps_ite (fun closing => ?_) fun _ => keeps_refuse
    exact keeps_advanceByOne h (.inr (beq_iff_eq.1 closing))
  · exact keeps_refuse

theorem keeps_expectOpeningAngle : Keeps src s expectOpeningAngle := by
  refine keeps_current.2 ?_
  split
  · next text h =>
    refine keeps_ite (fun _ => keeps_advance (by simp [h])) fun _ => keeps_ite (fun opening => ?_) fun _ => keeps_refuse
    obtain rfl := beq_iff_eq.1 opening
    refine keeps_of_inv fun hs => ?_
    have read := hs.located.read
    rw [h] at read
    exact keeps_advanceByOne h (.inl (head?_of_symbol read))
  · exact keeps_refuse

/-! ## First and last tokens -/

private theorem begins_of_advance {first : TokenKind → Prop} {u : Unit} (hs : Inv src s) (h : first s.token.kind)
    (run : advance s = .ok (u, t)) : Begins src first s.token.startOffset t.lastStop := by
  refine ⟨s.token.start, s.token.stop, s.token.kind, hs.located.within, rfl, hs.located.read, h, ?_⟩
  exact Nat.le_of_eq (resume_ok hs.located.stop_within (advance_ok run)).2.2.symm

theorem runs_advance (first : TokenKind → Prop) (h : first s.token.kind) (some : s.token.kind ≠ .endOfText) :
    Runs Step src s advance fun _ t => Begins src first s.token.startOffset t.lastStop ∧ s.lastStop ≤ t.lastStop :=
  ⟨fun hs _ _ run => have step := step_advance hs some run; ⟨step, begins_of_advance hs h run, step.stop_le⟩⟩

/-- A word is read as the first token. -/
theorem runs_expectWord {text : String} : Runs Step src s (expectWord text) fun _ t =>
    Begins src (· = .name text false) s.token.startOffset t.lastStop := by
  refine ⟨fun hs a t run => ?_⟩
  obtain ⟨_, u, atWord, run⟩ := bind_ok run
  cases atWord
  split at run
  · next h =>
    have word : s.token.kind = .name text false := beq_iff_eq.1 h
    exact ⟨step_advance hs (by simp [word]) run, begins_of_advance hs word run⟩
  · exact absurd run refuse_ok

theorem runs_anyName : Runs Step src s anyName fun _ t => s.token.startOffset < t.lastStop := by
  refine runs_kind ?_
  split
  · next h =>
    refine ⟨fun hs a t run => ?_⟩
    obtain ⟨_, u, first, run⟩ := bind_ok run
    cases run
    have some : s.token.kind ≠ .endOfText := by simp [h]
    refine ⟨step_advance hs some first, ?_⟩
    rw [(resume_ok hs.located.stop_within (advance_ok first)).2.2]
    exact (hs.located.passes some).2
  · exact ⟨fun _ _ _ run => absurd run refuse_ok⟩

/-- A closing brace is read as the last token. -/
theorem runs_expectBrace : Runs Step src s (expectSymbol "\x7d") fun _ t =>
    Ends src IsClosingBrace s.token.startOffset t.lastStop := by
  refine ⟨fun hs a t run => ?_⟩
  obtain ⟨_, u, atBrace, run⟩ := bind_ok run
  cases atBrace
  split at run
  · next h =>
    have brace : s.token.kind = .symbol "\x7d" := beq_iff_eq.1 h
    have some : s.token.kind ≠ .endOfText := by simp [brace]
    have read : IsClosingBrace s.token.start s.token.stop := by
      rw [IsClosingBrace, ← brace]
      exact hs.located.read
    refine ⟨step_advance hs some run, s.token.start, s.token.stop, hs.located.within, read, ?_, Nat.le_refl _, ?_⟩
    · exact hs.located.passes some
    · exact (resume_ok hs.located.stop_within (advance_ok run)).2.2.symm
  · exact absurd run refuse_ok

/-! ## Automation

A definitional question is answered while `grind` normalizes its goal.  The other lemmas are applied backwards, and one
continuation costs one round: `keeps_bind_pair` binds the answer and the state at once. -/

private theorem keeps_ite_iff {c : Prop} [Decidable c] {rule other : Parse α} :
    Keeps src s (if c then rule else other) ↔ if c then Keeps src s rule else Keeps src s other := by
  split <;> rfl

theorem keeps_bind_pair {rule : Parse α} {next : α → Parse β} (first : Keeps src s rule)
    (second : ∀ r : α × State, AllSound src r.1 → Keeps src r.2 (next r.1)) : Keeps src s (rule >>= next) :=
  keeps_bind first fun a t h => second (a, t) h

attribute [grind norm] keeps_ite_iff keeps_pure_bind keeps_bind_assoc keeps_get keeps_current keeps_kind keeps_here
  keeps_lastStop keeps_onNewLine keeps_atSymbol keeps_atWord keeps_atEnd keeps_refuseIf_bind keeps_refuseAtIf_bind
  keeps_refuse keeps_refuseAt keeps_refuseIf keeps_refuseAtIf keeps_finish_bind sound_node_of_isPlain

attribute [grind norm] allSound_tree allSound_cons allSound_append allSound_toList allSound_some allSound_prod
  allSound_reverse allSound_key allSound_unit allSound_bool allSound_nat allSound_string allSound_cursor allSound_nil
  allSound_none

attribute [grind →] kind_ne_of_isString

attribute [grind ←] keeps_bind_pair keeps_pure keeps_atAnySymbol keeps_atAnyWord keeps_atAnyName keeps_atPrivateName
  keeps_atVariable keeps_atClosingAngle keeps_atSemicolon keeps_peekIs keeps_peek keeps_glance keeps_advance
  keeps_eatSymbol keeps_eatWord keeps_eatSymbolIf keeps_eatWordIf keeps_expectSymbol keeps_expectWord
  keeps_expectSemicolon keeps_finish keeps_attempt keeps_repeated keeps_loop keeps_listedUntil keeps_variableName
  keeps_boundName keeps_anyName keeps_expectClosingAngle keeps_expectOpeningAngle
  allSound_flatten AllSound.fst AllSound.snd

end SpecCoverage.Program
