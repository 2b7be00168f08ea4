import SpecCoverage.Proofs.Program.State

/-!
# Runs of rules

What can be said of a rule without knowing where it runs (`Gives`), of one that leaves the state as it is (`Asks`), and
of a run from one state of a text to another (`Runs`).
-/

namespace SpecCoverage.Program

variable {src : List Char} {s t : State}

/-! ## What rules give -/

/-- Every answer of the rule has a property, which may speak of the state behind it. -/
def Gives {γ : Type} (p : γ → State → Prop) (rule : Parse γ) : Prop := ∀ s a t, rule s = .ok (a, t) → p a t

section Gives

variable {β γ : Type} {p : γ → State → Prop}

theorem gives_bind {rule : Parse β} {next : β → Parse γ} (h : ∀ b, Gives p (next b)) : Gives p (rule >>= next) := by
  intro s c t run
  obtain ⟨b, u, -, run⟩ := bind_ok run
  exact h b u c t run

theorem gives_bind_of {q : β → State → Prop} {rule : Parse β} {next : β → Parse γ} (first : Gives q rule)
    (h : ∀ b t, q b t → Gives p (next b)) : Gives p (rule >>= next) := by
  intro s c t run
  obtain ⟨b, u, hb, run⟩ := bind_ok run
  exact h b u (first s b u hb) u c t run

theorem gives_pure {c : γ} (h : ∀ t, p c t) : Gives p (pure c : Parse γ) := by
  rintro s _ t ⟨⟩
  exact h s

theorem gives_ite {c : Prop} [Decidable c] {rule other : Parse γ} (hrule : Gives p rule) (hother : Gives p other) :
    Gives p (if c then rule else other) := by
  split
  · exact hrule
  · exact hother

theorem gives_refuse : Gives p (refuse : Parse γ) := fun _ _ _ run => absurd run refuse_ok

theorem gives_finish {p : Tree → State → Prop} {start : Nat} {kind : Kind} {children : List Tree}
    (h : ∀ extent t, p (.node kind extent children) t) : Gives p (finish start kind children) :=
  gives_bind fun _ => gives_pure (h _)

theorem gives_loop (related : γ → Prop) {start : γ} {step : γ → Parse (γ × Bool)} (hstart : related start)
    (h : ∀ x, related x → Gives (fun p _ => related p.1) (step x)) :
    Gives (fun x _ => related x) (loop start step) := by
  refine gives_bind fun n => ?_
  induction n generalizing start with
  | zero => exact gives_pure fun _ => hstart
  | succ n ih =>
    refine gives_bind_of (h start hstart) fun x _ hx => ?_
    obtain ⟨next, more⟩ := x
    exact gives_ite (ih hx) (gives_pure fun _ => hx)

theorem gives_repeated {q : γ → Prop} {step : Parse (Option γ)} (h : Gives (fun o _ => ∀ a ∈ o, q a) step) :
    Gives (fun l _ => ∀ a ∈ l, q a) (repeated step) := by
  refine gives_bind fun n => ?_
  induction n with
  | zero => exact gives_pure fun _ => by simp
  | succ n ih =>
    refine gives_bind_of h fun o _ ho => ?_
    cases o with
    | none => exact gives_pure fun _ => by simp
    | some a => exact gives_bind_of ih fun l _ hl => gives_pure fun _ => by simpa using ⟨ho a rfl, hl⟩

theorem gives_listedUntil {q : γ → Prop} {close : String} {item : Parse γ} (h : Gives (fun a _ => q a) item) :
    Gives (fun r _ => ∀ a ∈ r.1, q a) (listedUntil close item) := by
  refine gives_bind_of (gives_loop (fun x => ∀ a ∈ x.1, q a) (by simp) fun x hx => ?_) fun x _ hx => ?_
  · obtain ⟨items, trailing⟩ := x
    refine gives_bind fun _ => gives_ite (gives_pure fun _ => hx) (gives_bind_of h fun a _ ha => ?_)
    have more : ∀ b ∈ a :: items, q b := by simpa using ⟨ha, hx⟩
    exact gives_bind fun _ => gives_ite (gives_pure fun _ => more) (gives_bind fun _ => gives_pure fun _ => more)
  · exact gives_bind fun _ => gives_pure fun _ => by simpa using hx

theorem gives_current_pure {f : Token → γ} (h : ∀ t, p (f t.token) t) :
    Gives p (current >>= fun token => (pure (f token) : Parse γ)) := by
  rintro s _ t ⟨⟩
  exact h s

end Gives

/-! ## Questions -/

/-- The question leaves the state as it is, and its answer has a property. -/
def Asks {γ : Type} (question : Parse γ) (s : State) (p : γ → Prop) : Prop := ∃ a, question s = .ok (a, s) ∧ p a

theorem asks_bind {γ δ : Type} {question : Parse γ} {next : γ → Parse δ} {p : γ → Prop} {q : δ → Prop}
    (first : Asks question s p) (second : ∀ a, p a → Asks (next a) s q) : Asks (question >>= next) s q := by
  obtain ⟨a, answer, ha⟩ := first
  obtain ⟨b, answer', hb⟩ := second a ha
  exact ⟨b, (bind_of_ok answer).trans answer', hb⟩

theorem asks_of_eq {γ : Type} {question : Parse γ} {a : γ} (h : question s = .ok (a, s)) : Asks question s (· = a) :=
  ⟨a, h, rfl⟩

theorem asks_glance {γ : Type} (rule : Parse γ) : Asks (glance rule) s fun _ => True := by
  unfold Asks glance
  cases rule s with
  | error e => exact ⟨none, rfl, trivial⟩
  | ok r => exact ⟨some r.1, rfl, trivial⟩

theorem asks_get : Asks get s (· = s) := asks_of_eq rfl

theorem asks_current : Asks current s (· = s.token) := asks_of_eq rfl

private theorem asks_kind : Asks kind s (· = s.token.kind) := asks_of_eq rfl

theorem asks_peek : Asks peek s fun o => ∀ t, readToken s.classic s.token.stop = .ok t → o = some t := by
  refine asks_bind asks_get fun u hu => ?_
  subst hu
  split
  · next token read => exact ⟨_, rfl, fun t ht => by rw [Except.ok.inj (read.symm.trans ht)]⟩
  · next failure read => exact ⟨_, rfl, fun t ht => nomatch read.symm.trans ht⟩

theorem asks_rounds : Asks rounds s fun _ => True := ⟨_, rfl, trivial⟩

/-- What a question tells of the current token: that the text goes on if the answer is yes. -/
def Tells (question : Parse Bool) (s : State) : Prop := Asks question s fun b => b = true → s.token.kind ≠ .endOfText

theorem tells_atAnySymbol {texts : List String} : Tells (atAnySymbol texts) s := by
  refine asks_bind asks_kind fun k hk => ?_
  split <;> exact ⟨_, rfl, by simp [← hk]⟩

theorem asks_atAnyWord {texts : List String} :
    Asks (atAnyWord texts) s fun b => b = true → ∃ word ∈ texts, s.token.kind = .name word false := by
  refine asks_bind asks_kind fun k hk => ?_
  split
  · exact ⟨_, rfl, fun h => ⟨_, List.contains_iff_mem.1 h, hk.symm⟩⟩
  · exact ⟨_, rfl, nofun⟩

theorem tells_atAnyWord {texts : List String} : Tells (atAnyWord texts) s := by
  obtain ⟨b, answer, hb⟩ : Asks (atAnyWord texts) s _ := asks_atAnyWord
  refine ⟨b, answer, fun h => ?_⟩
  obtain ⟨word, -, kind⟩ := hb h
  simp [kind]

theorem tells_atAnyName : Tells atAnyName s := by
  refine asks_bind asks_kind fun k hk => ?_
  split <;> exact ⟨_, rfl, by simp [← hk]⟩

theorem tells_atPrivateName : Tells atPrivateName s := by
  refine asks_bind asks_kind fun k hk => ?_
  split <;> exact ⟨_, rfl, by simp [← hk]⟩

theorem tells_atVariable {cx : Context} : Tells (atVariable cx) s := by
  refine asks_bind asks_kind fun k hk => ?_
  split <;> exact ⟨_, rfl, by simp [← hk]⟩

theorem tells_atClosingAngle : Tells atClosingAngle s := by
  refine asks_bind asks_current fun k hk => ?_
  subst hk
  split
  · next h => exact ⟨_, rfl, by simp [h]⟩
  · exact ⟨_, rfl, nofun⟩

theorem kind_ne_of_isString {t : Token} (h : t.isString = true) : t.kind ≠ .endOfText := by
  intro none
  simp [Token.isString, none] at h

theorem asks_atSemicolon : Asks atSemicolon s fun _ => True := by
  refine asks_bind tells_atAnySymbol fun b _ => ?_
  cases b
  · exact asks_bind (asks_of_eq rfl) fun e _ => by cases e <;> exact ⟨_, rfl, trivial⟩
  · exact ⟨_, rfl, trivial⟩

/-- The token behind the current one is known. -/
def Peeked (p : Token → Bool) (s : State) : Prop := ∀ t, readToken s.classic s.token.stop = .ok t → p t = true

theorem asks_peekIs {p : Token → Bool} : Asks (peekIs p) s fun b => b = true → Peeked p s := by
  refine asks_bind asks_peek fun t ht => ⟨_, rfl, fun hp u hu => ?_⟩
  obtain rfl := ht u hu
  simpa using hp

/-! ## Runs -/

/-- Run in a state of the text, the rule moves on in some way, and its answer and the state behind it have a
property. -/
structure Runs {γ : Type} (R : List Char → State → State → Prop) (src : List Char) (s : State) (rule : Parse γ)
    (post : γ → State → Prop) : Prop where
  step : Inv src s → ∀ a t, rule s = .ok (a, t) → R src s t ∧ post a t

section Runs

variable {R : List Char → State → State → Prop} {γ δ : Type} {p : γ → State → Prop} {q : δ → State → Prop}
  {rule : Parse γ} {next : γ → Parse δ}

theorem Runs.imp {q : γ → State → Prop} (h : Runs R src s rule p) (imp : ∀ a t, p a t → q a t) : Runs R src s rule q :=
  ⟨fun hs a t run => (h.step hs a t run).imp_right (imp a t)⟩

theorem Runs.and_gives {q : γ → State → Prop} (h : Runs R src s rule p) (gives : Gives q rule) :
    Runs R src s rule fun a t => p a t ∧ q a t :=
  ⟨fun hs a t run => ⟨(h.step hs a t run).1, (h.step hs a t run).2, gives s a t run⟩⟩

theorem runs_of_inv (h : Inv src s → Runs R src s rule p) : Runs R src s rule p := ⟨fun hs => (h hs).step hs⟩

theorem runs_ite {c : Prop} [Decidable c] {other : Parse γ} (hrule : c → Runs R src s rule p)
    (hother : ¬ c → Runs R src s other p) : Runs R src s (if c then rule else other) p := by
  split
  · exact hrule ‹_›
  · exact hother ‹_›

theorem runs_refuse : Runs R src s (refuse : Parse γ) p := ⟨fun _ _ _ run => absurd run refuse_ok⟩

theorem runs_refuseIf_bind {condition : Bool} {next : Unit → Parse γ}
    (h : condition = false → Runs R src s (next ()) p) : Runs R src s (refuseIf condition >>= next) p := by
  cases condition with
  | false => exact ⟨(h rfl).step⟩
  | true => exact ⟨fun _ _ _ => nofun⟩

theorem runs_refuseAtIf_bind {condition : Bool} {offset : Nat} {next : Unit → Parse γ}
    (h : Runs R src s (next ()) p) : Runs R src s (refuseAtIf offset condition >>= next) p := by
  cases condition with
  | false => exact ⟨h.step⟩
  | true => exact ⟨fun _ _ _ => nofun⟩

theorem runs_lift_bind {scan : Except Failure γ} (h : ∀ a, scan = .ok a → Runs R src s (next a) q) :
    Runs R src s (liftM scan >>= next) q := by
  refine ⟨fun hs b t run => ?_⟩
  obtain ⟨a, u, lifted, run⟩ := bind_ok run
  obtain ⟨hscan, rfl⟩ := lift_ok lifted
  exact (h a hscan).step hs b t run

theorem runs_asks {question : Parse γ} {p : γ → Prop} (asks : Asks question s p)
    (h : ∀ a, p a → Runs R src s (next a) q) : Runs R src s (question >>= next) q := by
  obtain ⟨a, answer, ha⟩ := asks
  refine ⟨fun hs b t run => ?_⟩
  obtain ⟨_, _, hquestion, run⟩ := bind_ok run
  cases answer.symm.trans hquestion
  exact (h a ha).step hs b t run

theorem runs_current {next : Token → Parse γ} (h : Runs R src s (next s.token) p) :
    Runs R src s (current >>= next) p := ⟨h.step⟩

theorem runs_here {next : Nat → Parse γ} (h : Runs R src s (next s.token.startOffset) p) :
    Runs R src s (here >>= next) p := ⟨h.step⟩

theorem runs_kind {next : TokenKind → Parse γ} (h : Runs R src s (next s.token.kind) p) :
    Runs R src s (kind >>= next) p := ⟨h.step⟩

theorem runs_atSymbol {text : String} {next : Bool → Parse γ}
    (h : Runs R src s (next (s.token.kind == .symbol text)) p) : Runs R src s (atSymbol text >>= next) p := ⟨h.step⟩

theorem runs_atWord {text : String} {next : Bool → Parse γ}
    (h : Runs R src s (next (s.token.kind == .name text false)) p) : Runs R src s (atWord text >>= next) p := ⟨h.step⟩

variable [Progress R]

theorem runs_bind (first : Runs R src s rule p) (second : ∀ a t, R src s t → p a t → Runs R src t (next a) q) :
    Runs R src s (rule >>= next) q := by
  refine ⟨fun h b u run => ?_⟩
  obtain ⟨a, t, hfirst, hsecond⟩ := bind_ok run
  obtain ⟨step, ha⟩ := first.step h a t hfirst
  obtain ⟨step', hb⟩ := (second a t step ha).step (Progress.moved step).inv b u hsecond
  exact ⟨Progress.trans step step', hb⟩

theorem runs_pure {a : γ} (h : p a s) : Runs R src s (pure a : Parse γ) p := by
  refine ⟨fun hs _ _ run => ?_⟩
  cases run
  exact ⟨Progress.refl hs, h⟩

theorem runs_finish {p : Tree → State → Prop} {start : Nat} {kind : Kind} {children : List Tree}
    (h : p (.node kind ⟨start, s.lastStop⟩ children) s) : Runs R src s (finish start kind children) p :=
  ⟨(runs_pure h).step⟩

theorem runs_attempt_bind {next : Option γ → Parse δ} (h : Runs R src s rule p)
    (ifSome : ∀ a t, R src s t → p a t → Runs R src t (next (some a)) q) (ifNone : Runs R src s (next none) q) :
    Runs R src s (attempt rule >>= next) q := by
  refine ⟨fun hs b u run => ?_⟩
  obtain ⟨o, t, first, second⟩ := bind_ok run
  unfold attempt at first
  split at first
  · next a _ hrule =>
    cases first
    obtain ⟨step, ha⟩ := h.step hs a t hrule
    obtain ⟨step', hb⟩ := (ifSome a t step ha).step (Progress.moved step).inv b u second
    exact ⟨Progress.trans step step', hb⟩
  · cases first
    exact ifNone.step hs b u second

/-- A loop keeps what holds of its value and the state behind each round. -/
theorem runs_loop (related : γ → State → Prop) {start : γ} {step : γ → Parse (γ × Bool)} (hstart : related start s)
    (h : ∀ x t, related x t → Runs R src t (step x) fun p t => related p.1 t) :
    Runs R src s (loop start step) related := by
  refine runs_asks asks_rounds fun n _ => ?_
  induction n generalizing s start with
  | zero => exact runs_pure hstart
  | succ n ih =>
    refine runs_bind (h start s hstart) fun p t _ hp => ?_
    obtain ⟨next, more⟩ := p
    exact runs_ite (fun _ => ih hp) fun _ => runs_pure hp

theorem runs_repeated {q : γ → Prop} {step : Parse (Option γ)}
    (h : ∀ t, Runs R src t step fun o _ => ∀ a ∈ o, q a) : Runs R src s (repeated step) fun l _ => ∀ a ∈ l, q a := by
  refine runs_asks asks_rounds fun n _ => ?_
  induction n generalizing s with
  | zero => exact runs_pure (by simp)
  | succ n ih =>
    refine runs_bind (h s) fun o t _ ho => ?_
    cases o with
    | none => exact runs_pure (by simp)
    | some a => exact runs_bind ih fun l u _ hl => runs_pure (by simpa using ⟨ho a rfl, hl⟩)

end Runs

/-- A repetition whose step gives nothing where it stands does nothing. -/
theorem repeated_of_none {γ : Type} {step : Parse (Option γ)} (h : step s = .ok (none, s)) :
    repeated step s = .ok ([], s) := by
  show repeatFor step (s.size + 2 - s.token.startOffset) s = _
  cases s.size + 2 - s.token.startOffset with
  | zero => rfl
  | succ n => exact bind_of_ok h

/-- A repetition that gives nothing has read nothing, if its step reads nothing where it gives nothing. -/
theorem repeated_eq_nil {γ : Type} {step : Parse (Option γ)} (stays : ∀ u v, step u = .ok (none, v) → v = u)
    (run : repeated step s = .ok ([], t)) : t = s := by
  change repeatFor step (s.size + 2 - s.token.startOffset) s = _ at run
  cases hn : s.size + 2 - s.token.startOffset with
  | zero =>
    rw [hn] at run
    cases run
    rfl
  | succ n =>
    rw [hn] at run
    obtain ⟨found, u, first, run⟩ := bind_ok run
    cases found with
    | none =>
      cases run
      exact stays s _ first
    | some a =>
      obtain ⟨_, _, -, run⟩ := bind_ok run
      cases run

/-- A loop whose first round changes nothing does nothing. -/
theorem loop_of_unchanged {γ : Type} {x : γ} {step : γ → Parse (γ × Bool)} (h : step x s = .ok ((x, false), s)) :
    loop x step s = .ok (x, s) := by
  show loopFor step (s.size + 2 - s.token.startOffset) x s = _
  cases s.size + 2 - s.token.startOffset with
  | zero => rfl
  | succ n => exact bind_of_ok h

end SpecCoverage.Program
