import SpecCoverage.Program.Element
import SpecCoverage.Proofs.Program.Function

/-!
# Elements end behind lexemes

An element is read ahead of the current token, so its rules only move the state on (`Moved`), but the cursor that they
give stands behind a lexeme (`Closed`): the angle bracket of a tag, the brace behind an expression, or the end of a
child.
-/

namespace SpecCoverage.Program

open Cursor

variable {src : List Char} {s t : State} {g : Grammar} {cx : Context} {α γ : Type} [HasTrees α]

theorem Runs.moved {R : List Char → State → State → Prop} [Progress R] {rule : Parse γ} {p : γ → State → Prop}
    (h : Runs R src s rule p) : Runs Moved src s rule p :=
  ⟨fun hs a t run => have both := h.step hs a t run; ⟨Progress.moved both.1, both.2⟩⟩

theorem Keeps.moved {rule : Parse α} (h : Keeps src s rule) : Runs Moved src s rule fun a _ => AllSound src a :=
  h.runs.moved

private theorem runs_resume {c : Cursor} (within : Within src c) (ahead : s.token.startOffset ≤ c.offset) :
    Runs Moved src s (resume c) fun _ _ => True := by
  refine ⟨fun hs _ t run => ⟨?_, trivial⟩⟩
  obtain ⟨located, next, stop⟩ := resume_ok within run
  have behind : s.lastStop ≤ s.token.startOffset := hs.behind
  have after : c.offset ≤ t.token.startOffset := next.le
  exact ⟨⟨located, by omega⟩, by omega, by omega⟩

private theorem Closed.runs_resume {c : Cursor} (h : Closed src s c) : Runs Moved src s (resume c) fun _ _ => True :=
  Program.runs_resume h.ahead.1 h.ahead.2

private theorem runs_skipBlanks {c : Cursor} :
    Runs Moved src s (skipBlanks c) fun stop t => s = t ∧ Reaches c stop := by
  refine runs_asks asks_get fun u hu => runs_lift_bind fun found read => runs_pure ?_
  exact ⟨rfl, skipTrivia_reaches read⟩

private theorem runs_hyphenatedName : Runs Moved src s hyphenatedName fun _ _ => True := by
  refine runs_of_inv fun hs => runs_current ?_
  split
  · have name : Reaches s.token.start (readElementName s.token.start) := readElementName_reaches _
    exact runs_bind (runs_resume (hs.located.within.reaches name) name.le) fun _ _ _ _ => runs_pure trivial
  · exact runs_refuse

private theorem runs_elementName : Runs Moved src s elementName fun _ _ => True := by
  refine runs_bind runs_hyphenatedName fun first t _ _ => runs_bind keeps_eatSymbol.moved fun colon t _ _ => ?_
  refine runs_ite (fun _ => runs_bind runs_hyphenatedName fun _ _ _ _ => runs_pure trivial) fun _ => ?_
  refine runs_loop (fun _ _ => True) trivial fun pieces t _ => runs_bind keeps_eatSymbol.moved fun dot t _ _ => ?_
  exact runs_ite (fun _ => runs_bind runs_hyphenatedName fun _ _ _ _ => runs_pure trivial) fun _ => runs_pure trivial

private theorem asks_atClosingAngle : Asks atClosingAngle s fun b => b = true → s.token.start.head? = some '>' := by
  refine asks_bind asks_current fun token htoken => ?_
  subst htoken
  split
  · exact ⟨_, rfl, beq_iff_eq.1⟩
  · exact ⟨_, rfl, nofun⟩

private theorem closed_angle {c : Cursor} (within : Within src c) (ahead : s.token.startOffset ≤ c.offset)
    (angle : c.head? = some '>') : Closed src s (c.skip 1) :=
  ⟨c, within, .angle (.inr angle), passes_skip_one angle (by decide), ahead⟩

private theorem runs_behindAngle : Runs Moved src s behindAngle fun stop t => s = t ∧ Closed src s stop := by
  refine runs_of_inv fun hs => runs_asks asks_atClosingAngle fun b angle => runs_ite (fun h => ?_) fun _ => runs_refuse
  exact runs_current (runs_pure ⟨rfl, closed_angle hs.located.within (Nat.le_refl _) (angle h)⟩)

private theorem runs_tagEnd : Runs Moved src s tagEnd fun found t => s = t ∧ Closed src s found.1 := by
  refine runs_of_inv fun hs => runs_current (runs_ite (fun slash => ?_) fun _ => ?_)
  · have begun : Reaches s.token.start (s.token.start.skip 1) := (passes_skip_one (beq_iff_eq.1 slash) (by decide)).1
    refine runs_bind runs_skipBlanks fun stop t _ ⟨unmoved, blanks⟩ => runs_ite (fun angle => ?_) fun _ => runs_refuse
    subst unmoved
    have reaches : Reaches s.token.start stop := begun.trans blanks
    exact runs_pure ⟨rfl, closed_angle (hs.located.within.reaches reaches) reaches.le (beq_iff_eq.1 angle)⟩
  · exact runs_bind runs_behindAngle fun stop t _ h => runs_pure h

/-! ## Parts of elements -/

/-- The closing brace stays the current token. -/
private theorem runs_braced (hg : g.Keeps src) {allowEmpty : Bool} :
    Runs Moved src s (braced g cx allowEmpty) fun found t =>
    AllSound src found ∧ t.token.kind = .symbol "\x7d" := by
  refine runs_bind keeps_expectSymbol.moved fun _ t _ _ => runs_here (runs_atSymbol ?_)
  refine runs_ite (fun brace => ?_) fun _ => ?_
  · exact runs_refuseIf_bind fun _ => runs_pure ⟨allSound_nil, beq_iff_eq.1 brace⟩
  have closed : ∀ found u, Sound src found → Runs Moved src u (do
      refuseIf (!(← atSymbol "\x7d"))
      return [found]) fun found v => AllSound src found ∧ v.token.kind = .symbol "\x7d" := by
    refine fun found u h => runs_atSymbol (runs_refuseIf_bind fun brace => runs_pure ⟨?_, ?_⟩)
    · simpa using h
    · simpa using brace
  refine runs_bind keeps_eatSymbol.moved fun spread t _ _ => runs_ite (fun _ => ?_) fun _ => ?_
  · refine runs_refuseIf_bind fun _ => ?_
    refine runs_bind (hg.assignment _ _).moved fun value u _ hvalue => ?_
    refine runs_bind (runs_finish ?_) fun found v _ hfound => closed found v hfound
    exact sound_of_isPlain rfl (by simpa using hvalue)
  · exact runs_bind (hg.expression _ _).moved fun value u _ hvalue => closed value u (allSound_tree.1 hvalue)

private theorem runs_attributeValue (hg : g.Keeps src) (goesOn : s.token.kind ≠ .endOfText) :
    Runs Moved src s (attributeValue g cx) fun found _ => AllSound src found := by
  refine runs_of_inv fun hs => runs_current (runs_bind runs_skipBlanks fun start t _ ⟨unmoved, blanks⟩ => ?_)
  subst unmoved
  have reaches : Reaches s.token.start start := hs.located.reaches.trans blanks
  have within : Within src start := hs.located.within.reaches reaches
  have string : ∀ quote, start.head? = some quote → IsSingle quote →
      Runs Moved src s (do
        resume (← readElementString start)
        return ([] : List Tree)) fun found _ => AllSound src found := by
    refine fun quote head single => runs_lift_bind fun stop read => ?_
    have inside : Reaches start stop := (readElementString_passes head single read).1
    refine runs_bind (runs_resume (within.reaches inside) (reaches.trans inside).le) fun _ _ _ _ => ?_
    exact runs_pure allSound_nil
  split
  · exact string _ ‹_› (by decide)
  · exact string _ ‹_› (by decide)
  · refine runs_bind (hg.element _ _ _ within ‹_› reaches.le) fun found u _ ⟨hfound, closed⟩ => ?_
    obtain ⟨element, stop⟩ := found
    exact runs_bind closed.runs_resume fun _ _ _ _ => runs_pure (by simpa using hfound.fst)
  · refine runs_bind (keeps_advance goesOn).moved fun _ t _ _ => ?_
    refine runs_bind (runs_braced hg) fun found u _ ⟨hfound, brace⟩ => ?_
    exact runs_bind (keeps_advance (by simp [brace])).moved fun _ _ _ _ => runs_pure hfound

private theorem runs_elementAttribute (hg : g.Keeps src) :
    Runs Moved src s (elementAttribute g cx) fun found _ => AllSound src found := by
  refine runs_bind keeps_eatSymbol.moved fun brace t _ _ => runs_ite (fun _ => ?_) fun _ => ?_
  · exact Keeps.moved (by grind)
  have value : ∀ u, Runs Moved src u (do
      if ← atSymbol "=" then attributeValue g cx else return []) fun found _ => AllSound src found := by
    refine fun u => runs_atSymbol (runs_ite (fun equals => ?_) fun _ => runs_pure allSound_nil)
    exact runs_attributeValue hg (by simp [beq_iff_eq.1 equals])
  refine runs_bind runs_hyphenatedName fun _ t _ _ => runs_bind keeps_eatSymbol.moved fun colon t _ _ => ?_
  exact runs_ite (fun _ => runs_bind runs_hyphenatedName fun _ u _ _ => value u) fun _ => value t

private theorem runs_elementChildren (hg : g.Keeps src) {name : List (List Char)} {start : Cursor}
    (h : Closed src s start) :
    Runs Moved src s (elementChildren g cx name start) fun found t => AllSound src found ∧ Closed src t found.2 := by
  refine runs_bind (p := fun x t => AllSound src x.1 ∧ Closed src t x.2.1) (runs_loop _ ⟨allSound_nil, h⟩ ?round)
    fun x t _ hx => runs_pure ⟨allSound_prod.2 ⟨hx.1, allSound_cursor _⟩, hx.2⟩
  intro x t hx
  obtain ⟨found, cursor, ended⟩ := x
  obtain ⟨hfound, closed⟩ := hx
  refine runs_lift_bind fun stop read => ?_
  obtain ⟨text, head⟩ := readElementText_eq_ok read
  have within : Within src stop := closed.ahead.1.reaches text
  have ahead : t.token.startOffset ≤ stop.offset := Nat.le_trans closed.ahead.2 text.le
  refine runs_ite (fun _ => ?_) fun noBrace => ?_
  · refine runs_bind (runs_resume within ahead) fun _ u _ _ => ?_
    refine runs_bind (runs_braced hg) fun inner v _ ⟨hinner, brace⟩ => ?_
    refine runs_of_inv fun hv => runs_current (runs_pure ⟨?_, hv.closed_stop (by simp [brace])⟩)
    exact allSound_append.2 ⟨hfound, hinner⟩
  have angle : stop.head? = some '<' := head.resolve_left fun brace => noBrace (beq_iff_eq.2 brace)
  have begun : Reaches stop (stop.skip 1) := (passes_skip_one angle (by decide)).1
  refine runs_bind runs_skipBlanks fun next u _ ⟨unmoved, blanks⟩ => ?_
  subst unmoved
  have reaches : Reaches stop next := begun.trans blanks
  refine runs_ite (fun slash => ?_) fun _ => ?_
  · have inside : Reaches stop (next.skip 1) := reaches.trans (passes_skip_one (beq_iff_eq.1 slash) (by decide)).1
    refine runs_bind (runs_resume (within.reaches inside) (Nat.le_trans ahead inside.le)) fun _ u _ _ => ?_
    have last : ∀ (closing : List (List Char)) v, Runs Moved src v (do
        refuseIf (closing != name)
        return ((found, ← behindAngle, true), false)) fun p w => AllSound src p.1.1 ∧ Closed src w p.1.2.1 := by
      refine fun closing v => runs_refuseIf_bind fun _ => ?_
      refine runs_bind runs_behindAngle fun stop w _ ⟨unmoved, closed⟩ => ?_
      exact runs_pure ⟨hfound, unmoved ▸ closed⟩
    refine runs_asks asks_atClosingAngle fun fragment _ => runs_ite (fun _ => last [] u) fun _ => ?_
    exact runs_bind runs_elementName fun closing v _ _ => last closing v
  · refine runs_bind (hg.element _ _ _ within angle ahead) fun child u _ ⟨hchild, closed⟩ => ?_
    obtain ⟨element, last⟩ := child
    exact runs_pure ⟨by simpa [hfound] using hchild.fst, closed⟩

/-! ## Elements -/

theorem runs_elementAt (hg : g.Keeps src) {start : Cursor} (within : Within src start) (angle : start.head? = some '<')
    (ahead : s.token.startOffset ≤ start.offset) : Runs Moved src s (elementAt g cx start) fun found t =>
    AllSound src found ∧ Closed src t found.2 := by
  unfold elementAt
  extract_lets bracketed inner finishAt
  have finished : ∀ parts stop u, AllSound src parts → Closed src u stop →
      Runs Moved src u (finishAt parts stop) fun found v => AllSound src found ∧ Closed src v found.2 :=
    fun parts stop u h closed => runs_pure ⟨by simpa [finishAt] using h, closed⟩
  clear_value bracketed inner finishAt
  have begun : Reaches start (start.skip 1) := (passes_skip_one angle (by decide)).1
  refine runs_bind (runs_resume (within.reaches begun) (Nat.le_trans ahead begun.le)) fun _ t _ _ => ?_
  refine runs_asks asks_atClosingAngle fun fragment _ => runs_ite (fun _ => ?_) fun _ => ?_
  · refine runs_bind runs_behindAngle fun stop u _ ⟨unmoved, closed⟩ => ?_
    subst unmoved
    refine runs_bind (runs_elementChildren hg closed) fun found v _ ⟨hfound, closed⟩ => ?_
    exact finished _ _ v hfound.fst closed
  refine runs_bind runs_elementName fun name t _ _ => ?_
  refine runs_atSymbol ?_
  extract_lets rest
  have hrest : ∀ generics u, AllSound src generics → Runs Moved src u (rest generics) fun found v =>
      AllSound src found ∧ Closed src v found.2 := by
    intro generics u hgenerics
    have attributes : ∀ v, Runs Moved src v (do
        if (← atSymbol "\x7b") || (← atAnyName) then return some (← elementAttribute g inner) else return none)
        fun found _ => ∀ trees ∈ found, AllSound src trees := by
      refine fun v => runs_atSymbol (runs_asks tells_atAnyName fun _ _ => runs_ite (fun _ => ?_) fun _ => ?_)
      · exact runs_bind (runs_elementAttribute hg) fun trees w _ h => runs_pure (by simpa using h)
      · exact runs_pure (by simp)
    refine runs_bind (runs_repeated attributes) fun attributes v _ hattributes => ?_
    extract_lets parts
    have hparts : AllSound src parts :=
      allSound_append.2 ⟨hgenerics, allSound_flatten (allSound_list.2 hattributes)⟩
    refine runs_bind runs_tagEnd fun found w _ ⟨unmoved, closed⟩ => ?_
    subst unmoved
    refine runs_ite (fun _ => finished _ _ v hparts closed) fun _ => ?_
    refine runs_bind (runs_elementChildren hg closed) fun children w _ ⟨hchildren, closed⟩ => ?_
    exact finished _ _ w (allSound_append.2 ⟨hparts, hchildren.fst⟩) closed
  refine runs_ite (fun _ => ?_) fun _ => hrest [] t allSound_nil
  exact runs_bind (keeps_typeArguments hg).moved fun generics u _ h => hrest generics u h

end SpecCoverage.Program
