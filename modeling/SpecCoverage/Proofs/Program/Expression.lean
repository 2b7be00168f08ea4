import SpecCoverage.Program.Expression
import SpecCoverage.Proofs.Program.ClassBody
import SpecCoverage.Proofs.Program.Element

/-!
# Expressions keep their place

What is read as an expression first and becomes the parameters of an arrow keeps its trees, and the items of a list, the
links of a chain and the operands of a binary operator are trees that have been read.
-/

namespace SpecCoverage.Program

open Cursor

variable {src : List Char} {s t : State} {g : Grammar} {cx : Context} {start : Nat}

instance : HasTrees Item := ⟨fun item => [item.tree]⟩
instance : HasTrees Chain := ⟨fun chain => [chain.tree]⟩

@[simp, grind norm] theorem allSound_item {item : Item} : AllSound src item ↔ Sound src item.tree :=
  ⟨fun h => allSound_tree.1 ⟨h.sound⟩, fun h => ⟨(allSound_tree.2 h).sound⟩⟩

@[simp, grind norm] theorem allSound_chain {chain : Chain} : AllSound src chain ↔ Sound src chain.tree :=
  ⟨fun h => allSound_tree.1 ⟨h.sound⟩, fun h => ⟨(allSound_tree.2 h).sound⟩⟩

private theorem allSound_items {items : List Item} (h : AllSound src items) : AllSound src (items.map Item.tree) := by
  simpa [allSound_list] using h

/-! ## Templates -/

private theorem keeps_templateParts (hg : g.Keeps src) : Keeps src s (templateParts g cx) := by
  refine keeps_of_inv fun hs => keeps_current.2 ?_
  refine keeps_bind (keeps_loop_of (fun x t => Ahead src t x.2.2) (by simp) hs.ahead_stop ?keeps ?relates) ?rest
  case keeps =>
    rintro ⟨parts, valid, cursor⟩ t hparts ahead
    refine keeps_lift_bind fun piece read => ?_
    obtain ⟨ending, here, stop⟩ := piece
    refine keeps_bind (keeps_resumeTemplate ahead read) fun _ t _ => ?_
    split <;> grind
  case relates =>
    rintro ⟨parts, valid, cursor⟩
    refine gives_bind fun piece => gives_bind fun _ => ?_
    split
    · exact gives_pure fun _ => nofun
    · exact gives_bind fun part => gives_bind fun _ => gives_bind fun _ => gives_current_pure fun t _ => Inv.ahead_stop
  case rest =>
    grind

private theorem keeps_template (hg : g.Keeps src) : Keeps src s (template g cx) := by
  unfold template
  grind [keeps_templateParts]

/-! ## Arrays and objects -/

private theorem allSound_closing {c : Prop} [Decidable c] {stop : Nat} :
    AllSound src (if c then [Tree.node .hole ⟨stop, stop⟩ []] else []) := by
  split <;> simp

private theorem keeps_arrayLiteral (hg : g.Keeps src) : Keeps src s (arrayLiteral g cx start) := by
  refine keeps_bind keeps_expectSymbol fun _ t _ => ?_
  extract_lets element
  have helement : ∀ u, Keeps src u element := by
    intro u
    grind
  clear_value element
  refine keeps_bind (keeps_listedUntil helement) fun found t hfound => keeps_lastStop.2 ?_
  exact keeps_finish rfl (allSound_append.2 ⟨hfound.fst, allSound_closing⟩)

private theorem keeps_objectMethod (hg : g.Keeps src) {isAsync isGenerator : Bool} :
    Keeps src s (objectMethod g cx start isAsync isGenerator) := by
  unfold objectMethod
  grind [keeps_propertyKey, keeps_functionRest]

private theorem keeps_objectAccessor (hg : g.Keeps src) (goesOn : s.token.kind ≠ .endOfText) :
    Keeps src s (objectAccessor g cx start) := by
  unfold objectAccessor
  grind [keeps_propertyKey, keeps_functionRest, keeps_refuseAccessor]

private theorem keeps_keyedMember (hg : g.Keeps src) : Keeps src s (keyedMember g cx start) := by
  refine keeps_current.2 (keeps_bind (keeps_propertyKey hg) fun key t hkey => ?_)
  have hkey : Sound src key.tree := allSound_key.1 hkey
  refine keeps_asks tells_atAnySymbol fun method _ => keeps_ite (fun _ => ?_) fun _ => ?_
  · grind [keeps_functionRest]
  · refine keeps_bind keeps_eatSymbol fun colon t _ => keeps_ite (fun _ => by grind) fun _ => ?_
    split <;> grind

private theorem keeps_objectMember (hg : g.Keeps src) : Keeps src s (objectMember g cx) := by
  unfold objectMember
  grind [keeps_objectMethod, keeps_objectAccessor, keeps_keyedMember]

private theorem keeps_objectLiteral (hg : g.Keeps src) : Keeps src s (objectLiteral g cx start) := by
  refine keeps_bind keeps_expectSymbol fun _ t _ => ?_
  refine keeps_bind (keeps_listedUntil fun _ => keeps_objectMember hg) fun found t hfound => keeps_lastStop.2 ?_
  exact keeps_finish rfl (allSound_append.2 ⟨hfound.fst, allSound_closing⟩)

/-! ## Parentheses and arrows -/

private theorem keeps_assignmentRest (hg : g.Keeps src) {left : Tree} (h : Sound src left) :
    Keeps src s (assignmentRest g cx left) := by
  refine keeps_kind.2 ?_
  split
  · have goesOn : s.token.kind ≠ .endOfText := by simp [*]
    grind [keeps_toTarget_bind]
  · grind

private theorem keeps_conditionalRest (hg : g.Keeps src) {test : Tree} (h : Sound src test) :
    Keeps src s (conditionalRest g cx test) := by
  unfold conditionalRest
  grind

private theorem sound_asSpread {spread : Bool} {tree : Tree} (h : Sound src tree) :
    Sound src (asSpread start spread tree) := by
  unfold asSpread
  split <;> simpa

private theorem keeps_typedItem (hg : g.Keeps src) : Keeps src s (typedItem g cx) := by
  refine keeps_here.2 (keeps_bind keeps_eatSymbol fun spread t _ => keeps_here.2 ?_)
  extract_lets bracketed inner rest
  have hlast : ∀ (optional : Bool) tree u, Sound src tree → Keeps src u (do
      if optional || (← atSymbol ":") then
        let target ← toParameter inner.strict (asSpread s.token.startOffset spread tree)
        let target ← withAscription g inner target
        return (⟨← withDefault g inner s.token.startOffset target, true⟩ : Item)
      else return ⟨asSpread s.token.startOffset spread tree, false⟩) := by
    intro optional tree u htree
    have hspread : Sound src (asSpread s.token.startOffset spread tree) := sound_asSpread htree
    refine keeps_atSymbol.2 (keeps_ite (fun _ => ?_) fun _ => keeps_pure (allSound_item.2 hspread))
    refine keeps_bind_of_gives (keeps_toParameter hspread) gives_toParameter fun target u htarget plain => ?_
    refine keeps_bind (keeps_withAscription hg plain (allSound_tree.1 htarget)) fun target u htarget => ?_
    grind [keeps_withDefault]
  have hrest : ∀ tree u, Sound src tree → Keeps src u (rest tree) := by
    refine fun tree u htree => keeps_atSymbol.2 ?_
    extract_lets given
    have hgiven : ∀ optional v, Keeps src v (given optional) := by
      refine fun optional v => keeps_ite (fun _ => keeps_pure_bind.2 (hlast optional tree v htree)) fun _ => ?_
      exact keeps_bind (keeps_conditionalRest hg htree) fun tree w h => hlast optional tree w (allSound_tree.1 h)
    clear_value given
    grind
  clear_value inner rest
  grind [keeps_assignmentRest]

private theorem keeps_plainItem (hg : g.Keeps src) : Keeps src s (plainItem g cx) := by
  unfold plainItem
  grind [sound_asSpread]

private theorem keeps_mapM {α β : Type} [HasTrees α] [HasTrees β] {f : α → Parse β} {l : List α} (hl : AllSound src l)
    (h : ∀ a t, AllSound src a → Keeps src t (f a)) : Keeps src s (l.mapM f) := by
  induction l generalizing s with
  | nil => exact keeps_pure allSound_nil
  | cons a l ih =>
    obtain ⟨ha, hl⟩ := allSound_cons.1 hl
    rw [List.mapM_cons]
    refine keeps_bind (h a s ha) fun b t hb => keeps_bind (ih hl) fun bs u hbs => keeps_pure ?_
    exact allSound_cons.2 ⟨hb, hbs⟩

private theorem keeps_itemsToParameters {strict trailing : Bool} {items : List Item} (h : AllSound src items) :
    Keeps src s (itemsToParameters strict items trailing) := by
  refine keeps_refuseIf_bind.2 fun _ => keeps_mapM (allSound_items h) fun item t hitem => ?_
  exact keeps_toParameter (allSound_tree.1 hitem)

private theorem keeps_arrowResult? (hg : g.Keeps src) : Keeps src s (arrowResult? g cx) := by
  unfold arrowResult?
  grind [keeps_resultAscription?]

private theorem keeps_conditionalArrow? (hg : g.Keeps src) {isAsync trailing : Bool} {items : List Item}
    (h : AllSound src items) : Keeps src s (conditionalArrow? g cx start isAsync items trailing) := by
  unfold conditionalArrow?
  grind [keeps_resultAscription?, keeps_itemsToParameters, keeps_arrowRest]

private theorem keeps_parenthesizedExpression {items : List Item} {trailing : Bool} (h : AllSound src items) :
    Keeps src s (parenthesizedExpression start items trailing) := by
  refine keeps_refuseAtIf_bind.2 fun _ => ?_
  split
  · grind
  · have := allSound_items h
    grind

private theorem keeps_parenthesized (hg : g.Keeps src) {asyncCallee : Option Tree} (h : AllSound src asyncCallee) :
    Keeps src s (parenthesized g cx start asyncCallee) := by
  unfold parenthesized
  extract_lets canBeArrow isAsync item
  have hitem : ∀ u, Keeps src u item := by
    intro u
    grind [keeps_typedItem, keeps_plainItem]
  clear_value item
  refine keeps_bind keeps_expectSymbol fun _ t _ => keeps_bind (keeps_listedUntil hitem) fun found t hfound => ?_
  obtain ⟨items, trailing⟩ := found
  have hitems : AllSound src items := hfound.fst
  have hplain : AllSound src (items.map Item.tree) := allSound_items hitems
  refine keeps_atSymbol.2 ?_
  extract_lets ascribed afterResult afterEarly
  have hresult : ∀ result u, AllSound src result → Keeps src u (afterResult result) := by
    intro result u hresult
    have : AllSound src (result.getD []) := by cases result <;> simp_all
    refine keeps_atSymbol.2 (keeps_ite (fun _ => by grind [keeps_itemsToParameters, keeps_arrowRest]) fun _ => ?_)
    split <;> grind [keeps_parenthesizedExpression]
  have hearly : ∀ early u, AllSound src early → Keeps src u (afterEarly early) := by
    intro early u hearly
    cases early with
    | some arrow => exact keeps_pure (by simpa using hearly)
    | none =>
      refine keeps_ite (fun _ => ?_) fun _ => ?_
      · exact keeps_bind (keeps_arrowResult? hg) fun result v h => hresult result v h
      · exact keeps_pure_bind.2 (hresult none u allSound_none)
  clear_value afterResult afterEarly
  grind [keeps_conditionalArrow?]

private theorem sound_of_isArrow {tree : Tree} {extent : Extent} {children : List Tree} (arrow : isArrow tree = true)
    (h : AllSound src children) : Sound src (.node tree.kind extent children) := by
  rw [show tree.kind = .function .arrow from of_decide_eq_true arrow]
  exact sound_of_isPlain rfl h

private theorem keeps_genericArrow? (hg : g.Keeps src) {isAsync : Bool} :
    Keeps src s (genericArrow? g cx start isAsync) := by
  refine keeps_attempt (keeps_bind (keeps_typeParameters hg) fun found t hfound => ?_)
  obtain ⟨generics, distinct⟩ := found
  refine keeps_refuseIf_bind.2 fun _ => keeps_atSymbol.2 (keeps_refuseIf_bind.2 fun _ => ?_)
  extract_lets wrapped
  have hwrapped : ∀ arrow u, Sound src arrow → Keeps src u (wrapped arrow) := by
    refine fun arrow u harrow => keeps_refuseIf_bind.2 fun isArrow => ?_
    obtain ⟨kind, extent, children⟩ := arrow
    have hchildren : AllSound src children := (sound_node.1 harrow).2
    refine keeps_pure (allSound_tree.2 (sound_of_isArrow (by simpa using isArrow) ?_))
    exact allSound_append.2 ⟨hfound.fst, hchildren⟩
  refine keeps_ite (fun _ => ?_) fun _ => ?_
  · refine keeps_bind (keeps_parenthesized hg (by simp)) fun arrow u h => hwrapped arrow u (allSound_tree.1 h)
  · exact keeps_bind (hg.assignment _ _) fun arrow u h => hwrapped arrow u (allSound_tree.1 h)

/-! ## Primary expressions -/

private theorem keeps_literal {l : Literal} (goesOn : s.token.kind ≠ .endOfText) : Keeps src s (literal l) := by
  unfold literal
  grind

private theorem keeps_regex (slash : s.token.kind = .symbol "/" ∨ s.token.kind = .symbol "/=") : Keeps src s regex := by
  refine keeps_of_inv fun hs => keeps_current.2 (keeps_lift_bind fun stop read => ?_)
  obtain ⟨text, symbol, first⟩ : ∃ text, s.token.kind = .symbol text ∧ text.toList.head? = some '/' := by
    rcases slash with h | h <;> exact ⟨_, h, by decide⟩
  have hread : readKind s.token.start = .ok (.symbol text, s.token.stop) := symbol ▸ hs.located.read
  have begins : s.token.start.head? = some '/' := (head?_of_symbol hread).trans first
  have loose : ¬ s.token.kind.IsFirm := symbol ▸ not_isFirm_symbol hread begins (by decide)
  have passes : Passes s.token.start stop := readRegex_passes begins read
  refine keeps_bind ⟨⟨fun hs u t run => ⟨?_, allSound_unit _⟩⟩⟩ fun _ t _ => keeps_finish rfl allSound_nil
  exact step_resume hs hs.located.within (.regex read) passes (Nat.le_refl _) (fun firm => absurd firm loose) run

private theorem keeps_variableOrArrow (hg : g.Keeps src) {isAsync : Bool} :
    Keeps src s (variableOrArrow g cx start isAsync) := by
  unfold variableOrArrow
  grind [keeps_arrowRest, keeps_toParameter]

private theorem keeps_asyncExpression (hg : g.Keeps src) (goesOn : s.token.kind ≠ .endOfText) :
    Keeps src s (asyncExpression g cx) := by
  refine keeps_here.2 (keeps_peek fun next => ?_)
  extract_lets canBeArrow
  have plain : Keeps src s (variableOrArrow g cx s.token.startOffset false) := keeps_variableOrArrow hg
  split
  · exact plain
  · next next =>
    refine keeps_ite (fun _ => plain) fun _ => keeps_ite (fun _ => ?_) fun _ => keeps_ite (fun _ => ?_) fun _ => ?_
    · exact keeps_bind (keeps_advance goesOn) fun _ t _ => keeps_functionExpression hg
    · exact keeps_bind (keeps_advance goesOn) fun _ t _ => keeps_parenthesized hg (by simp)
    refine keeps_ite (fun _ => keeps_attempt_bind ?_ (fun _ _ h => keeps_pure h) plain) fun _ => ?_
    · refine keeps_bind (keeps_advance goesOn) fun _ t _ => keeps_bind (keeps_genericArrow? hg) fun arrow t h => ?_
      split <;> grind
    refine keeps_ite (fun _ => keeps_attempt_bind ?_ (fun _ _ h => keeps_pure h) plain) fun _ => plain
    exact keeps_bind (keeps_advance goesOn) fun _ t _ => keeps_variableOrArrow hg

private theorem keeps_importExpression (hg : g.Keeps src) {calls : Bool} :
    Keeps src s (importExpression g cx calls) := by
  unfold importExpression
  grind [keeps_callArguments]

private theorem keeps_newExpression (hg : g.Keeps src) : Keeps src s (newExpression g cx) := by
  refine keeps_here.2 (keeps_bind keeps_expectWord fun _ t _ => keeps_bind keeps_eatSymbol fun target t _ => ?_)
  refine keeps_ite (fun _ => by grind) fun _ => keeps_atWord.2 (keeps_refuseIf_bind.2 fun _ => ?_)
  refine keeps_bind (hg.leftHand _ _ _) fun callee t hcallee => keeps_atSymbol.2 (keeps_refuseIf_bind.2 fun _ => ?_)
  have hrest : ∀ (generics : List Tree) u, AllSound src generics → Keeps src u (do
      let arguments ← if ← atSymbol "(" then callArguments g cx else pure []
      finish s.token.startOffset .expression (callee :: generics ++ arguments)) := by
    intro generics u hgenerics
    grind [keeps_callArguments]
  refine keeps_asks tells_atAnySymbol fun _ _ => keeps_ite (fun _ => ?_) fun _ => ?_
  · refine keeps_bind (keeps_attempt (keeps_typeArguments hg)) fun generics u h => keeps_pure_bind.2 (hrest _ u ?_)
    cases generics <;> simp_all
  · exact keeps_pure_bind.2 (hrest [] t allSound_nil)

private theorem keeps_superExpression : Keeps src s (superExpression cx) := by
  unfold superExpression
  grind

private theorem keeps_primaryName (hg : g.Keeps src) {calls : Bool} {name : String}
    (goesOn : s.token.kind ≠ .endOfText) :
    Keeps src s (primaryName g cx calls name) := by
  unfold primaryName
  grind [keeps_literal, keeps_functionExpression, keeps_classRest, keeps_newExpression, keeps_superExpression,
    keeps_importExpression, keeps_asyncExpression, keeps_variableOrArrow]

/-- An element begins at the current token. -/
private theorem keeps_element (hg : g.Keeps src) {text : String} (symbol : s.token.kind = .symbol text)
    (angle : s.token.start.head? = some '<') : Keeps src s (do
      let (element, stop) ← g.element cx s.token.start
      resume stop
      return element) := by
  refine ⟨⟨fun hs element t run => ?_⟩⟩
  obtain ⟨⟨element, stop⟩, u, first, run⟩ := bind_ok run
  obtain ⟨_, _, resumed, run⟩ := bind_ok run
  cases run
  obtain ⟨moved, hfound, c, within, lexeme, passes, ahead⟩ :=
    (hg.element _ _ _ hs.located.within angle (Nat.le_refl _)).step hs _ _ first
  obtain ⟨located, next, stopped⟩ := resume_ok (within.reaches passes.1) resumed
  have loose : ¬ s.token.kind.IsFirm := symbol ▸ not_isFirm_symbol (symbol ▸ hs.located.read) angle (by decide)
  have start : s.token.startOffset ≤ c.offset := Nat.le_trans moved.start_le ahead
  refine ⟨step_of_lexeme hs within lexeme passes start (fun firm => absurd firm loose) located next stopped, ?_⟩
  exact hfound.fst

private theorem keeps_primary (hg : g.Keeps src) {calls : Bool} : Keeps src s (primary g cx calls) := by
  refine keeps_here.2 (keeps_kind.2 ?_)
  unfold refuseLegacy
  split
  case h_1 => grind [keeps_variableOrArrow, keeps_primaryName]
  case h_5 => exact keeps_template hg
  case h_6 text symbol =>
    have decorated : Keeps src s (do
        let decorators ← decorators g cx
        classRest g cx s.token.startOffset decorators true) := by
      grind [keeps_decorators, keeps_classRest]
    refine keeps_ite (fun _ => keeps_parenthesized hg allSound_none) fun _ => ?_
    refine keeps_ite (fun _ => keeps_arrayLiteral hg) fun _ => keeps_ite (fun _ => keeps_objectLiteral hg) fun _ => ?_
    refine keeps_ite (fun slash => keeps_regex ?_) fun _ => keeps_ite (fun _ => decorated) fun _ => keeps_current.2 ?_
    · simpa [symbol] using slash
    · refine keeps_ite (fun angle => ?_) fun _ => keeps_refuse
      exact keeps_current.2 (keeps_element hg symbol (by simp_all))
  all_goals grind [keeps_literal]

/-! ## Members and calls -/

private theorem keeps_memberName : Keeps src s memberName := by
  unfold memberName
  grind

private theorem asks_mayFollowTypeArguments : Asks mayFollowTypeArguments s fun _ => True := by
  refine asks_bind asks_current fun token htoken => ?_
  repeat' split
  all_goals exact ⟨_, rfl, trivial⟩

@[grind norm] theorem sound_chainKind {chain : Chain} {k : Kind} (plain : k.isPlain = true) {extent : Extent}
    {children : List Tree} : Sound src (.node (chain.kind k) extent children) ↔ AllSound src children := by
  unfold Chain.kind
  split
  · exact sound_node_of_isPlain rfl
  · exact sound_node_of_isPlain plain

private theorem keeps_instantiated (hg : g.Keeps src) {chain : Chain} {calls : Bool} (h : AllSound src chain) :
    Keeps src s (instantiated g cx chain calls) := by
  have h : Sound src chain.tree := allSound_chain.1 h
  refine keeps_attempt (keeps_bind (keeps_typeArguments hg) fun generics t hgenerics => keeps_atSymbol.2 ?_)
  refine keeps_ite (fun _ => ?_) fun _ => keeps_kind.2 (keeps_ite (fun _ => ?_) fun _ => ?_)
  · grind [keeps_callArguments]
  · grind [keeps_templateParts]
  · refine keeps_atSymbol.2 (keeps_refuseIf_bind.2 fun _ => keeps_asks asks_mayFollowTypeArguments fun _ _ => ?_)
    grind

private theorem keeps_optionalLink (hg : g.Keeps src) {chain : Chain} (h : AllSound src chain) :
    Keeps src s (optionalLink g cx chain) := by
  have h : Sound src chain.tree := allSound_chain.1 h
  unfold optionalLink
  grind [keeps_callArguments, keeps_typeArguments, keeps_memberName]

private theorem keeps_link (hg : g.Keeps src) {chain : Chain} {calls : Bool} (h : AllSound src chain) :
    Keeps src s (link g cx calls chain) := by
  have htree : Sound src chain.tree := allSound_chain.1 h
  refine keeps_kind.2 ?_
  split
  case h_6 => grind [keeps_templateParts]
  case h_7 => grind [keeps_instantiated]
  all_goals grind [keeps_optionalLink, keeps_memberName, keeps_callArguments]

theorem keeps_leftHandExpression (hg : g.Keeps src) {calls : Bool} : Keeps src s (leftHandExpression g cx calls) := by
  refine keeps_bind (keeps_primary hg) fun first t hfirst => keeps_ite (fun _ => keeps_pure hfirst) fun _ => ?_
  refine keeps_bind (keeps_loop (by simpa using hfirst) fun chain t hchain => ?_) fun chain t hchain => ?_
  · refine keeps_bind (keeps_link hg hchain) fun longer t hlonger => ?_
    split <;> grind
  · exact keeps_pure (by simpa using hchain)

/-! ## Unary operators -/

private theorem keeps_prefixed (hg : g.Keeps src) (goesOn : s.token.kind ≠ .endOfText) :
    Keeps src s (prefixed g cx) := by
  unfold prefixed
  grind

private theorem keeps_awaitExpression (hg : g.Keeps src) (goesOn : s.token.kind ≠ .endOfText) :
    Keeps src s (awaitExpression g cx) := by
  unfold awaitExpression
  grind

private theorem keeps_updated (hg : g.Keeps src) (goesOn : s.token.kind ≠ .endOfText) : Keeps src s (updated g cx) := by
  unfold updated
  grind

private theorem keeps_typeAssertion (hg : g.Keeps src) : Keeps src s (typeAssertion g cx) := by
  unfold typeAssertion
  grind

private theorem keeps_postfixed (hg : g.Keeps src) : Keeps src s (postfixed g cx) := by
  unfold postfixed
  grind [keeps_leftHandExpression]

theorem keeps_unaryExpression (hg : g.Keeps src) : Keeps src s (unaryExpression g cx) := by
  refine keeps_kind.2 ?_
  split <;> grind [keeps_prefixed, keeps_awaitExpression, keeps_updated, keeps_typeAssertion, keeps_postfixed]

/-! ## Binary operators -/

private theorem keeps_converted (hg : g.Keeps src) {value : Tree} (h : Sound src value)
    (goesOn : s.token.kind ≠ .endOfText) :
    Keeps src s (converted g cx value) := by
  unfold converted
  grind

private theorem keeps_binaryRest (hg : g.Keeps src) {fuel floor : Nat} {left : Tree} (h : Sound src left) :
    Keeps src s (binaryRest g cx fuel floor left) := by
  induction fuel generalizing s floor left with
  | zero => exact keeps_pure (allSound_tree.2 h)
  | succ fuel ih =>
    refine keeps_ite (fun _ => keeps_pure (allSound_tree.2 h)) fun _ => ?_
    refine keeps_asks tells_atAnyWord fun word goesOn => keeps_onNewLine.2 (keeps_ite (fun converts => ?_) fun _ => ?_)
    · refine keeps_bind (keeps_converted hg h (goesOn (by simp_all))) fun value t hvalue => ih (allSound_tree.1 hvalue)
    refine keeps_kind.2 ?_
    split
    · exact keeps_pure (allSound_tree.2 h)
    · next strength op operator =>
      have goesOn : s.token.kind ≠ .endOfText := fun none => nomatch none ▸ operator
      refine keeps_ite (fun _ => keeps_pure (allSound_tree.2 h)) fun _ => keeps_refuseIf_bind.2 fun _ => ?_
      refine keeps_bind (keeps_advance goesOn) fun _ t _ => keeps_bind (hg.unary _ _) fun operand t hoperand => ?_
      refine keeps_bind (ih (allSound_tree.1 hoperand)) fun right t hright => keeps_refuseAtIf_bind.2 fun _ => ?_
      exact keeps_finish_bind.2 (ih (by simp_all))

private theorem keeps_privateOperand (goesOn : s.token.kind ≠ .endOfText) : Keeps src s (privateOperand cx) := by
  unfold privateOperand
  grind

theorem keeps_binaryExpression (hg : g.Keeps src) : Keeps src s (binaryExpression g cx) := by
  have rest : ∀ left t, AllSound src left → Keeps src t (do binaryRest g cx (← rounds) 0 left) :=
    fun left t h => keeps_asks asks_rounds fun _ _ => keeps_binaryRest hg (allSound_tree.1 h)
  refine keeps_atPrivateName ⟨fun goesOn => ?_, ?_⟩
  · exact keeps_bind (keeps_privateOperand goesOn) rest
  · exact keeps_bind (keeps_unaryExpression hg) rest

/-! ## Assignments and sequences -/

private theorem keeps_yieldExpression (hg : g.Keeps src) (goesOn : s.token.kind ≠ .endOfText) :
    Keeps src s (yieldExpression g cx) := by
  unfold yieldExpression
  grind

theorem keeps_assignmentExpression (hg : g.Keeps src) : Keeps src s (assignmentExpression g cx) := by
  refine keeps_here.2 (keeps_atWord.2 (keeps_ite (fun yields => ?_) fun _ => keeps_atSymbol.2 ?_))
  · exact keeps_yieldExpression hg (by simp_all)
  extract_lets inner rest
  have hrest : ∀ generic t, AllSound src generic → Keeps src t (rest generic) := by
    intro generic t hgeneric
    cases generic with
    | some arrow => exact keeps_pure (allSound_some.1 hgeneric)
    | none =>
      refine keeps_bind (keeps_binaryExpression hg) fun test u htest => ?_
      refine keeps_bind (keeps_conditionalRest hg (allSound_tree.1 htest)) fun left v hleft => ?_
      exact keeps_assignmentRest hg (allSound_tree.1 hleft)
  clear_value inner rest
  grind [keeps_genericArrow?]

theorem keeps_commaExpression (hg : g.Keeps src) : Keeps src s (commaExpression g cx) := by
  unfold commaExpression
  grind

end SpecCoverage.Program
