import SpecCoverage.Program.Type
import SpecCoverage.Proofs.Program.Pattern

/-!
# Types keep their place

No type is a declaration, so its tree is sound as soon as the trees below it are.
-/

namespace SpecCoverage.Program

variable {src : List Char} {s : State} {g : Grammar} {cx : Context}

/-! ## Names and lists of types -/

theorem keeps_qualifiedName : Keeps src s qualifiedName := by
  unfold qualifiedName
  grind

private theorem keeps_typesUntilAngle (hg : g.Keeps src) : Keeps src s (typesUntilAngle g cx) := by
  unfold typesUntilAngle
  grind

theorem keeps_typeArguments (hg : g.Keeps src) : Keeps src s (typeArguments g cx) := by
  unfold typeArguments
  grind [keeps_typesUntilAngle]

theorem keeps_typeArguments? (hg : g.Keeps src) : Keeps src s (typeArguments? g cx) := by
  unfold typeArguments? atOpeningAngle
  grind [keeps_typeArguments]

private theorem keeps_typeParameter (hg : g.Keeps src) : Keeps src s (typeParameter g cx) := by
  unfold typeParameter
  grind

theorem keeps_typeParameters (hg : g.Keeps src) : Keeps src s (typeParameters g cx) := by
  refine keeps_bind keeps_expectSymbol fun _ t _ => keeps_bind (keeps_typeParameter hg) fun first t hfirst => ?_
  refine keeps_bind (keeps_loop (by simp) fun found t hfound => ?_) fun found t hfound => ?_
  · grind [keeps_typeParameter]
  · grind

theorem keeps_typeParameters? (hg : g.Keeps src) : Keeps src s (typeParameters? g cx) := by
  unfold typeParameters?
  grind [keeps_typeParameters]

private theorem gives_typeParameter : Gives (fun t _ => t.kind = .type) (typeParameter g cx) := by
  refine gives_bind fun start => ?_
  extract_lets outer inner default
  have hdefault : ∀ constraint, Gives (fun t _ => t.kind = .type) (default constraint) := fun constraint =>
    gives_bind fun _ => gives_ite (gives_bind fun _ => gives_bind fun _ => gives_finish fun _ _ => rfl)
      (gives_bind fun _ => gives_finish fun _ _ => rfl)
  refine gives_bind fun _ => gives_bind fun _ => gives_bind fun _ => gives_bind fun _ => gives_bind fun _ => ?_
  exact gives_ite (gives_bind fun _ => gives_bind hdefault) (gives_bind hdefault)

private theorem gives_typeParameters : Gives (fun p _ => ∀ t ∈ p.1, t.kind = .type) (typeParameters g cx) := by
  refine gives_bind fun _ => gives_bind_of gives_typeParameter fun first _ hfirst => ?_
  refine gives_bind_of (gives_loop (fun x => ∀ t ∈ x.1, t.kind = .type) (by simp) ?_) fun found _ hfound => ?_
  · rintro ⟨found, comma⟩ hfound
    refine gives_bind fun _ => gives_ite (gives_bind fun _ => ?_) (gives_pure fun _ => hfound)
    refine gives_ite (gives_pure fun _ => hfound) ?_
    refine gives_bind_of gives_typeParameter fun another _ hanother => gives_pure fun _ => ?_
    simpa [or_imp, forall_and] using ⟨hfound, hanother⟩
  · obtain ⟨found, comma⟩ := found
    exact gives_bind fun _ => gives_pure fun _ => by simpa using ⟨hfirst, hfound⟩

theorem gives_typeParameters? : Gives (fun ts _ => ∀ t ∈ ts, t.kind = .type) (typeParameters? g cx) := by
  refine gives_bind fun _ => gives_ite ?_ (gives_pure fun _ => by simp)
  exact gives_bind_of gives_typeParameters fun _ _ h => gives_pure fun _ => h

/-! ## Functions -/

private theorem keeps_typeOrPredicate (hg : g.Keeps src) : Keeps src s (typeOrPredicate g cx) := by
  refine keeps_here.2 ?_
  extract_lets outer inner subject
  clear_value inner
  have hsubject : ∀ t, Keeps src t (subject ()) := by grind
  clear_value subject
  refine keeps_bind (keeps_attempt (keeps_atWord.2 (keeps_peekIs ⟨fun _ => ?_, ?_⟩))) fun predicate t hpredicate => ?_
  · exact keeps_attempt_bind (by grind) (by grind) (by grind)
  · exact keeps_attempt_bind (by grind) (by grind) (by grind)
  · split <;> grind

private theorem keeps_resultType (hg : g.Keeps src) : Keeps src s (resultType g cx) := by
  unfold resultType
  grind [keeps_typeOrPredicate, sound_of_isPlain]

theorem keeps_resultAscription? (hg : g.Keeps src) : Keeps src s (resultAscription? g cx) := by
  unfold resultAscription?
  grind [keeps_resultType]

theorem gives_resultAscription? : Gives (fun ts _ => ∀ t ∈ ts, t.kind = .ascription) (resultAscription? g cx) := by
  refine gives_bind fun _ => gives_ite ?_ (gives_pure fun _ => by simp)
  refine gives_bind_of (q := fun t _ => t.kind = .ascription) ?_ fun t _ h => gives_pure fun _ => by simpa using h
  exact gives_bind fun _ => gives_pure fun _ => rfl

private theorem keeps_signatureParameter (hg : g.Keeps src) : Keeps src s (signatureParameter g cx) := by
  refine keeps_here.2 (keeps_bind keeps_eatSymbol fun rest t _ => keeps_here.2 ?_)
  extract_lets given
  have hgiven : ∀ target t, AllSound src target → target.kind.isPlain = true → Keeps src t (given target) := by
    intro target t h plain
    have hrest : ∀ t, Keeps src t (do
        let target ← withAscription g cx target
        if rest then finish s.token.startOffset .restPattern [target] else return target) := by
      grind [keeps_withAscription]
    grind
  clear_value given
  refine keeps_bind keeps_eatWord fun this t _ => keeps_ite (fun _ => ?_) fun _ => ?_
  · exact keeps_finish_bind.2 (hgiven _ t (by simp) rfl)
  · exact keeps_bind_of_gives (hg.binding _ _) (hg.pattern _) fun target t => hgiven target t

private theorem keeps_signatureParameters (hg : g.Keeps src) : Keeps src s (signatureParameters g cx) := by
  unfold signatureParameters
  grind [keeps_signatureParameter]

private theorem keeps_signature (hg : g.Keeps src) : Keeps src s (signature g cx) := by
  unfold signature
  grind [keeps_typeParameters?, keeps_signatureParameters, keeps_resultAscription?]

private theorem keeps_functionType (hg : g.Keeps src) {start : Nat} : Keeps src s (functionType g cx start) := by
  unfold functionType
  grind [keeps_typeParameters?, keeps_signatureParameters, keeps_typeOrPredicate]

/-! ## Members -/

private theorem keeps_indexSignature (hg : g.Keeps src) : Keeps src s (indexSignature g cx) := by
  unfold indexSignature atIndexSignature
  grind [keeps_ascription?]

private theorem keeps_memberEnd : Keeps src s memberEnd := by
  unfold memberEnd
  grind

private theorem keeps_typeMember (hg : g.Keeps src) : Keeps src s (typeMember g cx) := by
  refine keeps_here.2 (keeps_atAnySymbol ⟨fun _ => ?_, ?_⟩)
  all_goals
    refine keeps_atWord.2 ?_
    extract_lets rest keyed modified
    have hrest : ∀ parts t, AllSound src parts → Keeps src t (rest parts) := by grind [keeps_memberEnd]
    clear_value rest
  · grind [keeps_signature]
  · have hkeyed : ∀ t, Keeps src t (keyed ()) := by grind [keeps_signature, keeps_propertyKey, keeps_ascription?]
    clear_value keyed
    have hmodified : ∀ t, Keeps src t (modified ()) := by
      refine fun t => keeps_bind (keeps_indexSignature hg) fun parts t hparts => ?_
      split <;> grind
    clear_value modified
    grind [keeps_signature]

theorem keeps_typeMembers (hg : g.Keeps src) : Keeps src s (typeMembers g cx) := by
  refine keeps_bind keeps_expectSymbol fun _ t _ => ?_
  have : ∀ t, Keeps src t (do
    if ← atSymbol "\x7d" then return none
    return some (← typeMember g { cx.bracketed with noConditionalType := false })) := by
      grind [keeps_typeMember]
  grind

private theorem keeps_eatModifier {word : String} : Keeps src s (eatModifier word) := by
  unfold eatModifier
  grind

private theorem keeps_mappedType (hg : g.Keeps src) {start : Nat} : Keeps src s (mappedType g cx start) := by
  refine keeps_bind keeps_expectSymbol fun _ t _ => keeps_bind keeps_eatModifier fun _ t _ => ?_
  refine keeps_bind keeps_expectSymbol fun _ t _ => keeps_bind keeps_anyName fun _ t _ => ?_
  refine keeps_bind keeps_expectWord fun _ t _ => keeps_bind (hg.type _ _) fun keys t hkeys => ?_
  extract_lets rest
  have hrest : ∀ renamed t, AllSound src renamed → Keeps src t (rest renamed) := by
    intro renamed t hrenamed
    have hvalue : ∀ t, Keeps src t (do
        let value ← ascription? g cx
        expectSemicolon
        expectSymbol "\x7d"
        finish start .type (keys :: renamed ++ value.toList)) := by
      grind [keeps_ascription?]
    grind
  clear_value rest
  grind

private theorem keeps_tupleElement (hg : g.Keeps src) : Keeps src s (tupleElement g cx) := by
  unfold tupleElement
  grind

/-! ## Types -/

private theorem keeps_templateTypes (hg : g.Keeps src) : Keeps src s (templateTypes g cx) := by
  refine keeps_of_inv fun hs => keeps_current.2 ?_
  refine keeps_bind (keeps_loop_of (fun x t => Ahead src t x.2) (by simp) hs.ahead_stop ?keeps ?relates) ?rest
  case keeps =>
    rintro ⟨types, cursor⟩ t htypes ahead
    refine keeps_lift_bind fun piece read => ?_
    obtain ⟨ending, valid, stop⟩ := piece
    refine keeps_refuseIf_bind.2 fun _ => keeps_bind (keeps_resumeTemplate ahead read) fun _ t _ => ?_
    split <;> grind
  case relates =>
    rintro ⟨types, cursor⟩
    refine gives_bind fun piece => gives_bind fun _ => gives_bind fun _ => ?_
    split
    · exact gives_pure fun _ => nofun
    · exact gives_bind fun type => gives_bind fun _ => gives_bind fun _ => gives_current_pure fun t _ => Inv.ahead_stop
  case rest =>
    grind

private theorem keeps_importType (hg : g.Keeps src) : Keeps src s (importType g cx) := by
  refine keeps_bind keeps_expectWord fun _ t _ => keeps_bind keeps_expectSymbol fun _ t _ => ?_
  refine keeps_current.2 (keeps_refuseIf_bind.2 fun text => ?_)
  refine keeps_bind (keeps_advance (kind_ne_of_isString (by simpa using text))) fun _ t _ => ?_
  refine keeps_bind keeps_eatSymbol fun comma t _ => ?_
  extract_lets rest
  have hrest : ∀ options t, AllSound src options → Keeps src t (rest options) := by
    intro options t hoptions
    grind [keeps_typeArguments?, keeps_qualifiedName]
  clear_value rest
  grind

private theorem keeps_primaryType (hg : g.Keeps src) : Keeps src s (primaryType g cx) := by
  refine keeps_here.2 ?_
  extract_lets outer inner
  clear_value inner
  refine keeps_kind.2 ?_
  split
  · next name _ hname =>
    have some : s.token.kind ≠ .endOfText := by simp [hname]
    refine keeps_ite (fun _ => ?_) fun _ => keeps_ite (fun _ => ?_) fun _ => keeps_ite (fun _ => ?_) fun _ => ?_
    · grind
    · grind [keeps_importType, keeps_typeArguments?, keeps_qualifiedName]
    · grind [keeps_importType]
    · grind [keeps_typeArguments?, keeps_qualifiedName]
  · grind
  · grind
  · grind
  · grind [keeps_templateTypes]
  · refine keeps_bind (keeps_advance (by simp [*])) fun _ t _ => keeps_kind.2 ?_
    split <;> grind
  · unfold atMappedType
    grind [keeps_mappedType, keeps_typeMembers]
  · grind [keeps_tupleElement]
  · grind
  · grind

private theorem keeps_postfixType (hg : g.Keeps src) : Keeps src s (postfixType g cx) := by
  unfold postfixType
  grind [keeps_primaryType]

private theorem keeps_inferredType (hg : g.Keeps src) {start : Nat} : Keeps src s (inferredType g cx start) := by
  unfold inferredType
  grind

private theorem keeps_operatorType (hg : g.Keeps src) : Keeps src s (operatorType g cx) := by
  refine keeps_bind (keeps_repeated fun t => by grind) fun starts t _ => keeps_here.2 ?_
  have wrapped : ∀ operand : Tree, Sound src operand →
      Sound src (starts.foldr (fun start type => .node .type ⟨start, type.stop⟩ [type]) operand) := by
    intro operand h
    induction starts <;> simp_all
  grind [keeps_inferredType, keeps_postfixType]

private theorem keeps_chainedType {symbol : String} {part : Parse Tree} (h : ∀ t, Keeps src t part) :
    Keeps src s (chainedType symbol part) := by
  unfold chainedType
  grind

private theorem keeps_unionType (hg : g.Keeps src) : Keeps src s (unionType g cx) :=
  keeps_chainedType fun _ => keeps_chainedType fun _ => keeps_operatorType hg

theorem keeps_typeExpression (hg : g.Keeps src) : Keeps src s (typeExpression g cx) := by
  refine keeps_here.2 ?_
  extract_lets inner
  clear_value inner
  have hunion : ∀ t, Keeps src t (do
      let checked ← unionType g cx
      if !cx.noConditionalType && (← atWord "extends") && !(← onNewLine) then
        advance
        let bound ← g.type { inner with noConditionalType := true }
        expectSymbol "?"
        let whenTrue ← g.type inner
        expectSymbol ":"
        let whenFalse ← g.type inner
        finish s.token.startOffset .type [checked, bound, whenTrue, whenFalse]
      else return checked) := by
    refine fun t => keeps_bind (keeps_unionType hg) fun checked t hchecked => ?_
    grind
  refine keeps_atSymbol.2 (keeps_ite (fun _ => keeps_functionType hg) fun _ => keeps_atSymbol.2 ?_)
  refine keeps_bind_assoc.2 (keeps_glance fun answer => keeps_pure_bind.2 (keeps_ite (fun _ => ?_) fun _ => ?_))
  · exact keeps_functionType hg
  · grind [keeps_functionType, keeps_advance_bind]

end SpecCoverage.Program
