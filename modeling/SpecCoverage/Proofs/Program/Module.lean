import SpecCoverage.Program.Module
import SpecCoverage.Proofs.Program.Statement

/-!
# Items of modules keep their place

An exported function begins at its own first word and not at `export`: no decorator stands in front of it, so nothing
has been read between the two.
-/

namespace SpecCoverage.Program

variable {src : List Char} {s t : State} {g : Grammar} {cx : Context} {start : Nat}

/-! ## Specifiers -/

instance : HasTrees Specified := ⟨fun _ => []⟩

@[simp, grind norm] theorem allSound_specified (name : Specified) : AllSound src name := allSound_of_trees_eq_nil rfl

private theorem keeps_specifiedName? : Keeps src s specifiedName? := by
  refine keeps_kind.2 ?_
  split <;> grind

private theorem keeps_specifiedName : Keeps src s specifiedName := by
  refine keeps_bind keeps_specifiedName? fun name t _ => ?_
  split <;> grind

private theorem keeps_specifier : Keeps src s (specifier cx) := by
  refine keeps_bind keeps_specifiedName fun first t _ => keeps_ite (fun _ => ?_) fun _ => ?_
  · refine keeps_bind (keeps_repeated fun _ => keeps_specifiedName?) fun names t _ => ?_
    split <;> grind
  · grind [keeps_specifiedName]

private theorem keeps_specifiers : Keeps src s (specifiers cx) := by
  unfold specifiers
  grind [keeps_specifier]

private theorem keeps_moduleSource : Keeps src s moduleSource := by
  unfold moduleSource
  grind

private theorem keeps_importAttributes : Keeps src s importAttributes := by
  unfold importAttributes
  grind [keeps_moduleSource]

private theorem keeps_sourceClause : Keeps src s sourceClause := by
  unfold sourceClause
  grind [keeps_moduleSource, keeps_importAttributes]

/-! ## Imports -/

private theorem keeps_refuseImported {found : List (Specified × Specified)} : Keeps src s (refuseImported cx found) :=
  keeps_refuseIf

private theorem keeps_importedNames : Keeps src s (importedNames cx) := by
  unfold importedNames
  grind [keeps_refuseImported, keeps_specifiers]

private theorem keeps_importEquals : Keeps src s importEquals := by
  unfold importEquals peekSymbol
  grind [keeps_moduleSource, keeps_qualifiedName]

private theorem asks_peekSecond : Asks peekSecond s fun _ => True :=
  asks_bind (asks_glance _) fun _ _ => ⟨_, rfl, trivial⟩

private theorem keeps_importDeclaration : Keeps src s (importDeclaration cx) := by
  refine keeps_here.2 (keeps_bind keeps_expectWord fun _ t _ => keeps_current.2 ?_)
  extract_lets finished last names
  have hfinished : ∀ t, Keeps src t (finished ()) := fun t => by grind
  have hlast : ∀ t, Keeps src t (last ()) := fun t => keeps_bind keeps_sourceClause fun _ t _ => hfinished t
  clear_value finished last
  have hnames : ∀ t, Keeps src t (names ()) := by
    refine fun t => keeps_asks tells_atAnySymbol fun _ _ => keeps_ite (fun _ => ?_) fun _ => ?_
    · exact keeps_bind keeps_importedNames fun _ t _ => keeps_bind keeps_sourceClause fun _ t _ => hfinished t
    · grind [keeps_importEquals, keeps_importedNames]
  clear_value names
  refine keeps_ite (fun _ => ?_) fun _ => keeps_atWord.2 (keeps_ite (fun word => ?_) fun _ => hnames t)
  · grind [keeps_moduleSource, keeps_importAttributes]
  · have goesOn : t.token.kind ≠ .endOfText := by grind
    refine keeps_asks asks_peekSecond fun second _ => keeps_asks asks_peekIs fun _ _ => ?_
    refine keeps_ite (fun _ => ?_) fun _ => hnames t
    exact keeps_bind (keeps_advance goesOn) fun _ t _ => hnames t

/-! ## Exports -/

private theorem keeps_exportedNames : Keeps src s (exportedNames cx) := by
  unfold exportedNames refuseExported
  grind [keeps_sourceClause, keeps_specifiers]

private theorem runs_decoratorsOrStay (hg : g.Keeps src) : Runs Step src s (decorators g cx) fun found t =>
    AllSound src found ∧ (found = [] → t = s) := by
  refine ⟨fun hs found t run => ?_⟩
  obtain ⟨step, hfound⟩ := (keeps_decorators hg).step hs run
  refine ⟨step, hfound, ?_⟩
  rintro rfl
  refine repeated_eq_nil (fun u v round => ?_) run
  obtain ⟨_, _, atSign, round⟩ := bind_ok round
  cases atSign
  split at round
  · obtain ⟨_, _, -, round⟩ := bind_ok round
    cases round
  · cases round
    rfl

private theorem keeps_defaultExport (hg : g.Keeps src) {decorated : List Tree} (h : AllSound src decorated) :
    Keeps src s (defaultExport g cx decorated) := by
  refine keeps_here.2 (keeps_bind_of_runs (runs_decoratorsOrStay hg) fun found t ⟨hfound, stays⟩ => ?_)
  extract_lets decorators
  have hdecorators : AllSound src decorators := allSound_append.2 ⟨h, hfound⟩
  have undecorated : (!decorators.isEmpty) = false → t = s := by
    simp only [Bool.not_eq_false', List.isEmpty_iff]
    exact fun none => stays (List.append_eq_nil_iff.1 none).2
  clear_value decorators
  refine keeps_atWord.2 (keeps_asks asks_peekIs fun _ _ => keeps_ite (fun abstract => ?_) fun _ => keeps_atWord.2 ?_)
  · exact keeps_bind (keeps_advance (by grind)) fun _ t _ => keeps_classRest hg hdecorators
  refine keeps_ite (fun _ => keeps_classRest hg hdecorators) fun _ => keeps_refuseIf_bind.2 fun none => ?_
  obtain rfl := undecorated none
  refine keeps_atWord.2 (keeps_ite (fun _ => keeps_functionDeclaration hg (.inl rfl)) fun _ => keeps_atWord.2 ?_)
  refine keeps_asks asks_peekIs fun _ _ => keeps_ite (fun async => ?_) fun _ => keeps_atWord.2 ?_
  · have word : t.token.kind = .name "async" false := by simp_all
    refine keeps_bind_of_runs (runs_advance BeginsFunction (.inr word) (by simp [word])) fun _ u ⟨begins, _⟩ => ?_
    exact keeps_functionDeclaration hg (.inr (.inl begins))
  refine keeps_asks asks_peekIs fun _ _ => keeps_ite (fun _ => ?_) fun _ => ?_
  · refine keeps_bind (keeps_declaration? hg) fun tree u htree => ?_
    split <;> grind
  · grind

private theorem keeps_typedExport? (hg : g.Keeps src) : Keeps src s (typedExport? g cx) := by
  refine keeps_bind keeps_eatSymbol fun _ t _ => keeps_ite (fun _ => by grind) fun _ => keeps_atWord.2 ?_
  refine keeps_asks asks_peekIs fun named peeked => keeps_ite (fun atAs => ?global) fun _ => keeps_atWord.2 ?_
  case global =>
    refine keeps_advance_bind (by grind) (peeked (by simp_all)) fun u next => ?_
    have goesOn : u.token.kind ≠ .endOfText := by simp [beq_iff_eq.1 next]
    grind
  refine keeps_ite (fun atImport => ?equals) fun _ => keeps_atWord.2 ?_
  case equals =>
    refine keeps_bind (keeps_advance (by simp [beq_iff_eq.1 atImport])) fun _ t _ => keeps_atWord.2 ?_
    grind [keeps_importEquals]
  grind [keeps_exportedNames]

private theorem keeps_exportDeclaration (hg : g.Keeps src) {decorated : List Tree} (h : AllSound src decorated) :
    Keeps src s (exportDeclaration g cx decorated) := by
  refine keeps_here.2 (keeps_bind keeps_expectWord fun _ t _ => ?_)
  extract_lets inner rest
  have hrest : ∀ typed u, AllSound src typed → Keeps src u (rest typed) := by
    intro typed u htyped
    cases typed with
    | some parts => exact keeps_refuseIf_bind.2 fun _ => keeps_finish rfl (allSound_some.1 htyped)
    | none =>
      refine keeps_bind keeps_eatWord fun default u _ => keeps_ite (fun _ => by grind [keeps_defaultExport]) fun _ => ?_
      refine keeps_asks tells_atAnySymbol fun _ _ => keeps_ite (fun _ => by grind [keeps_exportedNames]) fun _ => ?_
      refine keeps_bind (keeps_declaration? hg) fun tree v htree => ?_
      split <;> grind
  clear_value inner rest
  grind [keeps_typedExport?]

/-! ## Items -/

private theorem keeps_decoratedExport? (hg : g.Keeps src) : Keeps src s (decoratedExport? g cx) := by
  unfold decoratedExport?
  grind [keeps_decorators]

private theorem asks_atImport : Asks atImport s fun _ => True :=
  asks_bind (asks_of_eq rfl) fun _ _ => asks_bind asks_peekIs fun _ _ => ⟨_, rfl, trivial⟩

theorem keeps_moduleItem (hg : g.Keeps src) : Keeps src s (moduleItem g cx) := by
  refine keeps_asks asks_atImport fun _ _ => keeps_ite (fun _ => keeps_importDeclaration) fun _ => keeps_atWord.2 ?_
  refine keeps_ite (fun _ => keeps_exportDeclaration hg allSound_nil) fun _ => ?_
  extract_lets rest
  have hrest : ∀ decorated t, AllSound src decorated → Keeps src t (rest decorated) := by
    intro decorated t h
    cases decorated with
    | some found => exact keeps_exportDeclaration hg (allSound_some.1 h)
    | none => exact hg.listed _ _
  refine keeps_ite (fun _ => ?_) fun _ => ?_
  · exact keeps_bind (keeps_decoratedExport? hg) hrest
  · exact keeps_pure_bind.2 (hrest none s allSound_none)

end SpecCoverage.Program
