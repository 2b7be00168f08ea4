import SpecCoverage.Program.Declaration
import SpecCoverage.Proofs.Program.ClassBody

/-!
# Declarations keep their place

A declaration begins at its first word or at `declare` in front of it, where no function has a body.
-/

namespace SpecCoverage.Program

variable {src : List Char} {s t : State} {g : Grammar} {cx : Context} {start : Nat}

/-! ## Variables -/

private theorem keeps_declarator (hg : g.Keeps src) {word : String} {inHead : Bool} :
    Keeps src s (declarator g cx word inHead) := by
  refine keeps_here.2 (keeps_kind.2 ?_)
  extract_lets namedLet
  refine keeps_refuseIf_bind.2 fun _ => ?_
  refine keeps_bind_of_gives (hg.binding _ _) (hg.pattern _) fun target t htarget plain => ?_
  refine keeps_atSymbol.2 (keeps_onNewLine.2 ?_)
  extract_lets rest
  have hrest : ∀ t, Keeps src t (rest ()) := by
    refine fun t => keeps_bind (keeps_withAscription hg plain (allSound_tree.1 htarget)) fun target t htarget => ?_
    grind
  clear_value rest
  grind

/-- Where a declaration of variables may start: at its first word, or at one in front of it. -/
def StartsBinding (src : List Char) (start : Nat) (s : State) : Prop :=
  start = s.token.startOffset ∧ BeginsBinding s.token.kind ∨ Begins src BeginsBinding start s.lastStop

theorem StartsBinding.written {src : List Char} {start : Nat} (h : StartsBinding src start s) (hs : Inv src s)
    (step : Step src s t) (read : s.token.startOffset < t.lastStop) :
    Written src BeginsBinding Lexeme ⟨start, t.lastStop⟩ := by
  have ends := ends_of_step hs step read
  rcases h with ⟨rfl, begins⟩ | begins
  · have firm : s.token.kind.IsFirm := by
      obtain ⟨word, -, kind⟩ := begins
      exact kind ▸ isFirm_name
    exact ⟨begins_of_step hs step begins firm read, ends⟩
  · exact ⟨begins.mono step.stop_le, ends.mono (Nat.le_trans begins.le hs.behind)⟩

private theorem runs_declarators (hg : g.Keeps src) {inHead : Bool} :
    Runs Step src s (declarators g cx inHead) fun found t =>
    AllSound src found ∧ s.token.startOffset < t.lastStop := by
  refine runs_bind runs_anyName fun word t₁ step₁ read => ?_
  have rest : Keeps src t₁ (do
      let first ← declarator g cx word inHead
      let more ← repeated do
        if ← eatSymbol "," then return some (← declarator g cx word inHead) else return none
      return first :: more) := by
    grind [keeps_declarator]
  exact rest.runs_le.imp fun found t ⟨hfound, le⟩ => ⟨hfound, Nat.lt_of_lt_of_le read le⟩

theorem keeps_variableStatement (hg : g.Keeps src) (hstart : StartsBinding src start s) :
    Keeps src s (variableStatement g cx start) := by
  refine keeps_of_inv fun hs => ?_
  suffices Runs Step src s (variableStatement g cx start) fun tree _ => AllSound src tree from this.keeps fun _ _ => id
  refine runs_bind (runs_declarators hg) fun found t₁ step₁ ⟨hfound, read⟩ => ?_
  refine runs_bind keeps_expectSemicolon.runs fun _ t₂ step₂ _ => runs_finish (allSound_tree.2 ?_)
  exact sound_variables hfound (hstart.written hs (step₁.trans step₂) (Nat.lt_of_lt_of_le read step₂.stop_le))

theorem keeps_headVariables (hg : g.Keeps src) (hstart : BeginsBinding s.token.kind) :
    Keeps src s (headVariables g cx) := by
  refine keeps_of_inv fun hs => ?_
  suffices Runs Step src s (headVariables g cx) fun tree _ => AllSound src tree from this.keeps fun _ _ => id
  refine runs_here (runs_bind (runs_declarators hg) fun found t₁ step₁ ⟨hfound, read⟩ => ?_)
  have written := StartsBinding.written (.inl ⟨rfl, hstart⟩) hs step₁ read
  exact runs_finish (allSound_tree.2 (sound_variables hfound written))

/-! ## Declarations of types -/

private theorem keeps_typeName (hg : g.Keeps src) : Keeps src s (typeName g cx) := by
  unfold typeName
  grind [keeps_typeParameters?]

private theorem keeps_interfaceDeclaration (hg : g.Keeps src) : Keeps src s (interfaceDeclaration g cx start) := by
  refine keeps_bind keeps_expectWord fun _ t _ => keeps_asks tells_atAnyWord fun _ _ => ?_
  refine keeps_refuseIf_bind.2 fun _ => ?_
  refine keeps_bind (keeps_typeName hg) fun generics t hgenerics => ?_
  extract_lets rest
  have hrest : ∀ bases t, AllSound src bases → Keeps src t (rest bases) := by grind [keeps_typeMembers]
  clear_value rest
  grind

private theorem keeps_aliasDeclaration (hg : g.Keeps src) : Keeps src s (aliasDeclaration g cx start) := by
  unfold aliasDeclaration
  grind [keeps_typeName]

private theorem keeps_enumMember (hg : g.Keeps src) : Keeps src s (enumMember g cx) := by
  unfold enumMember
  grind [keeps_propertyKey]

private theorem keeps_enumDeclaration (hg : g.Keeps src) : Keeps src s (enumDeclaration g cx start) := by
  unfold enumDeclaration
  grind [keeps_enumMember]

/-! ## Namespaces -/

private theorem keeps_namespaceBody (hg : g.Keeps src) : Keeps src s (namespaceBody g cx) := by
  unfold namespaceBody
  grind

private theorem keeps_namespaceDeclaration (hg : g.Keeps src) (some : s.token.kind ≠ .endOfText) :
    Keeps src s (namespaceDeclaration g cx start) := by
  refine keeps_eatWord_bind (fun t => ?_) (keeps_bind (keeps_advance some) fun _ t _ => keeps_current.2 ?_)
  · grind [keeps_namespaceBody]
  · refine keeps_ite (fun text => ?_) fun _ => ?_
    · grind [keeps_namespaceBody]
    · refine keeps_bind keeps_boundName fun _ t _ => keeps_bind (keeps_loop (by simp) fun _ t _ => ?_) fun _ t _ => ?_
      · grind
      · grind [keeps_namespaceBody]

/-! ## Declarations -/

/-- A declaration is given, or nothing has been read. -/
def GivesUnlessStays (src : List Char) (s : State) (tree : Option Tree) (t : State) : Prop :=
  AllSound src tree ∧ (tree = none → t = s)

private theorem runs_some {rule : Parse Tree} (h : Keeps src t rule) :
    Runs Step src t (do return some (← rule)) (GivesUnlessStays src s) :=
  runs_bind h.runs fun _ _ _ hsound => runs_pure ⟨allSound_some.2 hsound, nofun⟩

private theorem runs_typedDeclaration? (hg : g.Keeps src) :
    Runs Step src s (typedDeclaration? g cx start) (GivesUnlessStays src s) := by
  refine runs_atWord (runs_asks asks_peekIs fun _ _ => runs_ite (fun _ => ?interface) fun _ => ?_)
  case interface => exact runs_some (keeps_interfaceDeclaration hg)
  refine runs_atWord (runs_asks asks_peekIs fun _ _ => runs_ite (fun _ => ?synonym) fun _ => ?_)
  case synonym => exact runs_some (keeps_aliasDeclaration hg)
  refine runs_atWord (runs_atWord (runs_asks asks_peekIs fun _ _ => runs_ite (fun _ => ?enum) fun _ => ?_))
  case enum => exact runs_refuseIf_bind fun _ => runs_some (keeps_enumDeclaration hg)
  refine runs_atWord (runs_asks asks_peekIs fun _ _ => runs_ite (fun abstract => ?abstract) fun _ => ?_)
  case abstract =>
    have some : s.token.kind ≠ .endOfText := by grind
    refine runs_refuseIf_bind fun _ => runs_bind (keeps_advance some).runs fun _ t _ _ => ?_
    exact runs_some (keeps_classRest hg allSound_nil)
  refine runs_asks tells_atAnyWord fun _ _ => runs_asks asks_peekIs fun _ _ => ?_
  refine runs_atWord (runs_asks asks_peekIs fun _ _ => runs_atWord (runs_asks asks_peekIs fun _ _ => ?_))
  refine runs_ite (fun _ => runs_refuseIf_bind fun _ => ?_) fun _ => runs_pure ⟨allSound_none, fun _ => rfl⟩
  exact runs_some (keeps_namespaceDeclaration hg (by grind))

theorem asks_atLet : Asks atLet s fun b => b = true → s.token.kind = .name "let" false := by
  refine asks_bind (asks_of_eq rfl) fun word hword => asks_bind asks_peekIs fun _ _ => ⟨_, rfl, fun h => ?_⟩
  simp_all

/-- Where a declaration may start: at its first word, or at `declare` in front of it. -/
def StartsDeclaration (src : List Char) (cx : Context) (start : Nat) (s : State) : Prop :=
  start = s.token.startOffset ∨
    (cx.ambient && cx.typescript) = true ∧ Begins src (· = .name "declare" false) start s.lastStop

private theorem StartsDeclaration.startsFunction (h : StartsDeclaration src cx start s) :
    StartsFunction src cx start s := by
  rcases h with rfl | ⟨ambient, begins⟩
  · exact .inl rfl
  · exact .inr (.inr ⟨ambient, begins.le⟩)

theorem StartsDeclaration.startsBinding (h : StartsDeclaration src cx start s) {word : String}
    (mem : word ∈ ["const", "let", "var"]) (kind : s.token.kind = .name word false) : StartsBinding src start s := by
  rcases h with rfl | ⟨_, begins⟩
  · exact .inl ⟨rfl, word, by grind, kind⟩
  · exact .inr (begins.imp fun _ h => ⟨"declare", by simp, h⟩)

private theorem keeps_bareDeclaration? (hg : g.Keeps src) (hstart : StartsDeclaration src cx start s) :
    Keeps src s (bareDeclaration? g cx start) := by
  unfold bareDeclaration?
  extract_lets refuseBare rest
  have bare : Keeps src s (rest none) := by
    refine keeps_atWord.2 (keeps_ite (fun word => keeps_refuseIf_bind.2 fun _ => ?function) fun _ => ?_)
    case function =>
      refine keeps_bind (keeps_functionDeclaration hg hstart.startsFunction) fun tree t h => ?_
      exact keeps_pure (allSound_some.2 h)
    refine keeps_atWord.2 (keeps_asks asks_peekIs fun _ _ => keeps_ite (fun async => ?async) fun _ => ?_)
    case async =>
      refine keeps_refuseIf_bind.2 fun _ => ?_
      have word : s.token.kind = .name "async" false := by simp_all
      refine keeps_bind_of_runs (runs_advance BeginsFunction (.inr word) (by simp [word])) fun _ t ⟨begins, le⟩ => ?_
      have hstart : StartsFunction src cx start t := by
        rcases hstart with rfl | ⟨ambient, declared⟩
        · exact .inr (.inl begins)
        · exact .inr (.inr ⟨ambient, Nat.le_trans declared.le le⟩)
      exact keeps_bind (keeps_functionDeclaration hg hstart) fun tree t h => keeps_pure (allSound_some.2 h)
    refine keeps_atWord.2 (keeps_atSymbol.2 (keeps_ite (fun _ => ?classLike) fun _ => ?_))
    case classLike => grind [keeps_decorators, keeps_classRest]
    refine keeps_asks asks_atAnyWord fun atWord hword => keeps_asks asks_atLet fun atLet hlet => ?_
    refine keeps_ite (fun here => ?_) fun _ => ?_
    · have hstart : StartsBinding src start s := by
        rcases Bool.or_eq_true_iff.1 here with here | here
        · obtain ⟨word, mem, kind⟩ := hword here
          exact hstart.startsBinding (by grind) kind
        · exact hstart.startsBinding (by simp) (hlet here)
      refine keeps_refuseIf_bind.2 fun _ => keeps_bind (keeps_variableStatement hg hstart) fun tree t h => ?_
      exact keeps_pure (allSound_some.2 h)
    · exact keeps_pure allSound_none
  refine keeps_ite (fun _ => ?_) fun _ => bare
  refine keeps_bind_of_runs (runs_typedDeclaration? hg) fun typed t ⟨htyped, stays⟩ => ?_
  cases typed with
  | none =>
    obtain rfl := stays rfl
    exact bare
  | some tree => exact keeps_pure htyped

theorem keeps_declaration? (hg : g.Keeps src) : Keeps src s (declaration? g cx) := by
  refine keeps_here.2 (keeps_atWord.2 (keeps_asks asks_peekIs fun _ _ => ?_))
  refine keeps_ite (fun declared => ?_) fun _ => keeps_bareDeclaration? hg (.inl rfl)
  have word : s.token.kind = .name "declare" false := by simp_all
  have typescript : cx.typescript = true := by simp_all
  refine keeps_bind_of_runs (runs_advance (· = .name "declare" false) word (by simp [word])) ?_
  rintro _ t ⟨begins, -⟩
  exact keeps_bareDeclaration? hg (.inr ⟨typescript, begins⟩)

end SpecCoverage.Program
