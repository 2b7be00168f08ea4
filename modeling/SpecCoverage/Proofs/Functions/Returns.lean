import SpecCoverage.Functions.Label
import SpecCoverage.Proofs.Functions.Complexity

/-!
# The returns of a function

Where no type is stated for the result of a function, its label is read off the function's own returns: the last of them
that shows a type gives it, and else a bare one makes it `void` (`resultLabel`).

* (labels) going through the returns one by one ends with the label of all of them (`foldl_observe`);
* (places) the own returns are those that no function and no other return stands around, in the order in which they are
  written (`ownReturns_eq_placesUpTo`);
* (other functions) functions that are added, removed or changed within a function leave what its returns show as it is
  (`VariesInFunctions.shownResultType?_eq`).
-/

namespace SpecCoverage.Program

/-- The kinds of nodes within which no own return is looked for: functions have returns of their own, and a `return` holds
an expression. -/
def Kind.endsReturns (kind : Kind) : Bool := kind.isFunction || kind = .returnStatement

/-- Whether a node of the kind holds any number of trees.  Parentheses and a `return` hold one expression. -/
def Kind.isOpen (kind : Kind) : Bool := kind ≠ .parenthesized && kind ≠ .returnStatement

end SpecCoverage.Program

namespace SpecCoverage.Functions

open Program

/-! ## Labels -/

/-- A value without the parentheses around it. -/
def bareValue : Tree → Tree
  | .node .parenthesized _ [inner] => bareValue inner
  | t => t

/-- The label of a construct that is a value. -/
def valueLabel? : Kind → Option String
  | .literal .string => some "string"
  | .literal .number => some "number"
  | .literal .boolean => some "boolean"
  | .literal .bigint => some "bigint"
  | .literal .null => some "object"
  | .literal .regex => some "object"
  | .array => some "Array"
  | .object => some "Object"
  | .binary .comparison => some "boolean"
  | .binary .arithmetic => some "number"
  | _ => none

/-- The label that a return shows, given its argument. -/
def returnLabel? (argument : Option Tree) : Option String :=
  argument.bind fun value => valueLabel? (bareValue value).kind

/-- The label of a function with some returns, given by their arguments: that of the last one that shows a label, and else
`void` if one is bare. -/
def resultLabel (arguments : List (Option Tree)) : Option String :=
  ((arguments.filterMap returnLabel?).getLast?).or (if arguments.any Option.isNone then some "void" else none)

private theorem expressionType?_eq (t : Tree) : expressionType? t = valueLabel? (bareValue t).kind := by
  fun_induction bareValue t with
  | case1 extent inner ih => exact ih
  | case2 t notParenthesized =>
    obtain ⟨kind, extent, children⟩ := t
    cases kind with
    | parenthesized =>
      match children with
      | [] | _ :: _ :: _ => rfl
      | [inner] => exact absurd rfl (notParenthesized _ _)
    | literal l => cases l <;> rfl
    | binary op => cases op <;> rfl
    | _ => rfl

private theorem returnLabel?_eq (argument : Option Tree) : returnLabel? argument = argument.bind expressionType? := by
  rw [returnLabel?, funext expressionType?_eq]

theorem foldl_observe (arguments : List (Option Tree)) (known : Option String) :
    arguments.foldl observe known = ((arguments.filterMap returnLabel?).getLast?).or
      (known.or (if arguments.any Option.isNone then some "void" else none)) := by
  induction arguments generalizing known with
  | nil => simp
  | cons argument arguments ih =>
    rw [List.foldl_cons, ih, List.filterMap_cons, List.any_cons, returnLabel?_eq]
    cases argument with
    | none => cases known <;> simp [observe]
    | some value =>
      rw [observe, Option.bind_some, Option.isNone_some, Bool.false_or]
      cases expressionType? value with
      | none => rfl
      | some label => cases last : (arguments.filterMap returnLabel?).getLast? <;> simp [List.getLast?_cons, last]

/-! ## Places -/

mutual

theorem ownReturns_eq_placesUpTo (t : Tree) :
    ownReturns t = ((placesUpTo Kind.endsReturns t).filter fun p => p.2.kind = .returnStatement).map fun p =>
      p.2.children.head? := by
  obtain ⟨kind, extent, children⟩ := t
  rw [placesUpTo]
  cases kind with
  | function form => rfl
  | returnStatement => rfl
  | _ => exact ownReturnsOfAll_eq_placesInAll children 0

private theorem ownReturnsOfAll_eq_placesInAll (ts : List Tree) (number : Nat) :
    ownReturnsOfAll ts = ((placesInAll Kind.endsReturns number ts).filter fun p => p.2.kind = .returnStatement).map
      fun p => p.2.children.head? := by
  cases ts with
  | nil => rfl
  | cons t ts =>
    rw [ownReturnsOfAll, placesInAll, List.filter_append, List.map_append, ownReturns_eq_placesUpTo t,
      ownReturnsOfAll_eq_placesInAll ts (number + 1), List.filter_map, List.map_map]
    rfl

end

/-- The arguments of the own returns of a function, in the order in which they are written.  An arrow whose body is an
expression returns this. -/
inductive HasReturns (function : Tree) : List (Option Tree) → Prop where
  | block {body : Tree} {places : List (List Nat × Tree)} :
      function.children.getLast? = some body → body.kind = .block → places.Pairwise (fun a b => a.1 < b.1) →
      (∀ path u, (path, u) ∈ places ↔ body.StandsAt Kind.endsReturns path u ∧ u.kind = .returnStatement) →
      HasReturns function (places.map fun p => p.2.children.head?)
  | value {body : Tree} :
      function.children.getLast? = some body → body.kind ≠ .block → function.kind = .function .arrow →
      HasReturns function [some body]
  | nothing :
      (∀ body, function.children.getLast? = some body → body.kind ≠ .block ∧ function.kind ≠ .function .arrow) →
      HasReturns function []

private theorem exists_hasReturns (function : Tree) :
    ∃ arguments, HasReturns function arguments ∧ shownResultType? function = resultLabel arguments := by
  unfold shownResultType?
  split
  · next body last =>
    split
    · next block =>
      have inOrder := (@pairwise_placesUpTo Kind.endsReturns body).filter fun p => p.2.kind = .returnStatement
      refine ⟨_, .block last block inOrder fun path u => ?_, ?_⟩
      · rw [List.mem_filter, mem_placesUpTo, decide_eq_true_eq]
      · rw [foldl_observe, Option.none_or, ownReturns_eq_placesUpTo, resultLabel]
    · next expression =>
      split
      · next arrow =>
        refine ⟨_, .value last expression arrow, ?_⟩
        rw [expressionType?_eq]
        cases label : valueLabel? (bareValue body).kind <;> simp [resultLabel, returnLabel?, label]
      · next notArrow =>
        refine ⟨[], .nothing fun body' last' => ?_, rfl⟩
        obtain rfl := Option.some.inj (last.symm.trans last')
        exact ⟨expression, notArrow⟩
  · next last =>
    refine ⟨[], .nothing fun body' last' => ?_, rfl⟩
    rw [last] at last'
    cases last'

/-! ## Functions within a function -/

/-- Trees that differ in functions only, here and at any depth: a function may be changed into another one and, in an open
list of trees, added or removed. -/
inductive VariesInFunctions : Bool → List Tree → List Tree → Prop where
  | nil {isOpen : Bool} : VariesInFunctions isOpen [] []
  | same {isOpen : Bool} {kind : Kind} {extent extent' : Extent} {children children' ts ts' : List Tree} :
      VariesInFunctions kind.isOpen children children' → VariesInFunctions isOpen ts ts' →
      VariesInFunctions isOpen (.node kind extent children :: ts) (.node kind extent' children' :: ts')
  | changed {isOpen : Bool} {form form' : FunctionForm} {extent extent' : Extent} {children children' ts ts' : List Tree} :
      VariesInFunctions isOpen ts ts' →
      VariesInFunctions isOpen (.node (.function form) extent children :: ts)
        (.node (.function form') extent' children' :: ts')
  | added {form : FunctionForm} {extent : Extent} {children ts ts' : List Tree} :
      VariesInFunctions true ts ts' → VariesInFunctions true ts (.node (.function form) extent children :: ts')
  | removed {form : FunctionForm} {extent : Extent} {children ts ts' : List Tree} :
      VariesInFunctions true ts ts' → VariesInFunctions true (.node (.function form) extent children :: ts) ts'

/-- What the own returns in trees show. -/
def shownReturns (ts : List Tree) : List (Option (Option String)) := (ownReturnsOfAll ts).map (Option.map expressionType?)

/-- All that the label of a function depends on in one of its parts. -/
def shownPart (t : Tree) : Bool × List (Option (Option String)) × Option String :=
  (t.kind = .block, shownReturns [t], expressionType? t)

private theorem shownReturns_cons (t : Tree) (ts : List Tree) :
    shownReturns (t :: ts) = shownReturns [t] ++ shownReturns ts := by
  simp [shownReturns, ownReturnsOfAll]

private theorem shownReturns_function_cons (form : FunctionForm) (extent : Extent) (children ts : List Tree) :
    shownReturns (.node (.function form) extent children :: ts) = shownReturns ts := rfl

private theorem shownReturns_node {kind : Kind} (h : kind.endsReturns = false) (extent : Extent)
    (children : List Tree) :
    shownReturns [.node kind extent children] = shownReturns children := by
  cases kind <;> simp_all [shownReturns, ownReturnsOfAll, ownReturns, Kind.endsReturns, Kind.isFunction]

private theorem expressionType?_node {kind : Kind} (h : kind ≠ .parenthesized) (extent : Extent)
    (children : List Tree) :
    expressionType? (.node kind extent children) = valueLabel? kind := by
  have bare : bareValue (.node kind extent children) = .node kind extent children := by
    unfold bareValue
    split
    · next e => cases e; exact absurd rfl h
    · rfl
  rw [expressionType?_eq, bare]
  rfl

/-- What shows in a node follows from what shows in its parts. -/
private theorem shownPart_node {kind : Kind} {extent extent' : Extent} {children children' : List Tree}
    (shown : shownReturns children' = shownReturns children)
    (parts : kind.isOpen = false → children'.map shownPart = children.map shownPart) :
    shownPart (.node kind extent' children') = shownPart (.node kind extent children) := by
  have types (closed : kind.isOpen = false) : children'.map expressionType? = children.map expressionType? := by
    simpa [shownPart, Function.comp_def] using congrArg (List.map fun part => part.2.2) (parts closed)
  have value : expressionType? (.node kind extent' children') = expressionType? (.node kind extent children) := by
    by_cases parenthesized : kind = .parenthesized
    · subst parenthesized
      have types := types rfl
      match children', children with
      | [], [] => rfl
      | [_], [_] => exact (List.cons_eq_cons.1 types).1
      | _ :: _ :: _, _ :: _ :: _ => rfl
      | [], _ :: _ | _ :: _, [] | [_], _ :: _ :: _ | _ :: _ :: _, [_] => simp at types
    · rw [expressionType?_node parenthesized, expressionType?_node parenthesized]
  have returns : shownReturns [.node kind extent' children'] = shownReturns [.node kind extent children] := by
    cases ends : kind.endsReturns with
    | false => rw [shownReturns_node ends, shownReturns_node ends, shown]
    | true =>
      cases kind with
      | function form => rw [shownReturns_function_cons, shownReturns_function_cons]
      | returnStatement =>
        have heads := congrArg List.head? (types rfl)
        rw [List.head?_map, List.head?_map] at heads
        simp [shownReturns, ownReturnsOfAll, ownReturns, heads]
      | _ => cases ends
  rw [shownPart, shownPart, returns, value]
  rfl

private theorem VariesInFunctions.shown_eq {isOpen : Bool} {ts ts' : List Tree} (h : VariesInFunctions isOpen ts ts') :
    shownReturns ts' = shownReturns ts ∧ (isOpen = false → ts'.map shownPart = ts.map shownPart) := by
  induction h with
  | @same _ kind extent extent' _ _ _ _ _ _ ihBelow ihRest =>
    have part := @shownPart_node kind extent extent' _ _ ihBelow.1 ihBelow.2
    have returns := congrArg (fun part => part.2.1) part
    refine ⟨?_, fun closed => ?_⟩
    · rw [shownReturns_cons, ihRest.1, shownReturns_cons (.node kind extent _)]
      exact congrArg (· ++ _) returns
    · rw [List.map_cons, List.map_cons, part, ihRest.2 closed]
  | nil => exact ⟨rfl, fun _ => rfl⟩
  | changed _ ih =>
    refine ⟨?_, fun closed => ?_⟩
    · rw [shownReturns_function_cons, shownReturns_function_cons, ih.1]
    · rw [List.map_cons, List.map_cons, ih.2 closed]
      rfl
  | added _ ih => exact ⟨by rw [shownReturns_function_cons, ih.1], nofun⟩
  | removed _ ih => exact ⟨by rw [shownReturns_function_cons, ih.1], nofun⟩

/-- One step of `observe`, from what a return shows. -/
def observeShown (known : Option String) : Option (Option String) → Option String
  | none => known.or (some "void")
  | some type => type.or known

private theorem foldl_observe_ownReturns (t : Tree) :
    (ownReturns t).foldl observe none = (shownReturns [t]).foldl observeShown none := by
  have step : observe = fun known argument => observeShown known (argument.map expressionType?) := by
    funext known argument
    cases argument <;> rfl
  rw [shownReturns, List.foldl_map, ownReturnsOfAll, ownReturnsOfAll, List.append_nil, ← step]

/-- Functions within a function do not matter for what it shows of its result. -/
theorem VariesInFunctions.shownResultType?_eq {function function' : Tree} (kind : function'.kind = function.kind)
    (h : VariesInFunctions false function.children function'.children) :
    shownResultType? function' = shownResultType? function := by
  have part : function'.children.getLast?.map shownPart = function.children.getLast?.map shownPart := by
    rw [← List.getLast?_map, ← List.getLast?_map, h.shown_eq.2 rfl]
  unfold shownResultType?
  cases last : function.children.getLast? with
  | none =>
    rw [last, Option.map_none, Option.map_eq_none_iff] at part
    rw [part]
  | some body =>
    rw [last, Option.map_some, Option.map_eq_some_iff] at part
    obtain ⟨body', last', part⟩ := part
    obtain ⟨block, returns, type⟩ : (decide (body'.kind = .block) = decide (body.kind = .block)) ∧
        shownReturns [body'] = shownReturns [body] ∧ expressionType? body' = expressionType? body := by
      simpa [shownPart] using part
    have block : body'.kind = .block ↔ body.kind = .block := decide_eq_decide.1 block
    rw [last']
    simp only [block, kind, type, foldl_observe_ownReturns, returns]

/-! ## The label of a result -/

/-- No type is stated for the result of a function, in its code or in the comment in front of it. -/
structure StatesNoResult (doc : Option DocComment) (function : Tree) : Prop where
  ascription : ownAscription? function.children = none
  doc : doc.bind DocComment.resultType? = none

private theorem StatesNoResult.resultType?_eq {doc : Option DocComment} {function : Tree}
    (h : StatesNoResult doc function)
    (source : List Char) : resultType? source doc function = shownResultType? function := by
  rw [resultType?, h.ascription, h.doc, Option.bind_none, Option.none_or, Option.none_or]

/-- The label of a function whose result has no stated type is that of its own returns, and functions within it do not
matter for it. -/
theorem resultType?_eq_resultLabel {doc : Option DocComment} {function : Tree} (h : StatesNoResult doc function)
    (source : List Char) :
    (∃ arguments, HasReturns function arguments ∧ resultType? source doc function = resultLabel arguments) ∧
      ∀ function' doc' source', StatesNoResult doc' function' → function'.kind = function.kind →
        VariesInFunctions false function.children function'.children →
        resultType? source' doc' function' = resultType? source doc function := by
  rw [h.resultType?_eq]
  refine ⟨exists_hasReturns function, fun function' doc' source' h' kind varies => ?_⟩
  rw [h'.resultType?_eq, varies.shownResultType?_eq kind]

/-- The tree of `return (1)`. -/
def returnOne : Tree :=
  .node .returnStatement ⟨63, 73⟩ [.node .parenthesized ⟨70, 73⟩ [.node (.literal .number) ⟨71, 72⟩ []]]

/-- The tree of `function f(x) { if (x) return; …; return (1) }` with some statement between the two returns. -/
def guardedFunction (between : Tree) : Tree :=
  .node (.function (.declaration (some "f"))) ⟨0, 75⟩
    [.node .parameter ⟨11, 12⟩ [.node (.binding "x") ⟨11, 12⟩ []],
     .node .block ⟨14, 75⟩
      [.node .ifStatement ⟨16, 30⟩ [.node (.identifier "x") ⟨20, 21⟩ [], .node .returnStatement ⟨23, 30⟩ []],
       between, returnOne]]

/-- The tree of `const g = …` with some value. -/
def declaredAs (value : Tree) : Tree :=
  .node .variableDeclaration ⟨31, 62⟩ [.node .declarator ⟨37, 61⟩ [.node (.binding "g") ⟨37, 38⟩ [], value]]

/-- The tree of `() => { return 'a' }`. -/
def textArrow : Tree :=
  .node (.function .arrow) ⟨41, 61⟩ [.node .block ⟨47, 61⟩
    [.node .returnStatement ⟨49, 59⟩ [.node (.literal .string) ⟨56, 59⟩ []]]]

/-- The tree of `function () {}`. -/
def emptyFunction : Tree := .node (.function .expression) ⟨41, 61⟩ [.node .block ⟨47, 61⟩ []]

theorem resultType?_eq_resultLabel_guarded :
    StatesNoResult none (guardedFunction (declaredAs textArrow)) ∧
      (∃ arguments, HasReturns (guardedFunction (declaredAs textArrow)) arguments ∧
        resultType? [] none (guardedFunction (declaredAs textArrow)) = resultLabel arguments) ∧
      resultType? [] none (guardedFunction (declaredAs textArrow)) = some "number" ∧
      resultType? [] none (guardedFunction (declaredAs emptyFunction)) = some "number" := by
  have unstated (value : Tree) : StatesNoResult none (guardedFunction (declaredAs value)) := ⟨rfl, rfl⟩
  have label : resultType? [] none (guardedFunction (declaredAs textArrow)) = some "number" := rfl
  have between : VariesInFunctions true [declaredAs textArrow, returnOne] [declaredAs emptyFunction, returnOne] :=
    .same (.same (.same .nil (.changed .nil)) .nil) (.same (.same (.same .nil .nil) .nil) .nil)
  have varies : VariesInFunctions false (guardedFunction (declaredAs textArrow)).children
      (guardedFunction (declaredAs emptyFunction)).children :=
    .same (.same .nil .nil) (.same (.same (.same .nil (.same .nil .nil)) between) .nil)
  obtain ⟨returns, unchanged⟩ := resultType?_eq_resultLabel (unstated textArrow) []
  refine ⟨unstated textArrow, returns, label, ?_⟩
  rw [unchanged _ none [] (unstated emptyFunction) rfl varies, label]

end SpecCoverage.Functions
