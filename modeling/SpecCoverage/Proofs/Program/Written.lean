import SpecCoverage.Program.Pattern
import SpecCoverage.Proofs.Program.State

/-!
# Constructs as they are written

The extent of a construct is written in a text from its first token on up to its last lexeme (`Written`).  A tree is
sound when the extents of its declarations and of its functions with a body are, functions up to their closing brace
(`Sound`).  `AllSound` says so of all trees that a value of the reader holds.
-/

namespace SpecCoverage.Program

open Cursor

/-! ## Extents -/

/-- The last child of a function with a body is a block. -/
def HasBlock (children : List Tree) : Prop := ∃ body, children.getLast? = some body ∧ body.kind = .block

/-- The first word of a function. -/
def BeginsFunction (kind : TokenKind) : Prop := kind = .name "function" false ∨ kind = .name "async" false

/-- The first word of a declaration of variables. -/
def BeginsBinding (kind : TokenKind) : Prop := ∃ word ∈ ["const", "let", "var", "declare"], kind = .name word false

/-- What a method may begin with: a decorator, a modifier or its name, or the mark of a generator. -/
inductive BeginsMethod : TokenKind → Prop where
  | decorator : BeginsMethod (.symbol "@")
  | generator : BeginsMethod (.symbol "*")
  | name {text : String} {escaped : Bool} : BeginsMethod (.name text escaped)
  | string {value : String} {legacy : Bool} : BeginsMethod (.string value legacy)

/-- The brace behind the body of a function. -/
def IsClosingBrace (c c' : Cursor) : Prop := readKind c = .ok (.symbol "\x7d", c')

/-- A token of a kind begins at a byte position and ends in front of another one. -/
def Begins (src : List Char) (first : TokenKind → Prop) (start stop : Nat) : Prop :=
  ∃ c c' kind, Within src c ∧ c.offset = start ∧ readKind c = .ok (kind, c') ∧ first kind ∧ c'.offset ≤ stop

theorem Begins.mono {src : List Char} {first : TokenKind → Prop} {start stop stop' : Nat}
    (h : Begins src first start stop) (le : stop ≤ stop') : Begins src first start stop' := by
  obtain ⟨c, c', kind, within, hstart, hread, hfirst, hstop⟩ := h
  exact ⟨c, c', kind, within, hstart, hread, hfirst, Nat.le_trans hstop le⟩

theorem Begins.imp {src : List Char} {first first' : TokenKind → Prop} {start stop : Nat}
    (h : Begins src first start stop) (imp : ∀ kind, first kind → first' kind) : Begins src first' start stop := by
  obtain ⟨c, c', kind, within, hstart, hread, hfirst, hstop⟩ := h
  exact ⟨c, c', kind, within, hstart, hread, imp kind hfirst, hstop⟩

theorem Begins.le {src : List Char} {first : TokenKind → Prop} {start stop : Nat} (h : Begins src first start stop) :
    start ≤ stop := by
  obtain ⟨c, c', kind, -, rfl, hread, -, hstop⟩ := h
  exact Nat.le_trans (readKind_reaches hread).le hstop

/-- A firm token at which something has been read begins it. -/
theorem begins_of_step {src : List Char} {first : TokenKind → Prop} {s t : State} (hs : Inv src s) (step : Step src s t)
    (h : first s.token.kind) (firm : s.token.kind.IsFirm) (read : s.token.startOffset < t.lastStop) :
    Begins src first s.token.startOffset t.lastStop := by
  refine ⟨s.token.start, s.token.stop, s.token.kind, hs.located.within, rfl, hs.located.read, h, ?_⟩
  rcases step.ended with rfl | ⟨-, whole⟩
  · exact absurd read (Nat.not_lt.2 hs.behind)
  · exact whole firm

/-- Where something has been read, the last of it is a lexeme. -/
theorem ends_of_step {src : List Char} {s t : State} (hs : Inv src s) (step : Step src s t)
    (read : s.token.startOffset < t.lastStop) : Ends src Lexeme s.token.startOffset t.lastStop := by
  rcases step.ended with rfl | ⟨ends, -⟩
  · exact absurd read (Nat.not_lt.2 hs.behind)
  · exact ends

theorem isFirm_name {text : String} {escaped : Bool} : (TokenKind.name text escaped).IsFirm := nofun

theorem BeginsMethod.isFirm {kind : TokenKind} (h : BeginsMethod kind) : kind.IsFirm := by
  rintro text rfl
  cases h with
  | decorator => exact .inl rfl
  | generator => exact .inr rfl

/-- The extent goes from a first token of its construct up to a last one. -/
structure Written (src : List Char) (first : TokenKind → Prop) (last : Cursor → Cursor → Prop) (e : Extent) : Prop where
  begins : Begins src first e.start e.stop
  ends : Ends src last e.start e.stop

/-! ## Trees -/

@[simp, grind norm] theorem Tree.kind_node {kind : Kind} {extent : Extent} {children : List Tree} :
    (Tree.node kind extent children).kind = kind := rfl

@[simp] abbrev FunctionForm.isNamed : FunctionForm → Bool
  | .declaration name => name.isSome
  | .method name => name.isSome
  | _ => false

/-- Whether the extent of a construct never becomes the code of a function. -/
@[simp] abbrev Kind.isPlain : Kind → Bool
  | .function form => !form.isNamed
  | .variableDeclaration => false
  | _ => true

def NodeSound (src : List Char) : Kind → Extent → List Tree → Prop
  | .function (.declaration (some _)), e, children => HasBlock children → Written src BeginsFunction IsClosingBrace e
  | .function (.method (some name)), e, children =>
    name ≠ "" → HasBlock children → Written src BeginsMethod IsClosingBrace e
  | .variableDeclaration, e, _ => Written src BeginsBinding Lexeme e
  | _, _, _ => True

inductive Sound (src : List Char) : Tree → Prop where
  | node {kind : Kind} {extent : Extent} {children : List Tree} :
      NodeSound src kind extent children → (∀ t ∈ children, Sound src t) → Sound src (.node kind extent children)

/-- A value that holds trees. -/
class HasTrees (α : Type) where
  trees : α → List Tree

export HasTrees (trees)

instance : HasTrees Tree := ⟨fun t => [t]⟩
instance : HasTrees PropertyKey := ⟨fun key => [key.tree]⟩
instance : HasTrees Unit := ⟨fun _ => []⟩
instance : HasTrees Bool := ⟨fun _ => []⟩
instance : HasTrees Nat := ⟨fun _ => []⟩
instance : HasTrees String := ⟨fun _ => []⟩
instance : HasTrees Cursor := ⟨fun _ => []⟩
instance {α : Type} [HasTrees α] : HasTrees (List α) := ⟨List.flatMap trees⟩
instance {α : Type} [HasTrees α] : HasTrees (Option α) := ⟨fun o => trees o.toList⟩
instance {α β : Type} [HasTrees α] [HasTrees β] : HasTrees (α × β) := ⟨fun p => trees p.1 ++ trees p.2⟩

/-- All trees that a value holds are sound. -/
structure AllSound (src : List Char) {α : Type} [HasTrees α] (a : α) : Prop where
  sound : ∀ t ∈ trees a, Sound src t

section AllSound

variable {src : List Char} {α β : Type} [HasTrees α] [HasTrees β]

theorem allSound_of_trees_eq_nil {a : α} (h : trees a = []) : AllSound src a := ⟨fun t ht => by simp [h] at ht⟩

@[simp] theorem allSound_unit (u : Unit) : AllSound src u := allSound_of_trees_eq_nil rfl

@[simp] theorem allSound_bool (b : Bool) : AllSound src b := allSound_of_trees_eq_nil rfl

@[simp] theorem allSound_nat (n : Nat) : AllSound src n := allSound_of_trees_eq_nil rfl

@[simp] theorem allSound_string (s : String) : AllSound src s := allSound_of_trees_eq_nil rfl

@[simp] theorem allSound_cursor (c : Cursor) : AllSound src c := allSound_of_trees_eq_nil rfl

@[simp] theorem allSound_tree {t : Tree} : AllSound src t ↔ Sound src t :=
  ⟨fun h => h.sound t (List.mem_singleton_self t), fun h => ⟨fun u hu => by rw [List.mem_singleton.1 hu]; exact h⟩⟩

theorem allSound_list {l : List α} : AllSound src l ↔ ∀ a ∈ l, AllSound src a := by
  constructor
  · exact fun h a ha => ⟨fun t ht => h.sound t (List.mem_flatMap.2 ⟨a, ha, ht⟩)⟩
  · refine fun h => ⟨fun t ht => ?_⟩
    obtain ⟨a, ha, ht⟩ := List.mem_flatMap.1 ht
    exact (h a ha).sound t ht

@[simp] theorem allSound_nil : AllSound src ([] : List α) := allSound_of_trees_eq_nil rfl

@[simp] theorem allSound_cons {a : α} {l : List α} : AllSound src (a :: l) ↔ AllSound src a ∧ AllSound src l := by
  simp [allSound_list]

@[simp] theorem allSound_append {a b : List α} : AllSound src (a ++ b) ↔ AllSound src a ∧ AllSound src b := by
  simp only [allSound_list, List.mem_append]
  grind

@[simp] theorem allSound_none : AllSound src (none : Option α) := allSound_of_trees_eq_nil rfl

@[simp] theorem allSound_toList {o : Option α} : AllSound src o.toList ↔ AllSound src o :=
  ⟨fun h => ⟨h.sound⟩, fun h => ⟨h.sound⟩⟩

@[simp] theorem allSound_some {a : α} : AllSound src (some a) ↔ AllSound src a := by
  rw [← allSound_toList, Option.toList_some, allSound_cons]
  exact and_iff_left allSound_nil

@[simp] theorem allSound_prod {a : α} {b : β} : AllSound src (a, b) ↔ AllSound src a ∧ AllSound src b := by
  constructor
  · exact fun h => ⟨⟨fun t ht => h.sound t (List.mem_append_left _ ht)⟩,
      ⟨fun t ht => h.sound t (List.mem_append_right _ ht)⟩⟩
  · rintro ⟨ha, hb⟩
    exact ⟨fun t ht => (List.mem_append.1 ht).elim (ha.sound t) (hb.sound t)⟩

theorem AllSound.fst {p : α × β} (h : AllSound src p) : AllSound src p.1 := (allSound_prod.1 h).1

theorem AllSound.snd {p : α × β} (h : AllSound src p) : AllSound src p.2 := (allSound_prod.1 h).2

@[simp] theorem allSound_reverse {l : List α} : AllSound src l.reverse ↔ AllSound src l := by simp [allSound_list]

theorem allSound_flatten {l : List (List α)} (h : AllSound src l) : AllSound src l.flatten := by
  simp only [allSound_list, List.mem_flatten] at h ⊢
  rintro a ⟨l', hl', ha⟩
  exact h l' hl' a ha

@[simp] theorem allSound_key {key : PropertyKey} : AllSound src key ↔ Sound src key.tree :=
  ⟨fun h => allSound_tree.1 ⟨h.sound⟩, fun h => ⟨(allSound_tree.2 h).sound⟩⟩

theorem sound_node {kind : Kind} {extent : Extent} {children : List Tree} :
    Sound src (.node kind extent children) ↔ NodeSound src kind extent children ∧ AllSound src children := by
  simp only [allSound_list, allSound_tree]
  constructor
  · rintro ⟨hnode, hchildren⟩
    exact ⟨hnode, hchildren⟩
  · exact fun h => .node h.1 h.2

@[simp] theorem sound_node_of_isPlain {kind : Kind} (plain : kind.isPlain = true) {extent : Extent}
    {children : List Tree} : Sound src (.node kind extent children) ↔ AllSound src children := by
  refine sound_node.trans (and_iff_right ?_)
  unfold NodeSound
  split <;> trivial

theorem sound_of_isPlain {kind : Kind} (plain : kind.isPlain = true) {extent : Extent} {children : List Tree}
    (h : AllSound src children) : Sound src (.node kind extent children) :=
  (sound_node_of_isPlain plain).2 h

theorem sound_function {name : Option String} {extent : Extent} {children : List Tree} (h : AllSound src children)
    (written : HasBlock children → Written src BeginsFunction IsClosingBrace extent) :
    Sound src (.node (.function (.declaration name)) extent children) := by
  refine sound_node.2 ⟨?_, h⟩
  cases name with
  | none => trivial
  | some name => exact written

theorem sound_method {name : String} {extent : Extent} {children : List Tree} (h : AllSound src children)
    (written : name ≠ "" → HasBlock children → Written src BeginsMethod IsClosingBrace extent) :
    Sound src (.node (.function (.method (some name))) extent children) :=
  sound_node.2 ⟨written, h⟩

theorem sound_variables {extent : Extent} {children : List Tree} (h : AllSound src children)
    (written : Written src BeginsBinding Lexeme extent) : Sound src (.node .variableDeclaration extent children) :=
  sound_node.2 ⟨written, h⟩

end AllSound

end SpecCoverage.Program
