import Mathlib.Tactic.Choose
import SpecCoverage.Proofs.Json.Scalar

/-!
# Reading what the grammar allows

Every value that the grammar allows stands for one value or for none, at every depth the same, and the reader with a
limit of depth gives it if it is nested at most that deep (`IsValue.exists_reads`).  For the induction on the
grammar, the items between two brackets are read one by one, each as it is read alone (`readItems_append`).
-/

namespace SpecCoverage.Json

open Text (Pattern behind?)

/-! ## Lists -/

private theorem skipBlanks_append {blanks : List Char} (h : IsBlanks blanks) (cs : List Char) :
    skipBlanks (blanks ++ cs) = skipBlanks cs :=
  List.dropWhile_append_of_pos h

private theorem skipBlanks_cons {c : Char} (h : isSpace c = false) (cs : List Char) :
    skipBlanks (c :: cs) = c :: cs := by
  simp [skipBlanks, h]

private theorem skipBlanks_skipBlanks (cs : List Char) : skipBlanks (skipBlanks cs) = skipBlanks cs := by
  induction cs with
  | nil => rfl
  | cons c cs ih =>
    cases h : isSpace c with
    | true => simpa [skipBlanks, h] using ih
    | false => rw [skipBlanks_cons h, skipBlanks_cons h]

/-- A reader that begins with skipping blanks. -/
def SkipsBlanks {α : Type} (read : Pattern α) : Prop := ∀ cs, read cs = read (skipBlanks cs)

theorem SkipsBlanks.append {α : Type} {read : Pattern α} (h : SkipsBlanks read) {blanks : List Char}
    (hb : IsBlanks blanks) (cs : List Char) : read (blanks ++ cs) = read cs := by
  rw [h, skipBlanks_append hb, ← h]

private theorem Follows.of_blanks {blanks rest : List Char} (hb : IsBlanks blanks) (h : Follows rest) :
    Follows (blanks ++ rest) := by
  cases blanks with
  | nil => exact h
  | cons b blanks =>
    intro c hc
    cases hc
    exact .inl (hb b (by simp))

theorem IsListTail.follows {cs : List Char} {items : List (List Char)} (h : IsListTail cs items)
    {rest : List Char} (hr : Follows rest) : Follows (cs ++ rest) := by
  cases h with
  | done hb => exact hr.of_blanks hb
  | next hb ha h =>
    rw [List.append_assoc]
    refine Follows.of_blanks hb fun c hc => ?_
    cases hc
    exact .inr (.inl rfl)

private theorem follows_close {close : Char} (h : close = ']' ∨ close = '\x7d') (rest : List Char) :
    Follows (close :: rest) := by
  intro c hc
  cases hc
  exact .inr (.inr h)

private theorem isSpace_close {close : Char} (h : close = ']' ∨ close = '\x7d') : isSpace close = false := by
  rcases h with rfl | rfl <;> rfl

variable {α κ : Type} {item : Pattern α} {text : κ → List Char} {answer : κ → Option α} {close : Char}

/-- The items behind the first one are read as each of them is read alone. -/
private theorem readMore_append (hitem : SkipsBlanks item) (hclose : close = ']' ∨ close = '\x7d') {keys : List κ}
    {cs : List Char} (hl : IsListTail cs (keys.map text)) (h : ∀ k ∈ keys, Reads item (text k) (answer k))
    {fuel : Nat} (hf : cs.length < fuel) (rest : List Char) :
    readMore item close fuel (cs ++ close :: rest) = (keys.mapM answer).map fun found => (found, rest) := by
  have not_comma : ',' ≠ close := by rcases hclose with rfl | rfl <;> decide
  induction keys generalizing cs fuel with
  | nil =>
    obtain ⟨fuel, rfl⟩ := Nat.exists_eq_succ_of_ne_zero (Nat.ne_zero_of_lt hf)
    cases hl with
    | done hb => simp [readMore, skipBlanks_append hb, skipBlanks_cons (isSpace_close hclose)]
  | cons k keys ih =>
    obtain ⟨fuel, rfl⟩ := Nat.exists_eq_succ_of_ne_zero (Nat.ne_zero_of_lt hf)
    cases hl with
    | @next before after _ more _ hb ha hl =>
      have e : before ++ ',' :: (after ++ text k ++ more) ++ close :: rest
          = before ++ ',' :: (after ++ (text k ++ (more ++ close :: rest))) := by simp
      have read_item : item (after ++ (text k ++ (more ++ close :: rest)))
          = (answer k).map fun a => (a, more ++ close :: rest) := by
        rw [hitem.append ha]
        exact h k (by simp) _ (hl.follows (follows_close hclose rest))
      have shorter : more.length < fuel := by
        simp only [List.length_append, List.length_cons] at hf
        omega
      have read_more := ih hl (fun k hk => h k (by simp [hk])) shorter
      rw [e]
      simp only [readMore, skipBlanks_append hb, skipBlanks_cons (show isSpace ',' = false from rfl), not_comma,
        if_false, if_true, read_item, List.mapM_cons]
      cases answer k with
      | none => rfl
      | some a =>
        simp only [Option.map_some, Option.bind_eq_bind, Option.bind_some, read_more]
        cases keys.mapM answer <;> rfl

/-- The items between two brackets are read as each of them is read alone. -/
theorem readItems_append (hitem : SkipsBlanks item) (hclose : close = ']' ∨ close = '\x7d') {keys : List κ}
    {cs : List Char} (hl : IsList cs (keys.map text)) (h : ∀ k ∈ keys, Reads item (text k) (answer k))
    (first : ∀ k ∈ keys, ∃ c rest, text k = c :: rest ∧ isSpace c = false ∧ c ≠ close) (rest : List Char) :
    readItems item close (cs ++ close :: rest) = (keys.mapM answer).map fun found => (found, rest) := by
  cases keys with
  | nil =>
    cases hl with
    | empty hb => simp [readItems, skipBlanks_append hb, skipBlanks_cons (isSpace_close hclose)]
  | cons k keys =>
    cases hl with
    | @items blanks _ more _ hb hl =>
      obtain ⟨c, cs, hk, hc, hne⟩ := first k (by simp)
      have e : blanks ++ text k ++ more ++ close :: rest
          = blanks ++ (c :: (cs ++ (more ++ close :: rest))) := by simp [hk]
      have read_item : item (c :: (cs ++ (more ++ close :: rest)))
          = (answer k).map fun a => (a, more ++ close :: rest) := by
        have := h k (by simp) _ (hl.follows (follows_close hclose rest))
        rwa [hk] at this
      have read_more := readMore_append hitem hclose hl (fun k hk => h k (by simp [hk]))
        (show more.length < (more ++ close :: rest).length + 1 by rw [List.length_append]; omega) rest
      rw [e]
      simp only [readItems, skipBlanks_append hb, skipBlanks_cons hc, hne, if_false, read_item,
        List.mapM_cons]
      cases answer k with
      | none => rfl
      | some a =>
        simp only [Option.map_some, Option.bind_eq_bind, Option.bind_some, read_more]
        cases keys.mapM answer <;> rfl

/-! ## Values -/

/-- A text that begins as a value does: with no blank and no closing bracket. -/
def BeginsValue (cs : List Char) : Prop :=
  ∃ c rest, cs = c :: rest ∧ isSpace c = false ∧ c ≠ ']' ∧ c ≠ '\x7d'

theorem IsValue.beginsValue {cs : List Char} (h : IsValue cs) : BeginsValue cs := by
  cases h with
  | scalar h =>
    obtain ⟨c, rest, e, hc, hb⟩ := h.beginsScalar
    exact ⟨c, rest, e, hc, by simp at hb; simp [hb]⟩
  | array hl h => exact ⟨'[', _, rfl, by decide⟩
  | object hl hw h => exact ⟨'\x7b', _, rfl, by decide⟩

private theorem skipsBlanks_readValue (depth : Nat) : SkipsBlanks (readValue depth) := by
  intro cs
  cases depth with
  | zero => rw [readValue, readValue, skipBlanks_skipBlanks]
  | succ depth => rw [readValue, readValue, skipBlanks_skipBlanks]

private theorem readValue_scalar {cs : List Char} (h : BeginsScalar cs) (depth : Nat) (rest : List Char) :
    readValue depth (cs ++ rest) = readScalar (cs ++ rest) := by
  obtain ⟨c, cs, rfl, hc, hb⟩ := h
  simp only [List.mem_cons, List.not_mem_nil, or_false, not_or] at hb
  cases depth with
  | zero => rw [readValue, List.cons_append, skipBlanks_cons hc]
  | succ depth =>
    rw [readValue, List.cons_append, skipBlanks_cons hc]
    simp [hb]

theorem Reads.of_scalar {cs : List Char} {answer : Option Value} (h : Reads readScalar cs answer)
    (first : BeginsScalar cs) (depth : Nat) : Reads (readValue depth) cs answer :=
  fun rest hr => (readValue_scalar first depth rest).trans (h rest hr)

theorem reads_array {text : κ → List Char} {answer : κ → Option Value} {depth : Nat} {keys : List κ}
    {cs : List Char} (hl : IsList cs (keys.map text))
    (h : ∀ k ∈ keys, Reads (readValue depth) (text k) (answer k)) (first : ∀ k ∈ keys, BeginsValue (text k)) :
    Reads (readValue (depth + 1)) ('[' :: cs ++ [']']) ((keys.mapM answer).map .array) := by
  intro rest _
  have read := readItems_append (skipsBlanks_readValue depth) (.inl rfl) hl h
    (fun k hk => let ⟨c, rest, e, hc, hne, _⟩ := first k hk; ⟨c, rest, e, hc, hne⟩) rest
  have e : '[' :: cs ++ [']'] ++ rest = '[' :: (cs ++ ']' :: rest) := by simp
  rw [e, readValue, skipBlanks_cons rfl]
  simp only [read]
  cases keys.mapM answer <;> rfl

private theorem skipsBlanks_readMember (read : Pattern Value) : SkipsBlanks (readMember read) := by
  intro cs
  rw [readMember, readMember, skipBlanks_skipBlanks]

private theorem reads_member {read : Pattern Value} (skips : SkipsBlanks read) {e : Entry} (hw : e.IsWellFormed)
    {name : Option String} {value : Option Value} (hn : ReadsString e.name name)
    (hv : Reads read e.value value) :
    Reads (readMember read) e.text (name.bind fun n => value.map fun v => (n, v)) := by
  intro rest hr
  have assoc : e.text ++ rest
      = '"' :: (e.name ++ '"' :: (e.before ++ ':' :: (e.after ++ (e.value ++ rest)))) := by
    simp [Entry.text]
  have colon : behind? [':'] (skipBlanks (e.before ++ ':' :: (e.after ++ (e.value ++ rest))))
      = some (e.after ++ (e.value ++ rest)) := by
    rw [skipBlanks_append hw.before, skipBlanks_cons rfl]
    simp [behind?]
  have read_value : read (e.after ++ (e.value ++ rest)) = value.map fun v => (v, rest) := by
    rw [skips.append hw.after]
    exact hv rest hr
  rw [assoc, readMember, skipBlanks_cons rfl, hn]
  cases name with
  | none => rfl
  | some n =>
    simp only [Option.map_some, Option.bind_eq_bind, Option.bind_some, colon, read_value]
    cases value <;> rfl

theorem reads_object {entry : κ → Entry} {name : κ → Option String} {value : κ → Option Value} {depth : Nat}
    {keys : List κ} {cs : List Char} (hl : IsList cs (keys.map fun k => (entry k).text))
    (hw : ∀ k ∈ keys, (entry k).IsWellFormed) (hn : ∀ k ∈ keys, ReadsString (entry k).name (name k))
    (hv : ∀ k ∈ keys, Reads (readValue depth) (entry k).value (value k)) :
    Reads (readValue (depth + 1)) ('\x7b' :: cs ++ ['\x7d'])
      ((keys.mapM fun k => (name k).bind fun n => (value k).map fun v => (n, v)).map .object) := by
  intro rest _
  have read := readItems_append (skipsBlanks_readMember (readValue depth)) (.inr rfl) hl
    (fun k hk => reads_member (skipsBlanks_readValue depth) (hw k hk) (hn k hk) (hv k hk))
    (fun k _ => ⟨'"', _, rfl, by decide⟩) rest
  have e : '\x7b' :: cs ++ ['\x7d'] ++ rest = '\x7b' :: (cs ++ '\x7d' :: rest) := by simp
  rw [e, readValue, skipBlanks_cons rfl]
  simp only [read]
  cases keys.mapM (fun k => (name k).bind fun n => (value k).map fun v => (n, v)) <;> rfl

private theorem mapM_filter {p : α → Bool} {f : κ → Option α} (keys : List κ) :
    (keys.mapM fun k => (f k).filter p) = (keys.mapM f).filter fun found => found.all p := by
  induction keys with
  | nil => rfl
  | cons k keys ih =>
    rw [List.mapM_cons, List.mapM_cons, ih]
    cases f k with
    | none => rfl
    | some a =>
      cases keys.mapM f with
      | none => cases hp : p a <;> simp [Option.filter, hp]
      | some found =>
        by_cases hp : p a = true <;> by_cases hq : found.all p = true <;>
          simp only [Option.filter_some, Option.bind_eq_bind, Option.bind_some, Option.pure_def, List.all_cons,
            hp, hq, if_true, Bool.and_true, Bool.and_false] <;> rfl

private theorem reads_bracket_zero {c : Char} (hc : c = '[' ∨ c = '\x7b') (cs : List Char) :
    Reads (readValue 0) (c :: cs) none := by
  intro rest _
  have not_space : isSpace c = false := by rcases hc with rfl | rfl <;> rfl
  rw [readValue, List.cons_append, skipBlanks_cons not_space, readScalar_bracket hc]
  rfl

/-- Every value that the grammar allows stands for one value or for none, and a reader with a limit of depth gives
it if it is within this limit. -/
theorem IsValue.exists_reads {cs : List Char} (h : IsValue cs) :
    ∃ answer : Option Value, ∀ depth, Reads (readValue depth) cs (answer.filter (Value.isWithin depth)) := by
  induction h with
  | scalar h =>
    obtain ⟨answer, ha, flat⟩ := h.exists_reads
    refine ⟨answer, fun depth => ?_⟩
    rw [flat]
    exact ha.of_scalar h.beginsScalar depth
  | @array cs items hl h ih =>
    choose! answer ha using ih
    refine ⟨(items.mapM answer).map .array, fun depth => ?_⟩
    rw [Option.filter_map]
    cases depth with
    | zero =>
      have none_within : (items.mapM answer).filter (Value.isWithin 0 ∘ .array) = none := by
        cases items.mapM answer <;> rfl
      rw [none_within]
      exact reads_bracket_zero (.inl rfl) _
    | succ depth =>
      have read := reads_array (show IsList cs (items.map id) by simpa using hl) (fun item hi => ha item hi depth)
        (fun item hi => (h item hi).beginsValue)
      rwa [mapM_filter] at read
  | @object cs entries hl hw h ih =>
    choose! value hv using ih
    have names : ∀ e ∈ entries, ∃ name, ReadsString e.name name := fun e he => (hw e he).name.exists_reads
    choose! name hn using names
    refine ⟨(entries.mapM fun e => (name e).bind fun n => (value e).map fun v => (n, v)).map .object,
      fun depth => ?_⟩
    rw [Option.filter_map]
    cases depth with
    | zero =>
      have none_within (o : Option (List (String × Value))) :
          o.filter (Value.isWithin 0 ∘ .object) = none := by
        cases o <;> rfl
      rw [none_within]
      exact reads_bracket_zero (.inr rfl) _
    | succ depth =>
      have read := reads_object (show IsList cs (entries.map fun e => (id e).text) from hl) hw hn (fun e he => hv e he depth)
      have member (e : Entry) : ((name e).bind fun n =>
          ((value e).filter (Value.isWithin depth)).map fun v => (n, v))
            = ((name e).bind fun n => (value e).map fun v => (n, v)).filter
                fun m => Value.isWithin depth m.2 := by
        cases name e with
        | none => rfl
        | some n => rw [Option.bind_some, Option.bind_some, Option.filter_map]; rfl
      simp only [member, mapM_filter] at read
      exact read

/-! ## Documents -/

theorem read?_of_reads {text : String} {before cs after : List Char} {answer : Option Value}
    (hb : IsBlanks before) (ha : IsBlanks after) (e : text.toList = before ++ cs ++ after)
    (h : Reads (readValue maxDepth) cs answer) : read? text = answer := by
  have follows : Follows after := by
    rw [← List.append_nil after]
    exact Follows.of_blanks ha (by intro c hc; cases hc)
  have nothing_left : skipBlanks after = [] := by
    have := skipBlanks_append ha []
    rwa [List.append_nil] at this
  rw [read?, e, List.append_assoc, (skipsBlanks_readValue _).append hb, h after follows]
  cases answer with
  | none => rfl
  | some v => simp [nothing_left]

end SpecCoverage.Json
