import SpecCoverage.Json.Printer
import SpecCoverage.Proofs.Json.Reading

/-!
# Reading what has been written

`pretty` writes a value as the grammar has it, and `read?` reads the value back from that text, if the value holds
natural numbers only, none of them too large, and is not nested too deep (`read?_pretty`).

* (strings) every character is read back from its escape, and the escapes are as the grammar has them;
* (numbers) the digits of a natural number have no zero in front, and their value is the number;
* (lists) the items stand on lines of their own, with commas at the line ends.
-/

namespace SpecCoverage.Json

/-- A value whose numbers are natural and within double precision. -/
inductive Value.IsPlain : Value → Prop where
  | null : IsPlain null
  | bool (b : Bool) : IsPlain (bool b)
  | natural {n : Nat} (h : exceedsDouble n 0 = false) : IsPlain (natural n)
  | string (s : String) : IsPlain (string s)
  | array {items : List Value} (h : ∀ item ∈ items, IsPlain item) : IsPlain (array items)
  | object {members : List (String × Value)} (h : ∀ member ∈ members, IsPlain member.2) :
      IsPlain (object members)

/-! ## Strings -/

private theorem codeUnit?_hexDigit :
    ∀ n < 0x20, codeUnit? '0' '0' (hexDigit (n / 16)) (hexDigit (n % 16)) = some n := by
  decide

private theorem isHexDigit_hexDigit : ∀ n < 16, IsHexDigit (hexDigit n) := by
  unfold IsHexDigit
  decide

/-- A character is read back from its escape, and the escape is one that the grammar has. -/
private theorem escape_spec (c : Char) (cs : List Char) :
    readCharacters (escape c ++ cs) = prepend c (readCharacters cs) ∧
      (IsStringBody cs → IsStringBody (escape c ++ cs)) := by
  have letter : ∀ {d e : Char}, letterEscape? d = some e → d ∈ ['"', '\\', '/', 'b', 'f', 'n', 'r', 't'] →
      readCharacters (['\\', d] ++ cs) = prepend e (readCharacters cs) ∧
        (IsStringBody cs → IsStringBody (['\\', d] ++ cs)) :=
    fun h hd => ⟨readCharacters_letter h cs, fun hcs => .letter hd hcs⟩
  unfold escape
  split_ifs with quote backslash b f n r t control
  · rw [quote]; exact letter rfl (by decide)
  · rw [backslash]; exact letter rfl (by decide)
  · rw [b]; exact letter rfl (by decide)
  · rw [f]; exact letter rfl (by decide)
  · rw [n]; exact letter rfl (by decide)
  · rw [r]; exact letter rfl (by decide)
  · rw [t]; exact letter rfl (by decide)
  · have no_surrogate : isHighSurrogate c.toNat = false ∧ isLowSurrogate c.toNat = false := by
      constructor <;> simp [isHighSurrogate, isLowSurrogate] <;> omega
    have zero : IsHexDigit '0' := .inl (by decide)
    refine ⟨?_, fun hcs => .unit zero zero (isHexDigit_hexDigit _ (by omega))
      (isHexDigit_hexDigit _ (by omega)) hcs⟩
    have := readCharacters_unit (codeUnit?_hexDigit c.toNat control) no_surrogate.1 no_surrogate.2 cs
    rwa [Char.ofNat_toNat] at this
  · exact ⟨readCharacters_plain quote backslash (by omega) cs,
      fun hcs => .plain quote backslash (by omega) hcs⟩

private theorem isStringBody_escape (cs : List Char) : IsStringBody (cs.flatMap escape) := by
  induction cs with
  | nil => exact .nil
  | cons c cs ih => exact (escape_spec c _).2 ih

private theorem readCharacters_escape (cs rest : List Char) :
    readCharacters (cs.flatMap escape ++ '"' :: rest) = some (cs, rest) := by
  induction cs with
  | nil => rfl
  | cons c cs ih =>
    rw [List.flatMap_cons, List.append_assoc, (escape_spec c _).1, ih]
    rfl

private theorem readsString_escape (s : String) : ReadsString (s.toList.flatMap escape) (some s) := by
  intro rest
  simp [readString, Text.behind?, readCharacters_escape]

/-! ## Natural numbers -/

private theorem eq_zero_of_digitChar : ∀ n < 10, Nat.digitChar n = '0' → n = 0 := by decide

private theorem eq_zero_of_head?_toDigits {n : Nat} (h : (Nat.toDigits 10 n).head? = some '0') : n = 0 := by
  induction n using Nat.strongRecOn with
  | ind n ih =>
    by_cases small : n < 10
    · rw [Nat.toDigits_of_lt_base small, List.head?_cons, Option.some.injEq] at h
      exact eq_zero_of_digitChar n small h
    · rw [Nat.toDigits_of_base_le (by decide) (by omega), List.head?_append_of_ne_nil _ Nat.toDigits_ne_nil] at h
      have := ih (n / 10) (by omega) h
      omega

private theorem isWhole_toDigits (n : Nat) : IsWhole (Nat.toDigits 10 n) := by
  refine ⟨⟨Nat.toDigits_ne_nil, fun c hc => Nat.isDigit_of_mem_toDigits (by decide) (by decide) hc⟩, ?_⟩
  intro h
  rw [eq_zero_of_head?_toDigits h]
  rfl

private theorem digitsValue_toDigits (n : Nat) : digitsValue (Nat.toDigits 10 n) = n :=
  Nat.ofDigitChars_toDigits (by decide) (by decide)

private theorem isScalar_toDigits (n : Nat) : IsScalar (Nat.toDigits 10 n) := by
  have number : IsScalar ([] ++ Nat.toDigits 10 n ++ [] ++ []) :=
    .number (by simp) (isWhole_toDigits n) .absent .absent
  simpa using number

private theorem reads_toDigits {n : Nat} (h : exceedsDouble n 0 = false) :
    Reads readScalar (Nat.toDigits 10 n) (some (.natural n)) := by
  intro rest stop
  obtain ⟨c, cs, e⟩ := List.exists_cons_of_ne_nil (isWhole_toDigits n).1.1
  have digit : c.isDigit = true := (isWhole_toDigits n).1.2 c (by rw [e]; simp)
  have read : readNumber ([] ++ Nat.toDigits 10 n ++ [] ++ [] ++ rest) = _ :=
    readNumber_append (by simp) (isWhole_toDigits n) (fun c hc => (stop.not_number c hc).1)
      (readFraction_absent fun c hc => (stop.not_number c hc).2.1)
      (readExponent_absent fun c hc => (stop.not_number c hc).2.2)
  have plain : numeral? [] (Nat.toDigits 10 n) [] none ([] ++ Nat.toDigits 10 n ++ [] ++ [])
      = some (.natural n) := by
    simp [numeral?, digitsValue_toDigits, h]
  rw [plain] at read
  rw [e, List.cons_append, readScalar_number (.inl digit), ← List.cons_append, ← e]
  simpa using read

/-! ## Lists -/

private theorem isBlanks_newLine (level : Nat) : IsBlanks (newLine level) := by
  intro c hc
  rcases List.mem_cons.1 hc with rfl | hc
  · rfl
  · rw [List.eq_of_mem_replicate hc]; rfl

/-- Another item in front, on a line of its own. -/
theorem IsListTail.cons {rest : List Char} {items : List (List Char)} (h : IsListTail rest items)
    (level : Nat) (item : List Char) : IsListTail (',' :: (newLine level ++ item ++ rest)) (item :: items) :=
  .next isBlanks_nil (isBlanks_newLine level) h

private theorem isListTail_writtenItems (level indent : Nat) (items : List Value) :
    IsListTail (writtenItems level items ++ newLine indent) (items.map (written level)) := by
  induction items with
  | nil => exact .done (isBlanks_newLine indent)
  | cons item items ih =>
    have tail := ih.cons level (written level item)
    simpa [writtenItems] using tail

/-- A member with a blank behind the colon, and maybe more blanks. -/
def Entry.ofName (name : String) (blanks value : List Char) : Entry :=
  { name := name.toList.flatMap escape
    before := []
    after := ' ' :: blanks
    value }

private theorem Entry.isWellFormed_ofName (name : String) {blanks : List Char} (h : IsBlanks blanks)
    (value : List Char) : (Entry.ofName name blanks value).IsWellFormed where
  name := isStringBody_escape _
  before := isBlanks_nil
  after := by
    intro c hc
    rcases List.mem_cons.1 hc with rfl | hc
    · rfl
    · exact h c hc

private theorem Entry.text_ofName (name : String) (blanks value : List Char) :
    (Entry.ofName name blanks value).text = quoted name ++ ": ".toList ++ blanks ++ value := by
  simp [Entry.ofName, Entry.text, quoted]

/-- A member as it is written at a level of indentation. -/
def writtenEntry (level : Nat) (member : String × Value) : Entry :=
  Entry.ofName member.1 [] (written level member.2)

private theorem text_writtenEntry (level : Nat) (member : String × Value) :
    (writtenEntry level member).text = quoted member.1 ++ ": ".toList ++ written level member.2 := by
  simp [writtenEntry, Entry.text_ofName]

private theorem isListTail_writtenMembers (level indent : Nat) (members : List (String × Value)) :
    IsListTail (writtenMembers level members ++ newLine indent)
      (members.map fun member => (writtenEntry level member).text) := by
  induction members with
  | nil => exact .done (isBlanks_newLine indent)
  | cons member members ih =>
    have tail := ih.cons level (writtenEntry level member).text
    simpa [writtenMembers, text_writtenEntry] using tail

/-! ## Values -/

private theorem written_array (level : Nat) (items : List Value) :
    ∃ cs, written level (.array items) = '[' :: cs ++ [']'] ∧
      IsList cs (items.map (written (level + 1))) := by
  cases items with
  | nil => exact ⟨[], by simp [written], .empty (by intro c hc; cases hc)⟩
  | cons item items =>
    exact ⟨_, by simp [written], .items (isBlanks_newLine (level + 1))
      (isListTail_writtenItems (level + 1) level items)⟩

private theorem written_object (level : Nat) (members : List (String × Value)) :
    ∃ cs, written level (.object members) = '\x7b' :: cs ++ ['\x7d'] ∧
      IsList cs (members.map fun member => (writtenEntry (level + 1) member).text) := by
  cases members with
  | nil => exact ⟨[], by simp [written], .empty (by intro c hc; cases hc)⟩
  | cons member members =>
    refine ⟨_, ?_, .items (isBlanks_newLine (level + 1))
      (isListTail_writtenMembers (level + 1) level members)⟩
    simp [written, text_writtenEntry]

/-- How a value is written is what the grammar has. -/
private theorem Value.IsPlain.isValue_written {v : Value} (h : v.IsPlain) (level : Nat) :
    IsValue (written level v) := by
  induction h generalizing level with
  | null => exact .scalar (.keyword "null" (by simp))
  | bool b =>
    cases b with
    | true => exact .scalar (.keyword "true" (by simp))
    | false => exact .scalar (.keyword "false" (by simp))
  | natural _ => exact .scalar (by rw [written]; exact isScalar_toDigits _)
  | string s => exact .scalar (by rw [written]; exact .string (isStringBody_escape _))
  | @array items h ih =>
    obtain ⟨cs, e, hl⟩ := written_array level items
    rw [e]
    refine .array hl fun text ht => ?_
    obtain ⟨item, hi, rfl⟩ := List.mem_map.1 ht
    exact ih item hi (level + 1)
  | @object members h ih =>
    obtain ⟨cs, e, hl⟩ := written_object level members
    rw [e]
    refine @IsValue.object _ (members.map (writtenEntry (level + 1))) (by rwa [List.map_map]) ?_ ?_
    · intro e he
      obtain ⟨member, hm, rfl⟩ := List.mem_map.1 he
      exact Entry.isWellFormed_ofName _ isBlanks_nil _
    · intro e he
      obtain ⟨member, hm, rfl⟩ := List.mem_map.1 he
      exact ih member hm (level + 1)

private theorem mapM_some {α : Type} (items : List α) : items.mapM some = some items := by
  induction items with
  | nil => rfl
  | cons a items ih => simp [ih]

/-- A value is read back from how it is written at any level of indentation. -/
private theorem Value.IsPlain.reads_written {v : Value} (h : v.IsPlain) {depth : Nat} (hd : v.isWithin depth = true)
    (level : Nat) : Reads (readValue depth) (written level v) (some v) := by
  induction h generalizing level depth with
  | null =>
    have scalar : IsScalar "null".toList := .keyword _ (by simp)
    exact Reads.of_scalar (fun rest _ => rfl) scalar.beginsScalar depth
  | bool b =>
    cases b with
    | true =>
      have scalar : IsScalar "true".toList := .keyword _ (by simp)
      exact Reads.of_scalar (fun rest _ => rfl) scalar.beginsScalar depth
    | false =>
      have scalar : IsScalar "false".toList := .keyword _ (by simp)
      exact Reads.of_scalar (fun rest _ => rfl) scalar.beginsScalar depth
  | @natural n h =>
    rw [written]
    exact (reads_toDigits h).of_scalar (isScalar_toDigits n).beginsScalar depth
  | string s =>
    rw [written]
    exact (readsString_escape s).reads.of_scalar (IsScalar.string (isStringBody_escape _)).beginsScalar depth
  | @array items h ih =>
    obtain ⟨cs, e, hl⟩ := written_array level items
    cases depth with
    | zero => cases hd
    | succ depth =>
      rw [Value.isWithin, List.all_eq_true] at hd
      have read := reads_array hl (fun item hi => ih item hi (hd item hi) (level + 1))
        (fun item hi => ((h item hi).isValue_written (level + 1)).beginsValue)
      rw [mapM_some] at read
      rwa [e]
  | @object members h ih =>
    obtain ⟨cs, e, hl⟩ := written_object level members
    cases depth with
    | zero => cases hd
    | succ depth =>
      rw [Value.isWithin, List.all_eq_true] at hd
      have read := reads_object hl (fun _ _ => Entry.isWellFormed_ofName _ isBlanks_nil _)
        (fun member _ => readsString_escape member.1)
        (fun member hm => ih member hm (hd member hm) (level + 1))
      change Reads _ _ ((members.mapM some).map Value.object) at read
      rw [mapM_some] at read
      rwa [e]

theorem Value.IsPlain.isDocument_pretty {v : Value} (h : v.IsPlain) : IsDocument (pretty v) :=
  ⟨[], written 0 v, [], isBlanks_nil, h.isValue_written 0, isBlanks_nil, by simp [pretty]⟩

theorem Value.IsPlain.read?_pretty {v : Value} (h : v.IsPlain) (hd : v.isWithin maxDepth = true) :
    read? (pretty v) = some v :=
  read?_of_reads isBlanks_nil isBlanks_nil (show (pretty v).toList = [] ++ written 0 v ++ [] by simp [pretty])
    (h.reads_written hd 0)

/-- A document as the value of the only member of an object is read as it is read alone, with one level of depth
less. -/
theorem IsDocument.exists_read? {text : String} (h : IsDocument text) (name : String) :
    ∃ answer : Option Value, read? text = answer.filter (Value.isWithin maxDepth) ∧
      read? (String.ofList ('\x7b' :: quoted name ++ ": ".toList) ++ text ++ "\x7d") =
        (answer.filter (Value.isWithin (maxDepth - 1))).map fun v => .object [(name, v)] := by
  obtain ⟨before, cs, after, hb, hv, ha, e⟩ := h
  obtain ⟨answer, hr⟩ := hv.exists_reads
  refine ⟨answer, read?_of_reads hb ha e (hr maxDepth), ?_⟩
  have list : IsList ([] ++ (Entry.ofName name before cs).text ++ after)
      ([()].map fun _ => (Entry.ofName name before cs).text) :=
    .items isBlanks_nil (.done ha)
  have read : Reads (readValue maxDepth) _ _ := reads_object list
    (fun _ _ => Entry.isWellFormed_ofName name hb cs) (fun _ _ => readsString_escape name)
    (fun _ _ => hr (maxDepth - 1))
  have whole : (String.ofList ('\x7b' :: quoted name ++ ": ".toList) ++ text ++ "\x7d").toList
      = [] ++ ('\x7b' :: ([] ++ (Entry.ofName name before cs).text ++ after) ++ ['\x7d']) ++ [] := by
    simp [Entry.text_ofName, e]
  rw [read?_of_reads isBlanks_nil isBlanks_nil whole read]
  cases answer.filter (Value.isWithin (maxDepth - 1)) <;> rfl

end SpecCoverage.Json
