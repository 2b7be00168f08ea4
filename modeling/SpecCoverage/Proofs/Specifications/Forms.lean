import SpecCoverage.Proofs.Text.Matches
import SpecCoverage.Specifications.Extraction

/-!
# What the patterns read

The form of the texts that each pattern of the rules reads: what is read has the form (`callSignature_eq_some`,
`isBullet_of_boldBullet`, `codeDefinition_eq_some`, `mention_eq_some`), and a text of the form is read
(`callSignature_mark`, `boldBullet_of_isBullet`, `codeDefinition_text`, `mention_append`).
-/

namespace SpecCoverage.Specifications

open Text

/-! ## Call signatures -/

/-- A signature that a mark may hold. -/
structure Signature.IsCall (s : Signature) : Prop where
  ne_nil : s.name ≠ []
  named : ∀ c ∈ s.name, isNameChar c = true
  closed : ∀ c ∈ s.parameters, c ≠ ')' ∧ c ≠ '\n'

/-- `**name(parameters)**`. -/
def Signature.mark (s : Signature) : List Char := "**".toList ++ (s.name ++ '(' :: (s.parameters ++ ")**".toList))

theorem Signature.IsCall.lineFeed_not_mem {s : Signature} (call : s.IsCall) : '\n' ∉ s.mark := by
  simp only [mark, List.mem_append, List.mem_cons, not_or]
  refine ⟨by decide, fun mem => ?_, by decide, fun mem => (call.closed _ mem).2 rfl, by decide⟩
  exact absurd (call.named _ mem) (by decide)

theorem optionally_eq_append (piece cs : List Char) :
    ∃ front, (front = [] ∨ front = piece) ∧ cs = front ++ optionally piece cs := by
  unfold optionally
  cases h : behind? piece cs with
  | none => exact ⟨[], .inl rfl, rfl⟩
  | some rest => exact ⟨piece, .inr rfl, behind?_eq_some h⟩

theorem callSignature_mark {s : Signature} (call : s.IsCall) (rest : List Char) :
    callSignature (s.mark ++ rest) = some (s, optionally [':'] rest) := by
  have inner : ∀ c ∈ s.parameters, (decide (c ≠ ')') && decide (c ≠ '\n')) = true := by
    simpa using call.closed
  have start : behind? "**".toList (s.mark ++ rest)
      = some (s.name ++ '(' :: (s.parameters ++ ')' :: '*' :: '*' :: rest)) := by
    rw [behind?_eq_some_iff]
    simp [Signature.mark]
  have opened : behind? ['('] ('(' :: (s.parameters ++ ')' :: '*' :: '*' :: rest))
      = some (s.parameters ++ ')' :: '*' :: '*' :: rest) := behind?_eq_some_iff.2 rfl
  have parameters := takeWhile_append_cons inner (c := ')') (by decide) ('*' :: '*' :: rest)
  have behind := dropWhile_append_cons inner (c := ')') (by decide) ('*' :: '*' :: rest)
  have stop : behind? ")**".toList (')' :: '*' :: '*' :: rest) = some rest := behind?_eq_some_iff.2 rfl
  simp only [callSignature, bind, start, Option.bind_some, run?_append call.ne_nil call.named (c := '(') (by decide),
    opened, parameters, behind, stop]
  rfl

theorem callSignature_eq_some {cs rest : List Char} {s : Signature} (h : callSignature cs = some (s, rest)) :
    s.IsCall ∧ ∃ colon, (colon = [] ∨ colon = [':']) ∧ cs = s.mark ++ (colon ++ rest) := by
  simp only [callSignature, bind, Option.bind_eq_some_iff, pure, Option.some.injEq, Prod.mk.injEq,
    behind?_eq_some_iff] at h
  obtain ⟨_, rfl, ⟨name, _⟩, hname, inner, rfl, after, closing, rfl, rfl⟩ := h
  obtain ⟨hne, named, rfl⟩ := run?_eq_some hname
  obtain ⟨colon, hcolon, hafter⟩ := optionally_eq_append [':'] after
  refine ⟨⟨hne, named, fun c hc => ?_⟩, colon, hcolon, ?_⟩
  · simpa using List.all_eq_true.1 List.all_takeWhile c hc
  · have split := List.takeWhile_append_dropWhile (p := fun c => decide (c ≠ ')') && decide (c ≠ '\n')) (l := inner)
    rw [closing, hafter] at split
    simp only [Signature.mark, List.append_assoc, List.cons_append, List.nil_append, split]

theorem takes_callSignature : Takes callSignature :=
  .behind (by decide) <| .run rfl fun _ => .behind (by decide) <| .takeWhile (by decide) fun _ =>
    .behind (by decide) <| isLineBound_optionally (by decide) _

/-! ## Bold bullets -/

/-- A line that begins, behind spaces and tabs, with a hyphen and a name in bold type. -/
structure IsBullet (line name : List Char) : Prop where
  ne_nil : name ≠ []
  named : ∀ c ∈ name, isNameChar c = true
  exists_split : ∃ indent blanks rest, (∀ c ∈ indent, c = ' ' ∨ c = '\t') ∧ (∀ c ∈ blanks, c = ' ' ∨ c = '\t') ∧
    line = indent ++ '-' :: (blanks ++ "**".toList ++ (name ++ "**".toList ++ rest))

theorem isBullet_of_boldBullet {line name rest : List Char} (h : boldBullet line = some (name, rest)) :
    IsBullet line name ∧ byteLength rest < byteLength line := by
  simp only [boldBullet, bind, Option.bind_eq_some_iff, pure, Option.some.injEq, Prod.mk.injEq,
    behind?_eq_some_iff] at h
  obtain ⟨_, hindent, _, hblanks, ⟨name, _⟩, hname, after, rfl, rfl, rfl⟩ := h
  obtain ⟨indent, indented, rfl⟩ := exists_of_dropWhile_eq hindent
  obtain ⟨blanks, blank, rfl⟩ := exists_of_dropWhile_eq hblanks
  obtain ⟨hne, named, rfl⟩ := run?_eq_some hname
  have spaced : ∀ {c : Char}, (decide (c = ' ') || decide (c = '\t')) = true → c = ' ' ∨ c = '\t' := by simp
  refine ⟨⟨hne, named, indent, blanks, after, fun c hc => spaced (indented c hc), fun c hc => spaced (blank c hc),
    by simp⟩, ?_⟩
  obtain ⟨colon, -, hafter⟩ := optionally_eq_append [':'] after
  have total := congrArg byteLength hafter
  have := '-'.utf8Size_pos
  simp only [byteLength_append, byteLength] at total ⊢
  omega

theorem boldBullet_of_isBullet {line name : List Char} (h : IsBullet line name) :
    ∃ rest, boldBullet line = some (name, rest) := by
  obtain ⟨hne, named, indent, blanks, rest, hindent, hblanks, rfl⟩ := h
  have spaced : ∀ {c : Char}, c = ' ' ∨ c = '\t' → (decide (c = ' ') || decide (c = '\t')) = true := by simp
  have hyphen : behind? ['-'] ('-' :: (blanks ++ '*' :: '*' :: (name ++ '*' :: '*' :: rest)))
      = some (blanks ++ '*' :: '*' :: (name ++ '*' :: '*' :: rest)) := behind?_eq_some_iff.2 rfl
  have start : behind? "**".toList ('*' :: '*' :: (name ++ '*' :: '*' :: rest))
      = some (name ++ '*' :: '*' :: rest) := behind?_eq_some_iff.2 rfl
  have stop : behind? "**".toList ('*' :: '*' :: rest) = some rest := behind?_eq_some_iff.2 rfl
  have flat : indent ++ '-' :: (blanks ++ "**".toList ++ (name ++ "**".toList ++ rest))
      = indent ++ '-' :: (blanks ++ '*' :: '*' :: (name ++ '*' :: '*' :: rest)) := by simp
  refine ⟨optionally [':'] rest, ?_⟩
  simp only [boldBullet, bind, flat]
  rw [dropWhile_append_cons, hyphen, Option.bind_some, dropWhile_append_cons, start, Option.bind_some,
    run?_append hne named rfl, Option.bind_some, stop]
  · rfl
  · exact fun c hc => spaced (hblanks c hc)
  · rfl
  · exact fun c hc => spaced (hindent c hc)
  · rfl

/-! ## Identifiers -/

/-- The names that the rule for script code reads. -/
structure IsIdentifier (name : List Char) : Prop where
  begins : ∃ c rest, name = c :: rest ∧ beginsIdentifier c = true
  continues : ∀ c ∈ name, continuesIdentifier c = true

theorem IsIdentifier.ne_nil {name : List Char} (h : IsIdentifier name) : name ≠ [] := by
  obtain ⟨_, _, rfl, -⟩ := h.begins
  exact List.cons_ne_nil _ _

theorem continuesIdentifier_of_isBlank {c : Char} (h : isBlank c = true) : continuesIdentifier c = false :=
  eq_false_of_isBlank (by decide +kernel) h

theorem continuesIdentifier_of_beginsIdentifier {c : Char} (h : beginsIdentifier c = true) :
    continuesIdentifier c = true := by
  have ascii : c.toNat < 128 := by
    have ranges : (decide ('A'.val ≤ c.val ∧ c.val ≤ 'Z'.val) || (decide ('a'.val ≤ c.val) && decide (c.val ≤ 'z'.val))
        || decide (c = '_') || decide (c = '$')) = true := h
    simp only [Bool.or_eq_true, Bool.and_eq_true, decide_eq_true_eq, UInt32.le_iff_toNat_le] at ranges
    rcases ranges with (((⟨-, le⟩ | ⟨-, le⟩) | rfl) | rfl)
    · exact Nat.lt_of_le_of_lt le (by decide)
    · exact Nat.lt_of_le_of_lt le (by decide)
    · decide
    · decide
  have all : ∀ n < 128, beginsIdentifier (Char.ofNat n) = true → continuesIdentifier (Char.ofNat n) = true := by
    decide +kernel
  have same := all c.toNat ascii
  rw [Char.ofNat_toNat] at same
  exact same h

theorem identifier_eq_some {cs name rest : List Char} (h : identifier cs = some (name, rest)) :
    IsIdentifier name ∧ cs = name ++ rest := by
  unfold identifier at h
  split at h
  · next c cs =>
    split at h
    · next begins =>
      obtain ⟨hne, hall, split⟩ := run?_eq_some h
      obtain ⟨d, name, rfl⟩ := List.exists_cons_of_ne_nil hne
      obtain ⟨rfl, -⟩ := List.cons_eq_cons.1 split
      exact ⟨⟨⟨c, name, rfl, begins⟩, hall⟩, split⟩
    · cases h
  · cases h

theorem identifier_append_of_head? {name rest : List Char} (h : IsIdentifier name)
    (stop : ∀ c ∈ rest.head?, continuesIdentifier c = false) : identifier (name ++ rest) = some (name, rest) := by
  obtain ⟨d, others, rfl, begins⟩ := h.begins
  unfold identifier
  simp only [List.cons_append, begins, if_true]
  exact run?_append_of_head? (by simp) h.continues stop

/-! ## Definitions in script code -/

/-- No brace and no semicolon: nothing that ends a statement. -/
def isWithinStatement (c : Char) : Bool := c ≠ '\x7b' && c ≠ '\x7d' && c ≠ ';'

/-- What may stand in front of the name: nothing, or the keyword and blanks. -/
def IsLead (lead : List Char) : Prop :=
  lead = [] ∨ ∃ blanks, blanks ≠ [] ∧ (∀ c ∈ blanks, isBlank c = true) ∧ lead = "function".toList ++ blanks

/-- A text that the rule takes for a definition. -/
structure IsDefinition (found : List Char) (s : Signature) : Prop where
  isIdentifier : IsIdentifier s.name
  closed : ')' ∉ s.parameters
  exists_split : ∃ lead blanks between, IsLead lead ∧ (∀ c ∈ blanks, isBlank c = true) ∧
    (∀ c ∈ between, isWithinStatement c = true) ∧
    found = lead ++ (s.name ++ (blanks ++ '(' :: (s.parameters ++ ')' :: (between ++ ['\x7b']))))

theorem behindBlanks?_eq_some {cs rest : List Char} (h : behindBlanks? cs = some rest) :
    ∃ blanks, blanks ≠ [] ∧ (∀ c ∈ blanks, isBlank c = true) ∧ cs = blanks ++ rest := by
  cases cs with
  | nil => cases h
  | cons c cs =>
    rw [behindBlanks?, Option.ite_none_right_eq_some, Option.some.injEq] at h
    obtain ⟨blank, rfl⟩ := h
    refine ⟨c :: cs.takeWhile isBlank, by simp, ?_, ?_⟩
    · intro d hd
      rcases List.mem_cons.1 hd with rfl | hd
      · exact blank
      · exact List.all_eq_true.1 List.all_takeWhile d hd
    · rw [List.cons_append, trimStart, List.takeWhile_append_dropWhile]

private theorem definedSignature_eq_some {cs rest : List Char} {s : Signature}
    (h : definedSignature cs = some (s, rest)) :
    IsIdentifier s.name ∧ ')' ∉ s.parameters ∧ ∃ blanks between, (∀ c ∈ blanks, isBlank c = true) ∧
      (∀ c ∈ between, isWithinStatement c = true) ∧
      cs = s.name ++ (blanks ++ '(' :: (s.parameters ++ ')' :: (between ++ '\x7b' :: rest))) := by
  simp only [definedSignature, bind, Option.bind_eq_some_iff, pure, Option.some.injEq, Prod.mk.injEq,
    behind?_eq_some_iff] at h
  obtain ⟨⟨name, _⟩, hname, inner, hinner, _, houter, _, hbody, rfl, rfl⟩ := h
  obtain ⟨blanks, blank, rfl⟩ := exists_of_dropWhile_eq hinner
  obtain ⟨between, within, rfl⟩ := exists_of_dropWhile_eq hbody
  obtain ⟨named, rfl⟩ := identifier_eq_some hname
  refine ⟨named, fun mem => ?_, blanks, between, blank, within, ?_⟩
  · simpa using List.all_eq_true.1 List.all_takeWhile _ mem
  · have parameters := @List.takeWhile_append_dropWhile _ (fun c => decide (c ≠ ')')) inner
    rw [houter] at parameters
    exact congrArg (fun cs => name ++ (blanks ++ '(' :: cs)) parameters.symm

theorem codeDefinition_eq_some {cs rest : List Char} {s : Signature} (h : codeDefinition cs = some (s, rest)) :
    ∃ found, IsDefinition found s ∧ cs = found ++ rest := by
  -- with or without the keyword in front, it is a defined signature that is read
  rcases Option.or_eq_some_iff.1 h with h | ⟨-, h⟩
  · obtain ⟨middle, hlead, h⟩ := Option.bind_eq_some_iff.1 h
    obtain ⟨behindWord, hword, hblanks⟩ := Option.bind_eq_some_iff.1 hlead
    obtain ⟨named, closed, blanks, between, hblank, hwithin, rfl⟩ := definedSignature_eq_some h
    obtain ⟨lead, hne, hall, rfl⟩ := behindBlanks?_eq_some hblanks
    obtain rfl := behind?_eq_some hword
    exact ⟨_, ⟨named, closed, _, _, _, .inr ⟨lead, hne, hall, rfl⟩, hblank, hwithin, rfl⟩, by simp⟩
  · obtain ⟨named, closed, blanks, between, hblank, hwithin, rfl⟩ := definedSignature_eq_some h
    exact ⟨_, ⟨named, closed, [], _, _, .inl rfl, hblank, hwithin, rfl⟩, by simp⟩

theorem takes_codeDefinition : Takes codeDefinition where
  exists_found h := by
    obtain ⟨found, ⟨-, -, lead, blanks, between, -, -, -, e⟩, split⟩ := codeDefinition_eq_some h
    refine ⟨found, ?_, split⟩
    rw [e]
    simp

/-- `function name(parameters) {`. -/
def Signature.text (s : Signature) : List Char :=
  "function".toList ++ ' ' :: (s.name ++ '(' :: (s.parameters ++ [')', ' ', '\x7b']))

private theorem trimStart_of_isIdentifier {name : List Char} (named : IsIdentifier name) (rest : List Char) :
    trimStart (name ++ rest) = name ++ rest := by
  obtain ⟨c, others, rfl, -⟩ := named.begins
  have notBlank : ¬ isBlank c = true := fun blank => by
    have continues := named.continues c List.mem_cons_self
    rw [continuesIdentifier_of_isBlank blank] at continues
    cases continues
  rw [List.cons_append, trimStart, List.dropWhile_cons_of_neg notBlank]

/-- An identifier ends in front of blanks and a parenthesis. -/
theorem continuesIdentifier_of_mem_head? {blanks : List Char} (blank : ∀ c ∈ blanks, isBlank c = true)
    (rest : List Char) : ∀ c ∈ (blanks ++ '(' :: rest).head?, continuesIdentifier c = false := by
  have mark : continuesIdentifier '(' = false := by decide
  cases blanks with
  | nil => simpa using mark
  | cons b _ => simpa using continuesIdentifier_of_isBlank (blank b List.mem_cons_self)

private theorem definedSignature_append {s : Signature} (named : IsIdentifier s.name) (closed : ')' ∉ s.parameters)
    {blanks between : List Char} (blank : ∀ c ∈ blanks, isBlank c = true)
    (within : ∀ c ∈ between, isWithinStatement c = true) (rest : List Char) :
    definedSignature (s.name ++ (blanks ++ '(' :: (s.parameters ++ ')' :: (between ++ '\x7b' :: rest))))
      = some (s, rest) := by
  have stop := continuesIdentifier_of_mem_head? blank (s.parameters ++ ')' :: (between ++ '\x7b' :: rest))
  have opened : trimStart (blanks ++ '(' :: (s.parameters ++ ')' :: (between ++ '\x7b' :: rest)))
      = '(' :: (s.parameters ++ ')' :: (between ++ '\x7b' :: rest)) := dropWhile_append_cons blank (by decide) _
  have parameters : (s.parameters ++ ')' :: (between ++ '\x7b' :: rest)).takeWhile (· ≠ ')') = s.parameters :=
    takeWhile_append_cons (forall_ne_of_not_mem closed) (by decide) _
  have behind : (s.parameters ++ ')' :: (between ++ '\x7b' :: rest)).dropWhile (· ≠ ')')
      = ')' :: (between ++ '\x7b' :: rest) := dropWhile_append_cons (forall_ne_of_not_mem closed) (by decide) _
  have body : (between ++ '\x7b' :: rest).dropWhile isWithinStatement = '\x7b' :: rest :=
    dropWhile_append_cons within (by decide) _
  unfold isWithinStatement at body
  simp only [definedSignature, bind, identifier_append_of_head? named stop, Option.bind_some, opened, behind?, if_true,
    parameters, behind, body]
  rfl

theorem Signature.text_append (s : Signature) (rest : List Char) : s.text ++ rest
    = "function".toList ++ ' ' :: (s.name ++ '(' :: (s.parameters ++ ')' :: ' ' :: '\x7b' :: rest)) := by
  have any : ∀ word : List Char, word ++ ' ' :: (s.name ++ '(' :: (s.parameters ++ [')', ' ', '\x7b'])) ++ rest
      = word ++ ' ' :: (s.name ++ '(' :: (s.parameters ++ ')' :: ' ' :: '\x7b' :: rest)) := fun word => by simp
  exact any _

theorem codeDefinition_text {s : Signature} (named : IsIdentifier s.name) (closed : ')' ∉ s.parameters)
    (rest : List Char) : codeDefinition (s.text ++ rest) = some (s, rest) := by
  have keyword : behind? "function".toList (s.text ++ rest)
      = some (' ' :: (s.name ++ '(' :: (s.parameters ++ ')' :: ' ' :: '\x7b' :: rest))) := by
    rw [behind?_eq_some_iff, s.text_append]
  have blanks : behindBlanks? (' ' :: (s.name ++ '(' :: (s.parameters ++ ')' :: ' ' :: '\x7b' :: rest)))
      = some (s.name ++ '(' :: (s.parameters ++ ')' :: ' ' :: '\x7b' :: rest)) := by
    rw [behindBlanks?, if_pos (by decide), trimStart_of_isIdentifier named]
  have read := @definedSignature_append s named closed [] [' '] (by simp) (List.forall_mem_singleton.2 rfl) rest
  rw [List.nil_append, List.singleton_append] at read
  rw [codeDefinition, keyword, Option.bind_some, blanks, Option.bind_some, read, Option.some_or]

theorem IsDefinition.getLast?_eq {found : List Char} {s : Signature} (h : IsDefinition found s) :
    found.getLast? = some '\x7b' := by
  obtain ⟨lead, blanks, between, -, -, -, rfl⟩ := h.exists_split
  have split : lead ++ (s.name ++ (blanks ++ '(' :: (s.parameters ++ ')' :: (between ++ ['\x7b']))))
      = lead ++ (s.name ++ (blanks ++ '(' :: (s.parameters ++ ')' :: between))) ++ ['\x7b'] := by simp
  rw [split, List.getLast?_concat]

theorem isSome_codeDefinition_append {s : Signature} (named : IsIdentifier s.name) (closed : ')' ∉ s.parameters)
    {blanks between : List Char} (blank : ∀ c ∈ blanks, isBlank c = true)
    (within : ∀ c ∈ between, isWithinStatement c = true) (rest : List Char) :
    (codeDefinition (s.name ++ (blanks ++ '(' :: (s.parameters ++ ')' :: (between ++ '\x7b' :: rest))))).isSome
      = true := by
  rw [codeDefinition, Option.isSome_or, definedSignature_append named closed blank within, Option.isSome_some,
    Bool.or_true]

/-! ## Mentions -/

theorem mention_eq_some {cs name rest : List Char} (h : mention cs = some (name, rest)) :
    name ≠ [] ∧ (∀ c ∈ name, isNameChar c = true) ∧
      ∃ inner, ')' ∉ inner ∧ cs = name ++ '(' :: (inner ++ ')' :: rest) := by
  simp only [mention, bind, Option.bind_eq_some_iff, pure, Option.some.injEq, Prod.mk.injEq,
    behind?_eq_some_iff] at h
  obtain ⟨⟨name, _⟩, hname, _, rfl, _, hinner, rfl, rfl⟩ := h
  obtain ⟨inner, closed, rfl⟩ := exists_of_dropWhile_eq hinner
  obtain ⟨hne, named, rfl⟩ := run?_eq_some hname
  exact ⟨hne, named, inner, fun mem => by simpa using closed _ mem, rfl⟩

theorem mention_append {name inner : List Char} (hne : name ≠ []) (named : ∀ c ∈ name, isNameChar c = true)
    (closed : ')' ∉ inner) (back : List Char) :
    mention (name ++ '(' :: (inner ++ ')' :: back)) = some (name, back) := by
  have opened : behind? ['('] ('(' :: (inner ++ ')' :: back)) = some (inner ++ ')' :: back) :=
    behind?_eq_some_iff.2 rfl
  have stop : behind? [')'] (')' :: back) = some back := behind?_eq_some_iff.2 rfl
  simp only [mention, bind, run?_append hne named (c := '(') (by decide), Option.bind_some, opened,
    dropWhile_append_cons (forall_ne_of_not_mem closed) (c := ')') (by decide), stop]
  rfl

end SpecCoverage.Specifications
