import SpecCoverage.Json.Reader

/-!
# The grammar of JSON

`IsDocument` says which texts are JSON, as RFC 8259 does and without a look at the reader: arrays and objects may
be nested to any depth, numbers may be of any size, and a string may hold half of a surrogate pair.  What a
list holds between its brackets is said once, for the items of an array and for the members of an object.
-/

namespace SpecCoverage.Json

def IsBlanks (cs : List Char) : Prop := ∀ c ∈ cs, isSpace c = true

theorem isBlanks_nil : IsBlanks [] := by
  intro c hc
  cases hc

/-! ## Strings and numbers -/

def IsHexDigit (c : Char) : Prop :=
  ('0' ≤ c ∧ c ≤ '9') ∨ ('a' ≤ c ∧ c ≤ 'f') ∨ ('A' ≤ c ∧ c ≤ 'F')

/-- The text between the quotes of a string. -/
inductive IsStringBody : List Char → Prop where
  | nil : IsStringBody []
  | plain {c : Char} {cs : List Char} (not_quote : c ≠ '"') (not_escape : c ≠ '\\')
      (not_control : 0x20 ≤ c.toNat) (h : IsStringBody cs) : IsStringBody (c :: cs)
  | letter {c : Char} {cs : List Char} (hc : c ∈ ['"', '\\', '/', 'b', 'f', 'n', 'r', 't'])
      (h : IsStringBody cs) : IsStringBody ('\\' :: c :: cs)
  | unit {a b c d : Char} {cs : List Char} (ha : IsHexDigit a) (hb : IsHexDigit b) (hc : IsHexDigit c)
      (hd : IsHexDigit d) (h : IsStringBody cs) : IsStringBody ('\\' :: 'u' :: a :: b :: c :: d :: cs)

def IsDigits (cs : List Char) : Prop := cs ≠ [] ∧ ∀ c ∈ cs, c.isDigit = true

/-- The whole part of a number, in which no zero stands in front of another digit. -/
def IsWhole (cs : List Char) : Prop := IsDigits cs ∧ (cs.head? = some '0' → cs.length = 1)

inductive IsFraction : List Char → Prop where
  | absent : IsFraction []
  | present {digits : List Char} (h : IsDigits digits) : IsFraction ('.' :: digits)

inductive IsExponent : List Char → Prop where
  | absent : IsExponent []
  | present {mark : Char} {sign digits : List Char} (hmark : mark = 'e' ∨ mark = 'E')
      (hsign : sign ∈ [[], ['-'], ['+']]) (h : IsDigits digits) : IsExponent (mark :: sign ++ digits)

/-! ## Values -/

/-- A value that holds no other values. -/
inductive IsScalar : List Char → Prop where
  | keyword (word : String) (h : word ∈ ["null", "true", "false"]) : IsScalar word.toList
  | string {body : List Char} (h : IsStringBody body) : IsScalar ('"' :: body ++ ['"'])
  | number {sign whole fraction exponent : List Char} (hs : sign ∈ [[], ['-']]) (hw : IsWhole whole)
      (hf : IsFraction fraction) (he : IsExponent exponent) :
      IsScalar (sign ++ whole ++ fraction ++ exponent)

/-- What stands behind an item of a list: blanks, or a comma, the next item and what stands behind that one.
The items have no blanks around them. -/
inductive IsListTail : List Char → List (List Char) → Prop where
  | done {blanks : List Char} (h : IsBlanks blanks) : IsListTail blanks []
  | next {before after item rest : List Char} {items : List (List Char)} (hb : IsBlanks before)
      (ha : IsBlanks after) (h : IsListTail rest items) :
      IsListTail (before ++ ',' :: (after ++ item ++ rest)) (item :: items)

/-- What stands between the brackets of a list of items. -/
inductive IsList : List Char → List (List Char) → Prop where
  | empty {blanks : List Char} (h : IsBlanks blanks) : IsList blanks []
  | items {blanks item rest : List Char} {items : List (List Char)} (hb : IsBlanks blanks)
      (h : IsListTail rest items) : IsList (blanks ++ item ++ rest) (item :: items)

/-- The pieces of a member of an object; blanks may stand around the colon. -/
structure Entry where
  name : List Char
  before : List Char
  after : List Char
  value : List Char

namespace Entry

def text (e : Entry) : List Char := '"' :: e.name ++ '"' :: e.before ++ ':' :: e.after ++ e.value

structure IsWellFormed (e : Entry) : Prop where
  name : IsStringBody e.name
  before : IsBlanks e.before
  after : IsBlanks e.after

end Entry

inductive IsValue : List Char → Prop where
  | scalar {cs : List Char} (h : IsScalar cs) : IsValue cs
  | array {cs : List Char} {items : List (List Char)} (hl : IsList cs items)
      (h : ∀ item ∈ items, IsValue item) : IsValue ('[' :: cs ++ [']'])
  | object {cs : List Char} {entries : List Entry} (hl : IsList cs (entries.map Entry.text))
      (hw : ∀ e ∈ entries, e.IsWellFormed) (h : ∀ e ∈ entries, IsValue e.value) :
      IsValue ('\x7b' :: cs ++ ['\x7d'])

/-- A text that is one value with blanks around it. -/
def IsDocument (text : String) : Prop :=
  ∃ before value after, IsBlanks before ∧ IsValue value ∧ IsBlanks after ∧
    text.toList = before ++ value ++ after

end SpecCoverage.Json
