import SpecCoverage.Json.Value
import SpecCoverage.Text.Scan

/-!
# Reading JSON

`read?` reads a text that is one JSON value, with nothing but blanks around it.  Strings hold no control
characters and no half of a surrogate pair, numbers stay within double precision, and arrays and objects
are nested at most `maxDepth` deep.
-/

namespace SpecCoverage.Json

open Text (Pattern behind?)

def maxDepth : Nat := 127

def isSpace (c : Char) : Bool := c = ' ' || c = '\n' || c = '\r' || c = '\t'

def skipBlanks (cs : List Char) : List Char := cs.dropWhile isSpace

/-! ## Strings -/

def hexDigit? (c : Char) : Option Nat :=
  if '0' ≤ c ∧ c ≤ '9' then some (c.toNat - '0'.toNat)
  else if 'a' ≤ c ∧ c ≤ 'f' then some (c.toNat - 'a'.toNat + 10)
  else if 'A' ≤ c ∧ c ≤ 'F' then some (c.toNat - 'A'.toNat + 10)
  else none

def codeUnit? (a b c d : Char) : Option Nat := do
  let a ← hexDigit? a
  let b ← hexDigit? b
  let c ← hexDigit? c
  let d ← hexDigit? d
  return ((a * 16 + b) * 16 + c) * 16 + d

def isHighSurrogate (n : Nat) : Bool := 0xD800 ≤ n && n < 0xDC00

def isLowSurrogate (n : Nat) : Bool := 0xDC00 ≤ n && n < 0xE000

/-- The character of a pair of surrogates. -/
def pairedChar (high low : Nat) : Char :=
  Char.ofNat (0x10000 + (high - 0xD800) * 0x400 + (low - 0xDC00))

/-- What a backslash and a letter stand for. -/
def letterEscape? (c : Char) : Option Char :=
  if c = '"' || c = '\\' || c = '/' then some c
  else if c = 'b' then some '\x08'
  else if c = 'f' then some '\x0c'
  else if c = 'n' then some '\n'
  else if c = 'r' then some '\r'
  else if c = 't' then some '\t'
  else none

def prepend (c : Char) : Option (List Char × List Char) → Option (List Char × List Char) :=
  Option.map fun (found, rest) => (c :: found, rest)

/-- The characters of a string up to its closing quote. -/
def readCharacters : List Char → Option (List Char × List Char)
  | [] => none
  | '"' :: rest => some ([], rest)
  | '\\' :: 'u' :: a :: b :: c :: d :: rest =>
    match codeUnit? a b c d with
    | none => none
    | some unit =>
      if isHighSurrogate unit then
        match rest with
        | '\\' :: 'u' :: e :: f :: g :: h :: more =>
          match codeUnit? e f g h with
          | none => none
          | some low =>
            if isLowSurrogate low then prepend (pairedChar unit low) (readCharacters more) else none
        | _ => none
      else if isLowSurrogate unit then none
      else prepend (Char.ofNat unit) (readCharacters rest)
  | '\\' :: c :: rest =>
    match letterEscape? c with
    | some char => prepend char (readCharacters rest)
    | none => none
  | c :: rest => if c = '\\' || c.toNat < 0x20 then none else prepend c (readCharacters rest)

def readString : Pattern String := fun cs => do
  let rest ← behind? ['"'] cs
  let (found, rest) ← readCharacters rest
  return (String.ofList found, rest)

/-! ## Numbers -/

def digitsValue (digits : List Char) : Nat :=
  digits.foldl (fun n c => 10 * n + (c.toNat - '0'.toNat)) 0

/-- Whether `digits * 10 ^ exponent` is too large for double precision. -/
def exceedsDouble (digits : Nat) (exponent : Int) : Bool :=
  let magnitude : Int := (Nat.toDigits 10 digits).length + exponent
  if digits = 0 || magnitude < 300 then false
  else if 320 < magnitude then true
  else
    let bound := Nat.pow 2 1024 - Nat.pow 2 970
    match exponent with
    | .ofNat n => bound ≤ digits * Nat.pow 10 n
    | .negSucc n => bound * Nat.pow 10 (n + 1) ≤ digits

def readDigits : Pattern (List Char) := Text.run? Char.isDigit

/-- The digits behind a decimal point, if there is one. -/
def readFraction : Pattern (List Char) := fun cs =>
  match cs with
  | '.' :: rest => readDigits rest
  | _ => some ([], cs)

/-- The exponent, if there is one. -/
def readExponent : Pattern (Option Int) := fun cs =>
  match cs with
  | e :: rest =>
    if e = 'e' || e = 'E' then
      match rest with
      | '-' :: more => (readDigits more).map fun (digits, last) => (some (-(digitsValue digits : Int)), last)
      | '+' :: more => (readDigits more).map fun (digits, last) => (some (digitsValue digits : Int), last)
      | _ => (readDigits rest).map fun (digits, last) => (some (digitsValue digits : Int), last)
    else some (none, cs)
  | [] => some (none, cs)

def readNumber : Pattern Value := fun cs => do
  let unsigned := Text.optionally ['-'] cs
  let (whole, rest) ← readDigits unsigned
  if whole.head? = some '0' && 1 < whole.length then none
  let (fraction, rest) ← readFraction rest
  let (exponent, rest) ← readExponent rest
  if exceedsDouble (digitsValue (whole ++ fraction)) (exponent.getD 0 - fraction.length) then none
  if cs.length = unsigned.length && fraction.isEmpty && exponent.isNone then
    return (.natural (digitsValue whole), rest)
  else return (.decimal (String.ofList (cs.take (cs.length - rest.length))), rest)

/-! ## Values -/

/-- The items behind an item, up to a closing bracket; at most `fuel` follow. -/
def readMore {α : Type} (item : Pattern α) (close : Char) : Nat → Pattern (List α)
  | 0, _ => none
  | fuel + 1, cs =>
    match skipBlanks cs with
    | [] => none
    | c :: rest =>
      if c = close then some ([], rest)
      else if c = ',' then do
        let (a, rest) ← item rest
        let (more, rest) ← readMore item close fuel rest
        return (a :: more, rest)
      else none

/-- Items with commas between them, up to a closing bracket. -/
def readItems {α : Type} (item : Pattern α) (close : Char) : Pattern (List α) := fun cs =>
  match skipBlanks cs with
  | [] => none
  | c :: rest =>
    if c = close then some ([], rest)
    else do
      let (a, rest) ← item (c :: rest)
      let (more, rest) ← readMore item close (rest.length + 1) rest
      return (a :: more, rest)

def keywords : List (List Char × Value) :=
  [("null".toList, .null), ("true".toList, .bool true), ("false".toList, .bool false)]

def readScalar : Pattern Value := fun cs =>
  match cs with
  | '"' :: _ => (readString cs).map fun (s, rest) => (.string s, rest)
  | _ =>
    (keywords.findSome? fun (word, value) => (behind? word cs).map fun rest => (value, rest)).or
      (readNumber cs)

def readMember (value : Pattern Value) : Pattern (String × Value) := fun cs => do
  let (name, rest) ← readString (skipBlanks cs)
  let rest ← behind? [':'] (skipBlanks rest)
  let (v, rest) ← value rest
  return ((name, v), rest)

/-- A value that holds arrays and objects down to a depth. -/
def readValue : Nat → Pattern Value
  | 0, cs => readScalar (skipBlanks cs)
  | depth + 1, cs =>
    match skipBlanks cs with
    | '[' :: rest => (readItems (readValue depth) ']' rest).map fun (items, last) => (.array items, last)
    | '\x7b' :: rest =>
      (readItems (readMember (readValue depth)) '\x7d' rest).map fun (members, last) =>
        (.object members, last)
    | trimmed => readScalar trimmed

/-- The value that a text is. -/
def read? (text : String) : Option Value := do
  let (value, rest) ← readValue maxDepth text.toList
  if (skipBlanks rest).isEmpty then some value else none

end SpecCoverage.Json
