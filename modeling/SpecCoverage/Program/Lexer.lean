import SpecCoverage.Program.Token
import SpecCoverage.Text.Blank
import SpecCoverage.Text.CharacterClass

/-!
# The lexer

Reads single tokens.  `readToken` skips blanks and comments and reads the token that stands there;
`readRegex`, `readTemplate`, `readElementText` and `readElementString` read the places where the usual
rules do not hold, and are called by a reader who knows that it stands at one.

Every function returns the cursor behind what it has read, or the byte position where reading stops.
-/

namespace SpecCoverage.Program

open Text

abbrev Scan := Except Failure

def isLineEnd (c : Char) : Bool := c = '\n' || c = '\r' || c = '\u2028' || c = '\u2029'

def isSpace (c : Char) : Bool := c = '\ufeff' || (isBlank c && c ≠ '\u0085' && !isLineEnd c)

namespace Cursor

/-- Splits off the longest run of characters of a class. -/
def run (p : Char → Bool) : List Char → Nat → List Char × Cursor
  | [], n => ([], ⟨[], n⟩)
  | c :: cs, n =>
    if p c then
      let (taken, stop) := run p cs (n + c.utf8Size)
      (c :: taken, stop)
    else ([], ⟨c :: cs, n⟩)

def takeRun (p : Char → Bool) (c : Cursor) : List Char × Cursor := run p c.rest c.offset

def head? (c : Cursor) : Option Char := c.rest.head?

/-- The cursor behind `count` characters of one byte each. -/
def skip (count : Nat) (c : Cursor) : Cursor := ⟨c.rest.drop count, c.offset + count⟩

def startsWith (c : Cursor) (text : String) : Bool := text.toList.isPrefixOf c.rest

def fail {α : Type} (c : Cursor) : Scan α := .error ⟨c.offset⟩

end Cursor

/-! ## Blanks and comments -/

inductive Trivia where
  | blank
  | lineComment
  | blockComment (start : Nat)

/-- Skips blanks and comments.  The flag says whether a line has ended.  A classic script may also hold
the comments of a page, `<!--` anywhere and `-->` at the start of a line. -/
def skipTrivia (classic : Bool) : Trivia → List Char → Nat → Bool → Scan (Cursor × Bool)
  | .blank, '/' :: '/' :: cs, n, ended => skipTrivia classic .lineComment cs (n + 2) ended
  | .blank, '/' :: '*' :: cs, n, ended => skipTrivia classic (.blockComment n) cs (n + 2) ended
  | .blank, '<' :: '!' :: '-' :: '-' :: cs, n, ended =>
    if classic then skipTrivia classic .lineComment cs (n + 4) ended else .error ⟨n⟩
  | .blank, '-' :: '-' :: '>' :: cs, n, ended =>
    if !ended then .ok (⟨'-' :: '-' :: '>' :: cs, n⟩, ended)
    else if classic then skipTrivia classic .lineComment cs (n + 3) ended
    else .error ⟨n⟩
  | .blank, c :: cs, n, ended =>
    if isLineEnd c then skipTrivia classic .blank cs (n + c.utf8Size) true
    else if isSpace c then skipTrivia classic .blank cs (n + c.utf8Size) ended
    else .ok (⟨c :: cs, n⟩, ended)
  | .lineComment, c :: cs, n, ended =>
    if isLineEnd c then skipTrivia classic .blank cs (n + c.utf8Size) true
    else skipTrivia classic .lineComment cs (n + c.utf8Size) ended
  | .blockComment _, '*' :: '/' :: cs, n, ended => skipTrivia classic .blank cs (n + 2) ended
  | .blockComment start, c :: cs, n, ended =>
    skipTrivia classic (.blockComment start) cs (n + c.utf8Size) (ended || isLineEnd c)
  | .blockComment start, [], _, _ => .error ⟨start⟩
  | _, [], n, ended => .ok (⟨[], n⟩, ended)

/-! ## Escapes -/

def hexDigit? (c : Char) : Option Nat :=
  if '0' ≤ c ∧ c ≤ '9' then some (c.toNat - '0'.toNat)
  else if 'a' ≤ c ∧ c ≤ 'f' then some (c.toNat - 'a'.toNat + 10)
  else if 'A' ≤ c ∧ c ≤ 'F' then some (c.toNat - 'A'.toNat + 10)
  else none

def isHexDigit (c : Char) : Bool := (hexDigit? c).isSome

def hexValue (cs : List Char) : Nat := cs.foldl (fun n c => 16 * n + (hexDigit? c).getD 0) 0

/-- The code behind `\u`: four digits, or digits in braces that stay within Unicode. -/
def readCodePoint (c : Cursor) : Scan (Nat × Cursor) :=
  match c.rest with
  | '{' :: cs =>
    let (digits, stop) := Cursor.run isHexDigit cs (c.offset + 1)
    match stop.rest with
    | '}' :: rest =>
      if digits.isEmpty || hexValue digits > 0x10FFFF then c.fail
      else .ok (hexValue digits, ⟨rest, stop.offset + 1⟩)
    | _ => c.fail
  | w :: x :: y :: z :: rest =>
    if [w, x, y, z].all isHexDigit then .ok (hexValue [w, x, y, z], ⟨rest, c.offset + 4⟩)
    else c.fail
  | _ => c.fail

/-- The characters of a list of code units and code points; a surrogate without its partner stands for
no character. -/
def decodeUnits : List Nat → List Char
  | [] => []
  | [n] => [if 0xD800 ≤ n ∧ n < 0xE000 then '\ufffd' else Char.ofNat n]
  | high :: low :: rest =>
    if 0xD800 ≤ high ∧ high < 0xDC00 ∧ 0xDC00 ≤ low ∧ low < 0xE000 then
      Char.ofNat (0x10000 + (high - 0xD800) * 0x400 + (low - 0xDC00)) :: decodeUnits rest
    else if 0xD800 ≤ high ∧ high < 0xE000 then '\ufffd' :: decodeUnits (low :: rest)
    else Char.ofNat high :: decodeUnits (low :: rest)

/-! ## Names -/

/-- The rest of a name from an escape on; there are at most `fuel` escapes. -/
def readEscapedName : Nat → Cursor → Scan (List Char × Cursor)
  | 0, c => c.fail
  | fuel + 1, c =>
    let (run, stop) := c.takeRun continuesName
    match stop.rest with
    | '\\' :: 'u' :: rest => do
      let (code, next) ← readCodePoint ⟨rest, stop.offset + 2⟩
      let char := Char.ofNat code
      if continuesName char then
        let (more, last) ← readEscapedName fuel next
        .ok (run ++ char :: more, last)
      else stop.fail
    | '\\' :: _ => stop.fail
    | _ => .ok (run, stop)

/-- The characters of a name, whether some of them are escaped, and the cursor behind it. -/
def readName (c : Cursor) : Scan (List Char × Bool × Cursor) := do
  let (run, stop) := c.takeRun continuesName
  let (name, escaped, last) ← match stop.rest with
    | '\\' :: _ => do
      let (more, last) ← readEscapedName (stop.rest.length + 1) stop
      pure (run ++ more, true, last)
    | _ => pure (run, false, stop)
  match name with
  | first :: _ => if beginsName first then .ok (name, escaped, last) else c.fail
  | [] => c.fail

/-! ## Numbers -/

def isOctalDigit (c : Char) : Bool := '0' ≤ c && c ≤ '7'

def isBinaryDigit (c : Char) : Bool := c = '0' || c = '1'

/-- Digits with single underscores between them; the flag says whether a digit came just before. -/
def readDigits (p : Char → Bool) : Bool → List Char → Nat → Scan Cursor
  | after, '_' :: c :: cs, n =>
    if after && p c then readDigits p true (c :: cs) (n + 1) else .error ⟨n⟩
  | _, c :: cs, n => if p c then readDigits p true cs (n + 1) else
      if c = '_' then .error ⟨n⟩ else .ok ⟨c :: cs, n⟩
  | _, [], n => .ok ⟨[], n⟩

def readExponent (c : Cursor) : Scan Cursor :=
  match c.rest with
  | e :: rest =>
    if e = 'e' || e = 'E' then do
      let digits : Cursor := match rest with
        | sign :: more => if sign = '+' || sign = '-' then ⟨more, c.offset + 2⟩ else ⟨rest, c.offset + 1⟩
        | [] => ⟨[], c.offset + 1⟩
      let stop ← readDigits Char.isDigit false digits.rest digits.offset
      if stop.offset = digits.offset then c.fail else .ok stop
    else .ok c
  | [] => .ok c

def readFraction (c : Cursor) : Scan Cursor :=
  match c.rest with
  | '.' :: rest => do readExponent (← readDigits Char.isDigit false rest (c.offset + 1))
  | _ => readExponent c

def readRadix (p : Char → Bool) (c : Cursor) : Scan (TokenKind × Cursor) := do
  let digits := c.skip 2
  let stop ← readDigits p false digits.rest digits.offset
  if stop.offset = digits.offset then c.fail
  else match stop.rest with
    | 'n' :: rest => .ok (.bigint, ⟨rest, stop.offset + 1⟩)
    | _ => .ok (.number false, stop)

/-- A number whose first digit is a zero that another digit follows: octal unless it holds an `8` or a
`9`, and only in the second case with a fraction. -/
def readLegacyNumber (c : Cursor) : Scan (TokenKind × Cursor) := do
  let (digits, stop) := c.takeRun Char.isDigit
  let last ← if digits.all isOctalDigit then pure stop else readFraction stop
  .ok (.number true, last)

def readDecimal (c : Cursor) : Scan (TokenKind × Cursor) := do
  let stop ← readDigits Char.isDigit false c.rest c.offset
  match stop.rest with
  | 'n' :: rest => .ok (.bigint, ⟨rest, stop.offset + 1⟩)
  | _ => .ok (.number false, ← readFraction stop)

def readNumber (c : Cursor) : Scan (TokenKind × Cursor) := do
  let (kind, stop) ← match c.rest with
    | '0' :: x :: _ =>
      if x = 'x' || x = 'X' then readRadix isHexDigit c
      else if x = 'o' || x = 'O' then readRadix isOctalDigit c
      else if x = 'b' || x = 'B' then readRadix isBinaryDigit c
      else if x.isDigit then readLegacyNumber c
      else if x = '_' then c.fail
      else readDecimal c
    | '.' :: _ => do pure (.number false, ← readFraction c)
    | _ => readDecimal c
  match stop.head? with
  | some next => if beginsName next || next.isDigit || next = '\\' then stop.fail else .ok (kind, stop)
  | none => .ok (kind, stop)

/-! ## Strings -/

def simpleEscape (c : Char) : Nat :=
  if c = 'n' then 10 else if c = 't' then 9 else if c = 'b' then 8 else if c = 'v' then 11
  else if c = 'f' then 12 else if c = 'r' then 13 else c.toNat

def octalValue (cs : List Char) : Nat := cs.foldl (fun n c => 8 * n + (c.toNat - '0'.toNat)) 0

/-- An octal escape takes as many digits as keep its code within a byte. -/
def octalDigits (cs : List Char) : List Char :=
  let digits := (cs.take 3).takeWhile isOctalDigit
  if octalValue digits < 256 then digits else digits.take 2

/-- What an escape stands for, from behind the backslash: the units, whether it is an escape that
strict code may not contain, and the cursor behind it. -/
def readEscape (c : Cursor) : Scan (List Nat × Bool × Cursor) :=
  match c.rest with
  | [] => c.fail
  | '\r' :: '\n' :: rest => .ok ([], false, ⟨rest, c.offset + 2⟩)
  | 'x' :: y :: z :: rest =>
    if isHexDigit y && isHexDigit z then .ok ([hexValue [y, z]], false, ⟨rest, c.offset + 3⟩)
    else c.fail
  | 'u' :: rest => do
    let (code, stop) ← readCodePoint ⟨rest, c.offset + 1⟩
    .ok ([code], false, stop)
  | char :: rest =>
    if char = 'x' then c.fail
    else if isLineEnd char then .ok ([], false, ⟨rest, c.offset + char.utf8Size⟩)
    else if char = '0' && !(rest.head?.any Char.isDigit) then .ok ([0], false, ⟨rest, c.offset + 1⟩)
    else if isOctalDigit char then
      let digits := octalDigits c.rest
      .ok ([octalValue digits], true, c.skip digits.length)
    else .ok ([simpleEscape char], char = '8' || char = '9', ⟨rest, c.offset + char.utf8Size⟩)

def readStringFrom (quote : Char) : Nat → Cursor → Scan (List Nat × Bool × Cursor)
  | 0, c => c.fail
  | fuel + 1, c =>
    let (run, stop) := c.takeRun fun d => d ≠ quote && d ≠ '\\' && d ≠ '\n' && d ≠ '\r'
    let units := run.map Char.toNat
    match stop.rest with
    | '\\' :: rest => do
      let (escape, legacy, next) ← readEscape ⟨rest, stop.offset + 1⟩
      let (more, others, last) ← readStringFrom quote fuel next
      .ok (units ++ escape ++ more, legacy || others, last)
    | d :: rest => if d = quote then .ok (units, false, ⟨rest, stop.offset + 1⟩) else stop.fail
    | [] => stop.fail

def readString (quote : Char) (c : Cursor) : Scan (TokenKind × Cursor) := do
  let (units, legacy, stop) ← readStringFrom quote (c.rest.length + 1) (c.skip 1)
  .ok (.string (String.ofList (decodeUnits units)) legacy, stop)

/-! ## Templates and regular expressions -/

/-- How a piece of a template ends: with the template, or with `${`. -/
inductive TemplateEnd where
  | closed
  | substitution
deriving DecidableEq

def readTemplateFrom : Nat → Cursor → Scan (TemplateEnd × Bool × Cursor)
  | 0, c => c.fail
  | fuel + 1, c =>
    let (_, stop) := c.takeRun fun d => d ≠ '`' && d ≠ '\\' && d ≠ '$'
    match stop.rest with
    | '`' :: rest => .ok (.closed, true, ⟨rest, stop.offset + 1⟩)
    | '$' :: '{' :: rest => .ok (.substitution, true, ⟨rest, stop.offset + 2⟩)
    | '$' :: rest => readTemplateFrom fuel ⟨rest, stop.offset + 1⟩
    | '\\' :: rest =>
      match readEscape ⟨rest, stop.offset + 1⟩ with
      | .ok (_, legacy, next) => do
        let (ending, valid, last) ← readTemplateFrom fuel next
        .ok (ending, valid && !legacy, last)
      | .error _ => match rest with
        | [] => stop.fail
        | char :: after => do
          let (ending, _, last) ← readTemplateFrom fuel ⟨after, stop.offset + 1 + char.utf8Size⟩
          .ok (ending, false, last)
    | _ => stop.fail

/-- Reads a piece of a template.  The flag says whether all its escapes have a meaning. -/
def readTemplate (c : Cursor) : Scan (TemplateEnd × Bool × Cursor) :=
  readTemplateFrom (c.rest.length + 1) c

def readRegexBody : Bool → List Char → Nat → Scan Cursor
  | _, [], n => .error ⟨n⟩
  | inClass, '\\' :: c :: cs, n =>
    if isLineEnd c then .error ⟨n⟩ else readRegexBody inClass cs (n + 1 + c.utf8Size)
  | inClass, c :: cs, n =>
    if isLineEnd c then .error ⟨n⟩
    else if c = '/' && !inClass then .ok ⟨cs, n + 1⟩
    else readRegexBody (if c = '[' then true else if c = ']' then false else inClass) cs
      (n + c.utf8Size)

/-- The flags of a regular expression are known ones, none of them twice. -/
def validFlags : List Char → Bool
  | [] => true
  | c :: cs => "dgimsuvy".toList.contains c && !cs.contains c && validFlags cs

/-- Reads a regular expression from its opening slash on. -/
def readRegex (c : Cursor) : Scan Cursor := do
  let body := c.skip 1
  let flags ← readRegexBody false body.rest body.offset
  let (letters, stop) := flags.takeRun continuesName
  if validFlags letters && stop.head? ≠ some '\\' then .ok stop else c.fail

/-! ## Elements -/

/-- Text between elements runs up to the next brace or angle bracket; a closing one is refused. -/
def readElementText (c : Cursor) : Scan Cursor :=
  let (_, stop) := c.takeRun fun d => d ≠ '{' && d ≠ '<' && d ≠ '}' && d ≠ '>'
  match stop.head? with
  | some '{' | some '<' => .ok stop
  | _ => stop.fail

/-- The string of an attribute runs up to the same quote and has no escapes. -/
def readElementString (c : Cursor) : Scan Cursor :=
  match c.rest with
  | quote :: rest =>
    let (_, stop) := Cursor.run (· ≠ quote) rest (c.offset + 1)
    match stop.rest with
    | _ :: after => .ok ⟨after, stop.offset + 1⟩
    | [] => stop.fail
  | [] => c.fail

/-- The rest of a name that may contain hyphens. -/
def readElementName (c : Cursor) : Cursor := (c.takeRun fun d => continuesName d || d = '-').2

/-! ## Tokens -/

/-- Punctuation, each before every other that it starts with. -/
def symbols : List (List Char) :=
  [">>>=", "...", "===", "!==", "**=", "<<=", ">>=", ">>>", "&&=", "||=", "??=", "=>", "==", "!=",
   "<=", ">=", "&&", "||", "??", "?.", "++", "--", "+=", "-=", "*=", "/=", "%=", "&=", "|=", "^=",
   "<<", ">>", "**", "\x7b", "\x7d", "(", ")", "[", "]", ";", ",", "<", ">", "+", "-", "*", "/", "%",
   "&", "|", "^", "!", "~", "?", ":", "=", ".", "@"].map String.toList

def readSymbol (c : Cursor) : Scan (TokenKind × Cursor) :=
  match c.rest with
  | '?' :: '.' :: d :: _ =>
    if d.isDigit then .ok (.symbol "?", c.skip 1) else .ok (.symbol "?.", c.skip 2)
  | _ => match symbols.find? (·.isPrefixOf c.rest) with
    | some symbol => .ok (.symbol (String.ofList symbol), c.skip symbol.length)
    | none => c.fail

def readKind (c : Cursor) : Scan (TokenKind × Cursor) :=
  match c.rest with
  | [] => .ok (.endOfText, c)
  | char :: rest =>
    if char = '"' || char = '\'' then readString char c
    else if char = '`' then .ok (.backquote, c.skip 1)
    else if char.isDigit || (char = '.' && rest.head?.any Char.isDigit) then readNumber c
    else if char = '#' then do
      let (name, _, stop) ← readName (c.skip 1)
      .ok (.privateName (String.ofList name), stop)
    else if beginsName char || char = '\\' then do
      let (name, escaped, stop) ← readName c
      .ok (.name (String.ofList name) escaped, stop)
    else readSymbol c

/-- Reads the token at a cursor, without skipping anything. -/
def readTokenAt (onNewLine : Bool) (c : Cursor) : Scan Token := do
  let (kind, stop) ← readKind c
  .ok ⟨kind, onNewLine, c, stop⟩

/-- Reads the next token behind a cursor. -/
def readToken (classic : Bool) (c : Cursor) : Scan Token := do
  let (start, ended) ← skipTrivia classic .blank c.rest c.offset false
  readTokenAt ended start

/-- Reads the first token of a program, whose first line may name its interpreter. -/
def readFirstToken (classic : Bool) (c : Cursor) : Scan Token := do
  let mode := if c.startsWith "#!" then Trivia.lineComment else .blank
  let (start, _) ← skipTrivia classic mode c.rest c.offset true
  readTokenAt true start

end SpecCoverage.Program
