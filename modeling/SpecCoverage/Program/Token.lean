/-!
# Tokens

The words of a program.  A token keeps the text from its first character on and the text behind it, so
that a reader who knows better can read the same place again in another way: a slash as the start of a
regular expression, an angle bracket as the start of an element.
-/

namespace SpecCoverage.Program

/-- A place in the text: what is left from there on, and the byte position. -/
structure Cursor where
  rest : List Char
  offset : Nat

/-- A name spelled with an escape is never a keyword.  `legacy` marks numbers such as `010` and strings
such as `'\07'`, which strict code may not contain. -/
inductive TokenKind where
  | endOfText
  | name (text : String) (escaped : Bool)
  | privateName (name : String)
  | number (legacy : Bool)
  | bigint
  | string (value : String) (legacy : Bool)
  | backquote
  | symbol (text : String)
deriving DecidableEq, Repr

structure Token where
  kind : TokenKind
  /-- Whether the token stands on a later line than the one before it. -/
  onNewLine : Bool
  start : Cursor
  stop : Cursor

namespace Token

def startOffset (t : Token) : Nat := t.start.offset

def stopOffset (t : Token) : Nat := t.stop.offset

end Token

/-- The first place where a text stops being a program. -/
structure Failure where
  offset : Nat
deriving DecidableEq, Repr

end SpecCoverage.Program
