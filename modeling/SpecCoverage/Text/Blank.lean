/-!
# Blanks

White space in the sense of Unicode, and what is left of a text when the white space around it is
removed.
-/

namespace SpecCoverage.Text

def isBlank (c : Char) : Bool :=
  let n := c.toNat
  (9 ≤ n && n ≤ 13) || n = 32 || n = 0x85 || n = 0xA0 || n = 0x1680 || (0x2000 ≤ n && n ≤ 0x200A)
    || n = 0x2028 || n = 0x2029 || n = 0x202F || n = 0x205F || n = 0x3000

def trimStart (cs : List Char) : List Char := cs.dropWhile isBlank

def trimEnd (cs : List Char) : List Char := (cs.reverse.dropWhile isBlank).reverse

def trim (cs : List Char) : List Char := trimEnd (trimStart cs)

/-- The maximal pieces of a text without blanks. -/
def words (cs : List Char) : List (List Char) :=
  (cs.foldr (fun c (word, found) =>
      if isBlank c then ([], if word.isEmpty then found else word :: found) else (c :: word, found))
    (([], []) : List Char × List (List Char))) |> fun (word, found) =>
      if word.isEmpty then found else word :: found

/-- The pieces with `separator` between any two of them. -/
def joined (separator : List Char) (pieces : List (List Char)) : List Char :=
  (pieces.intersperse separator).flatten

end SpecCoverage.Text
