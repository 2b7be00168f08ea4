/-!
# Globs

A glob is a pattern for whole paths.  `?` stands for one byte and `*` for any number of them, slashes
included; `**` between slashes stands for any number of directories; brackets hold a class of characters
and braces alternatives; a backslash takes away the meaning of the next character.  `Glob.ofString?`
reads a glob and `Glob.covers` says whether it covers a path.
-/

namespace SpecCoverage.Files

inductive GlobToken where
  | literal (c : Char)
  | anyByte
  | anyText
  /-- `**` and a slash at the start. -/
  | leadingDirectories
  /-- A slash and `**` at the end. -/
  | trailingDirectories
  /-- `**` between two slashes. -/
  | directories
  | oneOf (negated : Bool) (ranges : List (Char × Char))
  | alternatives (branches : List (List GlobToken))

structure Glob where
  tokens : List GlobToken

/-! ## Reading -/

/-- The ranges of a class behind what has been read of it, the last one first.  The flags say whether
anything has been read and whether a hyphen came last. -/
private def readRanges (started hyphen : Bool) (ranges : List (Char × Char)) :
    List Char → Option (List (Char × Char) × List Char)
  | [] => none
  | c :: cs =>
    if c = ']' && started then some (if hyphen then ('-', '-') :: ranges else ranges, cs)
    else if c = '-' && started && !hyphen then readRanges true true ranges cs
    else match hyphen, ranges with
      | true, (low, _) :: earlier =>
        if c < low then none else readRanges true false ((low, c) :: earlier) cs
      | _, _ => readRanges true false ((c, c) :: ranges) cs

/-- A class behind its opening bracket. -/
private def readClass (cs : List Char) : Option (GlobToken × List Char) :=
  match cs with
  | '!' :: rest | '^' :: rest =>
    (readRanges false false [] rest).map fun (ranges, last) => (.oneOf true ranges.reverse, last)
  | _ => (readRanges false false [] cs).map fun (ranges, last) => (.oneOf false ranges.reverse, last)

/-- What two stars mean behind the tokens before them, the last one first, and the character before
them: the tokens and the text behind. -/
private def readStars (inBraces : Bool) (before : Option Char) (tokens : List GlobToken)
    (rest : List Char) : List GlobToken × List Char :=
  let plain := (.anyText :: .anyText :: tokens, rest)
  match tokens with
  | [] =>
    match rest with
    | [] => ([.leadingDirectories], [])
    | '/' :: more => ([.leadingDirectories], more)
    | _ => plain
  | previous :: earlier =>
    if before ≠ some '/' then plain
    else
      let closes := match rest with
        | [] => true
        | c :: _ => inBraces && (c = ',' || c = '\x7d')
      let joined (token : GlobToken) : List GlobToken :=
        match previous with
        | .leadingDirectories => .leadingDirectories :: earlier
        | .trailingDirectories => .trailingDirectories :: earlier
        | _ => token :: earlier
      if closes then (joined .trailingDirectories, rest)
      else match rest with
        | '/' :: more => (joined .directories, more)
        | _ => plain

mutual

/-- The tokens up to the end of the text, or within braces up to a comma or the closing brace; those
already read are given, the last one first, and so is the character before. -/
private def readTokens (inBraces : Bool) : Nat → Option Char → List GlobToken → List Char →
    Option (List GlobToken × List Char)
  | 0, _, _, _ => none
  | _ + 1, _, tokens, [] => some (tokens.reverse, [])
  | fuel + 1, before, tokens, c :: cs =>
    if c = '?' then readTokens inBraces fuel (some c) (.anyByte :: tokens) cs
    else if c = '*' then
      match cs with
      | '*' :: rest =>
        let (tokens, last) := readStars inBraces before tokens rest
        readTokens inBraces fuel (some (if last.length < rest.length then '/' else '*')) tokens last
      | _ => readTokens inBraces fuel (some c) (.anyText :: tokens) cs
    else if c = '[' then
      match readClass cs with
      | some (token, rest) => readTokens inBraces fuel (some ']') (token :: tokens) rest
      | none => none
    else if c = '\x7b' then
      match readBranches fuel c cs with
      | some (branches, rest) =>
        readTokens inBraces fuel (some '\x7d') (.alternatives branches :: tokens) rest
      | none => none
    else if c = '\x7d' then if inBraces then some (tokens.reverse, c :: cs) else none
    else if c = ',' && inBraces then some (tokens.reverse, c :: cs)
    else if c = '\\' then
      match cs with
      | [] => none
      | escaped :: rest => readTokens inBraces fuel (some escaped) (.literal escaped :: tokens) rest
    else readTokens inBraces fuel (some c) (.literal c :: tokens) cs

/-- The branches of alternatives behind the opening brace or a comma, up to the closing brace. -/
private def readBranches : Nat → Char → List Char → Option (List (List GlobToken) × List Char)
  | 0, _, _ => none
  | fuel + 1, before, cs =>
    match readTokens true fuel (some before) [] cs with
    | some (tokens, ',' :: rest) =>
      (readBranches fuel ',' rest).map fun (branches, last) => (tokens :: branches, last)
    | some (tokens, '\x7d' :: rest) => some ([tokens], rest)
    | _ => none

end

def Glob.ofString? (pattern : String) : Option Glob :=
  let cs := pattern.toList
  match readTokens false (2 * cs.length + 2) none [] cs with
  | some (tokens, []) => some ⟨tokens⟩
  | _ => none

/-! ## Covering paths -/

/-- The bytes that a range of characters stands for: those of its ends, and between the last byte of
the lower end and the first byte of the upper end all of them. -/
private def rangeHas (byte : UInt8) (range : Char × Char) : Bool :=
  let low := String.utf8EncodeChar range.1
  let high := String.utf8EncodeChar range.2
  if range.1 = range.2 then low.contains byte
  else
    low.contains byte || high.contains byte
      || (low.getLastD 0 ≤ byte && byte ≤ high.headD 0)

def behindBytes? : List UInt8 → List UInt8 → Option (List UInt8)
  | [], bytes => some bytes
  | _ :: _, [] => none
  | p :: ps, b :: bytes => if p = b then behindBytes? ps bytes else none

def slash : UInt8 := 0x2F

/-- Whether what follows holds of some end of a text. -/
def anyTail (follows : List UInt8 → Bool) : List UInt8 → Bool
  | [] => follows []
  | b :: bytes => follows (b :: bytes) || anyTail follows bytes

/-- Whether what follows holds behind some slash of a text. -/
def anyBehindSlash (follows : List UInt8 → Bool) : List UInt8 → Bool
  | [] => false
  | b :: bytes => (b = slash && follows bytes) || anyBehindSlash follows bytes

mutual

/-- Whether a token stands for nothing because all its alternatives do. -/
private def isVoid : GlobToken → Bool
  | .alternatives branches => areVoid branches
  | _ => false

private def areVoid : List (List GlobToken) → Bool
  | [] => true
  | branch :: branches => isVoidBranch branch && areVoid branches

private def isVoidBranch : List GlobToken → Bool
  | [] => true
  | token :: tokens => isVoid token && isVoidBranch tokens

end

mutual

/-- Whether a token covers the start of a text in such a way that what follows holds of the rest. -/
def tokenCovers : GlobToken → (List UInt8 → Bool) → List UInt8 → Bool
  | .literal c, follows, bytes => (behindBytes? (String.utf8EncodeChar c) bytes).any follows
  | .anyByte, follows, bytes =>
    match bytes with
    | [] => false
    | _ :: rest => follows rest
  | .anyText, follows, bytes => anyTail follows bytes
  | .leadingDirectories, follows, bytes => follows bytes || anyBehindSlash follows bytes
  | .trailingDirectories, follows, bytes =>
    match bytes with
    | [] => false
    | b :: rest => b = slash && anyTail follows rest
  | .directories, follows, bytes =>
    match bytes with
    | [] => false
    | b :: rest => b = slash && (follows rest || anyBehindSlash follows rest)
  | .oneOf negated ranges, follows, bytes =>
    match bytes with
    | [] => false
    | b :: rest => (ranges.any (rangeHas b) != negated) && follows rest
  | .alternatives branches, follows, bytes =>
    if areVoid branches then follows bytes else someBranchCovers branches follows bytes

/-- Branches that stand for nothing do not count beside others. -/
def someBranchCovers : List (List GlobToken) → (List UInt8 → Bool) → List UInt8 → Bool
  | [], _, _ => false
  | branch :: branches, follows, bytes =>
    (!isVoidBranch branch && tokensCover branch follows bytes)
      || someBranchCovers branches follows bytes

def tokensCover : List GlobToken → (List UInt8 → Bool) → List UInt8 → Bool
  | [], follows, bytes => follows bytes
  | token :: tokens, follows, bytes => tokenCovers token (tokensCover tokens follows) bytes

end

/-- Whether a glob covers a whole path. -/
def Glob.covers (g : Glob) (path : String) : Bool :=
  match g.tokens with
  | [.leadingDirectories] => true
  | tokens => tokensCover tokens List.isEmpty path.toUTF8.toList

end SpecCoverage.Files
