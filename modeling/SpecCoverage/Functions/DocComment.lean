import SpecCoverage.Text.Identifier

/-!
# Doc comments

A doc comment `/** ... */` documents the function that it directly precedes: only blanks, modifiers and
line comments may stand between the two.  `DocComment.preceding?` looks for it backwards from where the
function starts, on the reversed text.  Tags in the comment state the types of parameters and of the
result; a tag that is not well formed is passed over.
-/

namespace SpecCoverage.Functions

open Text

structure DocComment where
  text : List Char
deriving DecidableEq, Repr

/-! ## The way back to the comment -/

/-- The words that may stand between a comment and what it documents. -/
def modifierWords : List String :=
  ["export", "default", "declare", "async", "static", "public", "private", "protected", "readonly",
   "abstract", "override"]

def isIdentifierChar (c : Char) : Bool := isAlphanumeric c || c = '_' || c = '$'

/-- The reversed text without one modifier at its front, if that is a whole word. -/
def behindModifier? (reversed : List Char) : Option (List Char) :=
  modifierWords.findSome? fun word =>
    (behind? word.toList.reverse reversed).filter fun rest => !rest.head?.any isIdentifierChar

/-- Whether the last line of a text is a line comment. -/
def endsInLineComment (reversed : List Char) : Bool :=
  "//".toList.isPrefixOf (trimStart (reversed.takeWhile (· ≠ '\n')).reverse)

/-- One step back over a modifier or a line comment, with the blanks behind it. -/
def stepBack? (reversed : List Char) : Option (List Char) :=
  let head := trimStart reversed
  match behindModifier? head with
  | some rest => some rest
  | none => if endsInLineComment head then some (head.dropWhile (· ≠ '\n')) else none

private theorem length_behind {piece cs rest : List Char} (h : behind? piece cs = some rest) :
    cs.length = piece.length + rest.length := by
  fun_induction behind? piece cs with
  | case1 => simp_all
  | case2 => simp at h
  | case3 p ps cs ih => simp [ih h]; omega
  | case4 => simp at h

theorem modifierWords_nonempty : ∀ word ∈ modifierWords, 0 < word.toList.reverse.length := by
  decide

private theorem length_behindModifier {cs rest : List Char} (h : behindModifier? cs = some rest) :
    rest.length < cs.length := by
  obtain ⟨word, hmem, hword⟩ := List.exists_of_findSome?_eq_some h
  have := length_behind (Option.eq_some_of_filter_eq_some hword)
  have := modifierWords_nonempty word hmem
  omega

private theorem length_dropWhile_of_endsInLineComment {cs : List Char} (h : endsInLineComment cs = true) :
    (cs.dropWhile (· ≠ '\n')).length < cs.length := by
  cases cs with
  | nil => exact absurd h (by decide)
  | cons c tail =>
    by_cases hc : c = '\n'
    · subst hc
      simp [endsInLineComment, trimStart] at h
    · have := (List.dropWhile_sublist (· ≠ '\n') (l := tail)).length_le
      rw [List.dropWhile_cons_of_pos (by simpa using hc), List.length_cons]
      omega

theorem length_stepBack {cs rest : List Char} (h : stepBack? cs = some rest) :
    rest.length < cs.length := by
  have htrim : (trimStart cs).length ≤ cs.length := (List.dropWhile_sublist _).length_le
  unfold stepBack? at h
  simp only at h
  cases hm : behindModifier? (trimStart cs) with
  | some found =>
    rw [hm] at h
    obtain rfl : found = rest := by simpa using h
    have := length_behindModifier hm
    omega
  | none =>
    rw [hm] at h
    by_cases hline : endsInLineComment (trimStart cs) = true
    · obtain rfl := by simpa [hline] using h
      have := length_dropWhile_of_endsInLineComment hline
      simp only [ne_eq, decide_not] at this
      omega
    · simp [hline] at h

/-- The reversed text that is left when no step back is possible any more. -/
def settle (reversed : List Char) : List Char :=
  match _h : stepBack? reversed with
  | some rest => settle rest
  | none => trimStart reversed
termination_by reversed.length
decreasing_by exact length_stepBack _h

/-- The comment at the end of a text, from its last opening on; the characters behind the current
place are given. -/
def blockFrom (behind : List Char) : List Char → Option (List Char)
  | '*' :: '/' :: _ => some ('/' :: '*' :: behind)
  | c :: cs => blockFrom (c :: behind) cs
  | [] => none

namespace DocComment

/-- The doc comment that ends where a reversed text begins. -/
def ofReversed? (reversed : List Char) : Option DocComment :=
  match reversed with
  | '/' :: '*' :: _ =>
    match blockFrom [] reversed with
    | some block =>
      if "/**".toList.isPrefixOf block && 5 ≤ byteLength block then some ⟨block⟩ else none
    | none => none
  | _ => none

/-- The doc comment of what starts at a byte position. -/
def preceding? (source : List Char) (position : Nat) : Option DocComment :=
  (takeBytes? position source).bind fun head => ofReversed? (settle head.reverse)

end DocComment

/-! ## Tags -/

/-- `{type}`: the text between the braces, which is not empty. -/
def bracedType : Pattern (List Char) := fun cs => do
  let inner ← behind? ['\x7b'] cs
  let (type, rest) ← run? (· ≠ '\x7d') inner
  let rest ← behind? ['\x7d'] rest
  return (type, rest)

/-- The text behind what has to follow the name of a parameter. -/
def behindNameEnd? : List Char → Option (List Char)
  | [] => some []
  | c :: cs => if isBlank c || c = ']' || c = '=' || c = '*' then some cs else none

structure ParameterTag where
  name : List Char
  type : List Char
deriving DecidableEq, Repr

/-- `@param {type} name`, where the name may stand in brackets and behind dots. -/
def parameterTag : Pattern ParameterTag := fun cs => do
  let rest ← behind? ['@'] cs
  let rest ← ["param", "arg", "argument"].findSome? fun word =>
    (behind? word.toList rest).bind behindBlanks?
  let (type, rest) ← bracedType rest
  let rest ← behindBlanks? rest
  let rest := optionally "...".toList (trimStart (optionally ['['] rest))
  let (name, rest) ← identifier rest
  let rest ← behindNameEnd? rest
  return (⟨name, type⟩, rest)

/-- `@returns {type}`, also without the `s`. -/
def resultTag : Pattern (List Char) := fun cs => do
  let rest ← behind? "@return".toList cs
  let rest ← behindBlanks? (optionally ['s'] rest)
  bracedType rest

/-- A label is not blank. -/
def label? (type : List Char) : Option String :=
  let trimmed := trim type
  if trimmed.isEmpty then none else some (String.ofList trimmed)

/-- A name without the dots in front of it. -/
def withoutDots (name : List Char) : List Char :=
  match name with
  | '.' :: '.' :: '.' :: rest => withoutDots rest
  | _ => name

namespace DocComment

def parameterTags (d : DocComment) : List ParameterTag :=
  (allMatches parameterTag d.text).map Match.value

/-- The type that the first tag for a parameter states. -/
def parameterType? (d : DocComment) (name : String) : Option String :=
  let wanted := withoutDots name.toList
  (d.parameterTags.find? fun tag => tag.name = wanted).bind fun tag => label? tag.type

/-- The type that the first tag for the result states. -/
def resultType? (d : DocComment) : Option String :=
  (firstMatch? resultTag d.text).bind label?

end DocComment

end SpecCoverage.Functions
