import SpecCoverage.Files.Glob

/-!
# Globs and paths that begin with a dot

A glob is compared with the text of a path as it stands, so it may tell `./src/a.js` from `src/a.js`.  One that begins
with `**/` can pass over the `./`; whether it covers a path with `./` in front then depends on what follows the `**/`
(`covers_current_of_leadingDirectories`).  A name that begins with no dot cannot stand at the `./` itself
(`ignoresCurrent_of_name`), and neither can any name with a given extension (`ignoresCurrent_of_extension`).
-/

namespace SpecCoverage.Files

/-- The glob makes no difference between a path and the path with `./` in front. -/
def Glob.IgnoresCurrent (g : Glob) : Prop := ∀ path, g.covers ("./" ++ path) = g.covers path

/-! ## Bytes of paths -/

private theorem toList_loop (bytes : ByteArray) (i : Nat) (before : List UInt8) :
    ByteArray.toList.loop bytes i before = before.reverse ++ bytes.data.toList.drop i := by
  fun_induction ByteArray.toList.loop bytes i before with
  | case1 i before h ih =>
    have hi : i < bytes.data.toList.length := by simpa using h
    rw [ih, List.drop_eq_getElem_cons hi]
    simp [ByteArray.get!, h]
  | case2 i before h =>
    have hi : bytes.data.toList.length ≤ i := by simpa using h
    rw [List.drop_eq_nil_of_le hi, List.append_nil]

private theorem toList_eq_data (bytes : ByteArray) : bytes.toList = bytes.data.toList := by
  rw [ByteArray.toList, toList_loop, List.drop_zero, List.reverse_nil, List.nil_append]

private theorem toList_toUTF8_current (path : String) :
    ("./" ++ path).toUTF8.toList = 0x2E :: slash :: path.toUTF8.toList := by
  rw [toList_eq_data, toList_eq_data, String.toUTF8_eq_toByteArray, String.toByteArray_append,
    ByteArray.toList_data_append]
  rfl

/-! ## Tokens -/

variable {follows : List UInt8 → Bool}

private theorem tokensCover_literal_of_ne {c : Char} {first byte : UInt8} {rest : List UInt8}
    (hc : String.utf8EncodeChar c = first :: rest) (ne : first ≠ byte) (tokens : List GlobToken) (bytes : List UInt8) :
    tokensCover (.literal c :: tokens) follows (byte :: bytes) = false := by
  rw [tokensCover, tokenCovers, hc, behindBytes?, if_neg ne]
  rfl

private theorem covers_leadingDirectories (token : GlobToken) (tokens : List GlobToken) (path : String) :
    (⟨.leadingDirectories :: token :: tokens⟩ : Glob).covers path
      = (tokensCover (token :: tokens) List.isEmpty path.toUTF8.toList
          || anyBehindSlash (tokensCover (token :: tokens) List.isEmpty) path.toUTF8.toList) := by
  show tokensCover (.leadingDirectories :: token :: tokens) List.isEmpty path.toUTF8.toList = _
  rw [tokensCover, tokenCovers]

/-- Behind `**/` the rest of a glob can begin at the `./` or in the path. -/
theorem covers_current_of_leadingDirectories (token : GlobToken) (tokens : List GlobToken) (path : String) :
    (⟨.leadingDirectories :: token :: tokens⟩ : Glob).covers ("./" ++ path)
      = (tokensCover (token :: tokens) List.isEmpty (0x2E :: slash :: path.toUTF8.toList)
          || (⟨.leadingDirectories :: token :: tokens⟩ : Glob).covers path) := by
  have notSlash : decide ((0x2E : UInt8) = slash) = false := by decide
  have atSlash : decide (slash = slash) = true := by decide
  rw [covers_leadingDirectories, covers_leadingDirectories, toList_toUTF8_current, anyBehindSlash, notSlash,
    anyBehindSlash, atSlash, Bool.false_and, Bool.false_or, Bool.true_and]

/-- A name that begins with no dot does not begin at the `./`. -/
theorem ignoresCurrent_of_name {c : Char} {first : UInt8} {rest : List UInt8}
    (hc : String.utf8EncodeChar c = first :: rest) (ne : first ≠ 0x2E) (tokens : List GlobToken) :
    Glob.IgnoresCurrent ⟨.leadingDirectories :: .literal c :: tokens⟩ := by
  intro path
  rw [covers_current_of_leadingDirectories, tokensCover_literal_of_ne hc ne, Bool.false_or]

/-- A file name with an extension does not end within the `./`. -/
theorem ignoresCurrent_of_extension {c : Char} {first : UInt8} {rest : List UInt8}
    (hc : String.utf8EncodeChar c = first :: rest) (ne : first ≠ slash) (tokens : List GlobToken) :
    Glob.IgnoresCurrent ⟨.leadingDirectories :: .anyText :: .literal '.' :: .literal c :: tokens⟩ := by
  intro path
  have hdot : String.utf8EncodeChar '.' = [0x2E] := by decide
  have atDot : tokensCover (.literal '.' :: .literal c :: tokens) List.isEmpty (0x2E :: slash :: path.toUTF8.toList)
      = false := by
    rw [tokensCover, tokenCovers, hdot]
    show tokensCover (.literal c :: tokens) List.isEmpty (slash :: path.toUTF8.toList) = false
    exact tokensCover_literal_of_ne hc ne tokens _
  have atSlash : tokensCover (.literal '.' :: .literal c :: tokens) List.isEmpty (slash :: path.toUTF8.toList)
      = false := tokensCover_literal_of_ne hdot (by decide) _ _
  have inPath : tokensCover (.anyText :: .literal '.' :: .literal c :: tokens) List.isEmpty
      (0x2E :: slash :: path.toUTF8.toList)
        = tokensCover (.anyText :: .literal '.' :: .literal c :: tokens) List.isEmpty path.toUTF8.toList := by
    rw [tokensCover, tokenCovers, anyTail, anyTail, atDot, atSlash, Bool.false_or, Bool.false_or, tokensCover,
      tokenCovers]
  rw [covers_current_of_leadingDirectories, inPath, covers_leadingDirectories, ← Bool.or_assoc, Bool.or_self]

end SpecCoverage.Files
