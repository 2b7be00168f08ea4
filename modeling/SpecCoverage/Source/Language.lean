import SpecCoverage.Files.Path

/-!
# Languages

A file is read in the language that its extension names.  `Dialect` is what the reader of programs has
to know of it: whether types and elements are written in it, whether it is a module or a classic script,
and whether it only declares.
-/

namespace SpecCoverage.Source

open Files

inductive Language where
  | typescript
  | typescriptReact
  | javascript
  | javascriptReact
deriving DecidableEq, Repr

namespace Language

def ofExtension? (extension : String) : Option Language :=
  if extension ∈ ["ts", "mts", "cts"] then some typescript
  else if extension ∈ ["tsx", "mtsx", "ctsx"] then some typescriptReact
  else if extension ∈ ["js", "mjs", "cjs"] then some javascript
  else if extension ∈ ["jsx", "mjsx", "cjsx"] then some javascriptReact
  else none

def ofPath? (path : String) : Option Language :=
  (extension? path).bind fun extension => ofExtension? (String.ofList extension)

def isTyped : Language → Bool
  | typescript | typescriptReact => true
  | _ => false

def hasElements : Language → Bool
  | typescriptReact | javascriptReact => true
  | _ => false

end Language

/-- The end of the name of a file that holds declarations only. -/
private def declarationEnding : List Char := ".d.ts".toList

def isDeclarationFile (path : String) : Bool := declarationEnding.isSuffixOf path.toList

def isSourceFile (path : String) : Bool :=
  !isDeclarationFile path && (Language.ofPath? path).isSome

private def sameAscii (a b : List Char) : Bool := a.map Char.toLower = b.map Char.toLower

/-- The letters of an extension may be of either case. -/
def isDocumentationFile (path : String) (extensions : List String) : Bool :=
  match extension? path with
  | some extension => extensions.any fun accepted => sameAscii accepted.toList extension
  | none => false

def defaultDocumentationExtensions : List String := ["md", "markdown", "txt"]

inductive Goal where
  | module
  | script
deriving DecidableEq, Repr

structure Dialect where
  typescript : Bool := false
  jsx : Bool := false
  declaration : Bool := false
  goal : Goal := .module
deriving DecidableEq, Repr

/-- A file of an unknown extension is read as a plain module. -/
def Dialect.ofFile (path : String) : Dialect :=
  let language := Language.ofPath? path
  { typescript := language.any Language.isTyped
    jsx := language.any Language.hasElements
    declaration := isDeclarationFile path
    goal := if ".cjs".toList.isSuffixOf path.toList then .script else .module }

end SpecCoverage.Source
