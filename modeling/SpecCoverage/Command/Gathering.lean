import SpecCoverage.Analysis.Analysis
import SpecCoverage.Configuration.Settings
import SpecCoverage.Files.Tree
import SpecCoverage.Sorting

/-!
# Gathering the inputs

A path that is given is a file, which is taken as it is, or a directory, from which all files are taken
that are source files or documents by their name and that the settings cover; directories of tools and
hidden ones are passed over.  The files of one directory are put in the order of the components of their
paths.  Files that are not UTF-8 are left out, and a document that is named explicitly is left out if it
has been taken already.
-/

namespace SpecCoverage.Command

open Analysis SpecCoverage.Configuration Files Sorting Source

/-! ## The files below a directory -/

/-- A file with the path by which it was found. -/
structure FoundFile where
  path : String
  /-- The names that lead to the file from the root. -/
  names : List String
  content : ByteArray

/-- Whether a directory within a walked one is passed over. -/
def isSkippedDirectory (name : String) : Bool :=
  name.toList.head? = some '.' || name = "node_modules" || name = "coverage" || name = "target"

def isSupportedFile (settings : Settings) (name : String) : Bool :=
  isSourceFile name || isDocumentationFile name settings.documentationExtensions

mutual

/-- The files that a node within a walked directory stands for. -/
def filesOfNode (settings : Settings) (path : String) (names : List String) (name : String) :
    Node → List FoundFile
  | .file content =>
    if isSupportedFile settings name && settings.covers path then [⟨path, names, content⟩] else []
  | .directory entries =>
    if isSkippedDirectory name then [] else filesBelow settings path names entries

def filesOfEntry (settings : Settings) (path : String) (names : List String) :
    String × Node → List FoundFile
  | (name, node) => filesOfNode settings (join path name) (names ++ [name]) name node

/-- The files of the entries of a directory and of the directories within it. -/
def filesBelow (settings : Settings) (path : String) (names : List String) :
    List (String × Node) → List FoundFile
  | [] => []
  | entry :: rest => filesOfEntry settings path names entry ++ filesBelow settings path names rest

end

/-- Whether the first of two lists of components does not come after the second. -/
def isOrdered : List (List Char) → List (List Char) → Bool
  | [], _ => true
  | _ :: _, [] => false
  | a :: as, b :: bs => a < b || (a = b && isOrdered as bs)

/-- The files that a node stands for, in the order of their paths. -/
def collect (settings : Settings) (path : String) (place : Located) : List FoundFile :=
  match place.node with
  | .file content => [⟨path, place.names, content⟩]
  | .directory entries =>
    sorted (fun a b => isOrdered (components a.path) (components b.path))
      (filesBelow settings path place.names entries)

/-! ## Inputs -/

inductive GatherError where
  | missing (path : String)
  | unreadable (path : String)
deriving DecidableEq, Repr

def GatherError.message : GatherError → String
  | missing path => "Path does not exist: " ++ path
  | unreadable path => "Failed to read file: " ++ path

/-- Inputs gathered so far, and the documents among them by the names that lead to them. -/
structure Gathered where
  inputs : List Input := []
  seen : List (List String) := []

namespace Gathered

/-- Takes a file of a walked directory or one that was given by itself. -/
def addFile (settings : Settings) (g : Gathered) (file : FoundFile) : Gathered :=
  match String.fromUTF8? file.content with
  | none => g
  | some content =>
    let input := Input.classify file.path content settings.documentationExtensions
    { inputs := g.inputs ++ [input]
      seen := if input.isDocumentation then file.names :: g.seen else g.seen }

/-- Takes what a path stands for. -/
def addPath (tree : FileTree) (settings : Settings) (g : Gathered) (path : String) :
    Except GatherError Gathered :=
  match tree.find? path with
  | none => .error (.missing path)
  | some place => .ok ((collect settings path place).foldl (addFile settings) g)

/-- Takes a document that is named explicitly. -/
def addDocument (tree : FileTree) (g : Gathered) (path : String) : Except GatherError Gathered :=
  match tree.find? path with
  | none => .error (.unreadable path)
  | some ⟨names, node⟩ =>
    if g.seen.contains names then .ok g
    else match node with
      | .directory _ => .error (.unreadable path)
      | .file bytes =>
        let seen := names :: g.seen
        match String.fromUTF8? bytes with
        | none => .ok { g with seen }
        | some content => .ok { inputs := g.inputs ++ [⟨path, content, true⟩], seen }

end Gathered

/-- The inputs that the given paths and documents stand for. -/
def gather (tree : FileTree) (settings : Settings) (paths documents : List String) :
    Except GatherError (List Input) := do
  let walked ← paths.foldlM (Gathered.addPath tree settings) {}
  let gathered ← documents.foldlM (Gathered.addDocument tree) walked
  return gathered.inputs

end SpecCoverage.Command
