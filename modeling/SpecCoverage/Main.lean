import SpecCoverage.Command.Run

/-!
# The command line

The outermost layer: it takes what the arguments name from the disk into a file tree, runs the command on
that tree and prints what comes of it.  Links within a directory are passed over.
-/

namespace SpecCoverage.Command

open SpecCoverage.Configuration Files

/-! ## From the disk into a file tree -/

private def withDirectory (root : Node) (names : List String) : Node :=
  if (follow root [] names).isSome then root else root.insert names (.directory [])

/-- The places along a path, each as the path up to it and the names that lead to it. -/
private def placesAlong (path : String) (names : List String) : List String → List (String × List String)
  | [] => [(path, names)]
  | piece :: rest =>
    if piece = "" || piece = "." then placesAlong path names rest
    else (path, names) ::
      placesAlong (join path piece) (if piece = ".." then names.dropLast else names ++ [piece]) rest

/-- Takes the file at a path into a tree, or the files below the directory at that path. -/
private partial def takeNode (isWanted : String → Bool) (root : Node) (path : String)
    (names : List String) : IO Node := do
  let place := (← IO.currentDir) / path
  if ← place.isDir then
    let mut root := withDirectory root names
    for entry in ← place.readDir do
      let name := entry.fileName
      match (← entry.path.symlinkMetadata).type with
      | .dir =>
        unless isSkippedDirectory name do
          root ← takeNode isWanted root (join path name) (names ++ [name])
      | .file =>
        if isWanted name then
          root := root.insert (names ++ [name]) (.file (← IO.FS.readBinFile entry.path))
      | _ => pure ()
    return root
  else if ← place.pathExists then return root.insert names (.file (← IO.FS.readBinFile place))
  else return root

/-- Takes what a path leads to into a tree, with the directories on the way. -/
private def takePath (isWanted : String → Bool) (tree : FileTree) (path : String) :
    IO FileTree := do
  let (start, names) := if path.toList.head? = some '/' then ("/", []) else (".", tree.workingDirectory)
  let mut root := tree.root
  let mut last := (start, names)
  for place in placesAlong start names ((pieces path.toList).map String.ofList) do
    if ← ((← IO.currentDir) / place.1).isDir then root := withDirectory root place.2
    last := place
  return { tree with root := ← takeNode isWanted root last.1 last.2 }

/-- A file tree with all that a run with the given arguments asks for.  The configuration says which files
of a directory are read. -/
private def takeAll (root : String) (arguments : Arguments) : IO FileTree := do
  let workingDirectory := (components root).map String.ofList
  let empty : FileTree := ⟨withDirectory (.directory []) workingDirectory, workingDirectory⟩
  let carriers := configFileNames ++ packageFileName :: arguments.config.toList
  let configured ← carriers.foldlM (takePath fun _ => false) empty
  match load configured root (arguments.config.map fun path => (path, path)) with
  | .error _ => return configured
  | .ok resolved =>
    (arguments.paths ++ arguments.documents).foldlM (takePath (isSupportedFile resolved.settings)) configured

/-! ## Output -/

private def Message.text : Message → String
  | .own text => text
  | .foreign .input => "the file cannot be read as text"
  | .foreign .json => "the text is not the JSON that is asked for"
  | .foreign .glob => "the pattern is not well formed"

private def printError (error : RunError) : IO Unit := do
  match error.messages.map Message.text with
  | [] => pure ()
  | outermost :: causes =>
    IO.eprintln ("Error: " ++ outermost)
    for cause in causes do IO.eprintln ("  caused by: " ++ cause)

private def usage : String :=
  "Usage: specmap [-v] analyze PATH... [--docs FILE]... [--format text|json] [--config FILE] [--parallel]"

/-- Runs the command in the current directory and gives its exit code. -/
def execute (arguments : List String) : IO UInt32 := do
  let root := (← IO.currentDir).toString
  let tree ← match Arguments.ofList? arguments with
    | some arguments => takeAll root arguments
    | none => pure ⟨.directory [], []⟩
  let outcome := run tree root arguments
  match outcome with
  | .printed output => IO.print output
  | .failed error => printError error
  | .misused => IO.eprintln usage
  return outcome.exitCode.toUInt32

end SpecCoverage.Command

def main (arguments : List String) : IO UInt32 := SpecCoverage.Command.execute arguments
