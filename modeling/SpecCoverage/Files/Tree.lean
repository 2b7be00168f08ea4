import SpecCoverage.Files.Path

/-!
# File trees

A node is a file with its bytes or a directory with named entries.  `FileTree.find?` follows a path from
the working directory, through `.` and `..` as well, and gives the node together with the names that lead
to it from the root; two paths lead to the same node when these names are the same.
-/

namespace SpecCoverage.Files

inductive Node where
  | file (content : ByteArray)
  | directory (entries : List (String × Node))
deriving Inhabited

namespace Node

def isDirectory : Node → Bool
  | directory _ => true
  | file _ => false

def entry? (name : String) : Node → Option Node
  | directory entries => (entries.find? fun entry => entry.1 = name).map Prod.snd
  | file _ => none

/-- A directory with another node at the place where the names lead; what is on the way is made a
directory. -/
def insert : Node → List String → Node → Node
  | _, [], node => node
  | parent, name :: names, node =>
    let inner := insert ((parent.entry? name).getD (directory [])) names node
    match parent with
    | directory entries => directory (entries.filter (fun entry => entry.1 ≠ name) ++ [(name, inner)])
    | file _ => directory [(name, inner)]

end Node

structure FileTree where
  root : Node
  /-- The names that lead from the root to the working directory. -/
  workingDirectory : List String := []

/-- A node with the names that lead to it from the root. -/
structure Located where
  names : List String
  node : Node

/-- The directories on the way to a place, the innermost first, each with its name. -/
abbrev Trail := List (String × Node)

def locate (root : Node) (trail : Trail) : Located :=
  ⟨(trail.map Prod.fst).reverse, (trail.head?.map Prod.snd).getD root⟩

/-- Follows the pieces of a path.  A piece can only be followed from a directory. -/
def follow (root : Node) : Trail → List String → Option Trail
  | trail, [] => some trail
  | trail, piece :: pieces =>
    let node := (locate root trail).node
    if !node.isDirectory then none
    else if piece = "" || piece = "." then follow root trail pieces
    else if piece = ".." then follow root trail.tail pieces
    else match node.entry? piece with
      | some next => follow root ((piece, next) :: trail) pieces
      | none => none

namespace FileTree

/-- The node that a path leads to, if it leads to one.  The empty path leads nowhere. -/
def find? (tree : FileTree) (path : String) : Option Located :=
  let pieces := (pieces path.toList).map String.ofList
  if path = "" then none
  else do
    let start ← if path.toList.head? = some '/' then some [] else follow tree.root [] tree.workingDirectory
    return locate tree.root (← follow tree.root start pieces)

/-- The bytes of the file that a path leads to. -/
def bytes? (tree : FileTree) (path : String) : Option ByteArray :=
  match tree.find? path with
  | some ⟨_, .file content⟩ => some content
  | _ => none

/-- The text of the file that a path leads to, if it is UTF-8. -/
def text? (tree : FileTree) (path : String) : Option String :=
  (tree.bytes? path).bind String.fromUTF8?

end FileTree

/-- The path of an entry of a directory. -/
def join (directory name : String) : String :=
  if directory.toList.getLast? = some '/' then directory ++ name else directory ++ "/" ++ name

end SpecCoverage.Files
