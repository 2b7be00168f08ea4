import SpecCoverage.Configuration.Settings
import SpecCoverage.Files.Tree

/-!
# Loading a configuration

The configuration of a project is the first there is of a file of its own, under one of two names, and a
section of the package file.  A file of its own that is named explicitly comes before all these.
-/

namespace SpecCoverage.Configuration

open Files Specifications

/-- What a carrier of a configuration can fail at. -/
inductive LoadFailure where
  | unreadable
  | malformed
  | invalid (error : ConfigError)
deriving DecidableEq, Repr

/-- The package file can also fail at the section in it. -/
inductive LoadError where
  | file (path : String) (failure : LoadFailure)
  | package (path : String) (failure : LoadFailure)
  | packageSection (path : String)
  | unresolved (error : ConfigError)
deriving DecidableEq, Repr

/-- Errors that others report, without their text. -/
inductive ForeignError where
  | input
  | json
  | glob
deriving DecidableEq, Repr

/-- One of the messages of an error, the outermost first. -/
inductive Message where
  | own (text : String)
  | foreign (error : ForeignError)
deriving DecidableEq, Repr

def ConfigError.messages : ConfigError → List Message
  | weightTooHigh evidence weight =>
    [.own ("evidence." ++ evidence.name ++ " must be at most " ++ Nat.repr maxConfidence ++ " (got "
      ++ Nat.repr weight ++ ")")]
  | policy error => [.own error.message]
  | emptyExtension => [.own "documentation_extensions must not contain empty entries"]
  | pattern field text => [.own ("invalid " ++ field.name ++ " pattern: " ++ text), .foreign .glob]
  | builtInPattern _ => [.foreign .glob]

def LoadError.messages : LoadError → List Message
  | file path .unreadable => [.own ("failed to read config file: " ++ path), .foreign .input]
  | file path .malformed => [.own ("failed to parse config file: " ++ path), .foreign .json]
  | file path (.invalid e) => .own ("invalid config in: " ++ path) :: e.messages
  | package path .unreadable => [.own ("failed to read " ++ path), .foreign .input]
  | package path .malformed => [.own ("failed to parse " ++ path), .foreign .json]
  | package path (.invalid e) => .own ("invalid specmap config in " ++ path) :: e.messages
  | packageSection path => [.own ("invalid specmap config in " ++ path), .foreign .json]
  | unresolved e => e.messages

def configFileNames : List String := [".specmaprc.json", "specmap.config.json"]

def packageFileName : String := "package.json"

def packageKey : String := "specmap"

/-- A configuration that has been looked at and is valid. -/
def checked (c : Config) (failure : ConfigError → LoadError) : Except LoadError Config :=
  match c.error? with
  | some error => .error (failure error)
  | none => .ok c

/-- The configuration in a file of its own, which is called `shown` in messages. -/
def loadFile (tree : FileTree) (path shown : String) : Except LoadError Config :=
  match tree.text? path with
  | none => .error (.file shown .unreadable)
  | some text =>
    match Config.read? text with
    | none => .error (.file shown .malformed)
    | some c => checked c fun error => .file shown (.invalid error)

/-- The configuration in a package file, if it has one.  Of members with the same name the last one
counts. -/
def loadPackage (tree : FileTree) (path shown : String) : Except LoadError (Option Config) :=
  match tree.text? path with
  | none => .error (.package shown .unreadable)
  | some text =>
    match Json.read? text with
    | none => .error (.package shown .malformed)
    | some value =>
      match (Json.collapsed value).member? packageKey with
      | none => .ok none
      | some configured =>
        match Config.ofJson? configured with
        | none => .error (.packageSection shown)
        | some c => (checked c fun error => .package shown (.invalid error)).map some

/-- A configuration and the name of its carrier. -/
structure Loaded where
  config : Config
  path : Option String

/-- The configuration of the project in the working directory, which is called `root` in messages. -/
def discover (tree : FileTree) (root : String) : Except LoadError Loaded :=
  match configFileNames.find? fun name => (tree.find? name).isSome with
  | some name => do return ⟨← loadFile tree name (join root name), some (join root name)⟩
  | none =>
    if (tree.find? packageFileName).isSome then do
      let path := join root packageFileName
      match ← loadPackage tree packageFileName path with
      | some c => return ⟨c, some path⟩
      | none => return ⟨{}, none⟩
    else .ok ⟨{}, none⟩

/-- The settings of a project, and the path of the file they come from if there is one. -/
structure ResolvedSettings where
  settings : Settings
  path : Option String

/-- An explicit configuration file is given by its path and by what it is called in messages. -/
def load (tree : FileTree) (root : String) (explicit : Option (String × String)) :
    Except LoadError ResolvedSettings := do
  let found ← match explicit with
    | some (path, shown) => do pure (⟨← loadFile tree path shown, some shown⟩ : Loaded)
    | none => discover tree root
  match found.config.resolve with
  | .ok settings => return ⟨settings, found.path⟩
  | .error error => throw (.unresolved error)

end SpecCoverage.Configuration
