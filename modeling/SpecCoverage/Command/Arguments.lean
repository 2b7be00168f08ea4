/-!
# Arguments of the command

`specmap [-v] analyze PATH... [--docs FILE]... [--format text|json] [--config FILE] [--parallel]`.
Options may stand among the paths; behind `--` everything is a path.  An option that is not `--docs` may
be given once only, except that `-v` may stand before and behind `analyze`.
-/

namespace SpecCoverage.Command

inductive Format where
  | text
  | json
deriving DecidableEq, Repr

structure Arguments where
  paths : List String := []
  documents : List String := []
  format : Format := .text
  config : Option String := none
  parallel : Bool := false
  verbose : Bool := false
deriving DecidableEq, Repr

/-- Arguments as they are read: an option is not set before it is met. -/
structure PartialArguments where
  paths : List String := []
  documents : List String := []
  format : Option Format := none
  config : Option String := none
  parallel : Bool := false
  verbose : Bool := false

namespace PartialArguments

private def formatOf? (name : String) : Option Format :=
  if name = "text" then some .text else if name = "json" then some .json else none

def addPath (a : PartialArguments) (path : String) : Option PartialArguments :=
  if path = "" then none else some { a with paths := a.paths ++ [path] }

/-- Sets an option that takes a value. -/
def setValue (a : PartialArguments) (option value : String) : Option PartialArguments :=
  if option = "--docs" then
    if value = "" then none else some { a with documents := a.documents ++ [value] }
  else if option = "--format" then
    if a.format.isSome then none
    else (formatOf? value).map fun format => { a with format := some format }
  else if option = "--config" then
    if value = "" || a.config.isSome then none else some { a with config := some value }
  else none

/-- Sets an option that takes no value. -/
def setFlag (a : PartialArguments) (option : String) : Option PartialArguments :=
  if option = "--parallel" then if a.parallel then none else some { a with parallel := true }
  else if option = "--verbose" || option = "-v" then
    if a.verbose then none else some { a with verbose := true }
  else none

def takesValue (option : String) : Bool :=
  option = "--docs" || option = "--format" || option = "--config"

def complete (a : PartialArguments) : Option Arguments :=
  if a.paths.isEmpty then none
  else some
    { paths := a.paths
      documents := a.documents
      format := a.format.getD .text
      config := a.config
      parallel := a.parallel
      verbose := a.verbose }

end PartialArguments

/-- Whether an argument is an option; a single hyphen is a path. -/
def isOption (argument : String) : Bool :=
  argument.toList.head? = some '-' && argument ≠ "-"

/-- An option that is written together with its value. -/
private def splitOption? (argument : String) : Option (String × String) :=
  let name := argument.toList.takeWhile (· ≠ '=')
  match argument.toList.dropWhile (· ≠ '=') with
  | _ :: value => some (String.ofList name, String.ofList value)
  | [] => none

/-- Reads the arguments behind `analyze`. -/
def readOptions (a : PartialArguments) : List String → Option PartialArguments
  | [] => some a
  | "--" :: rest => rest.foldlM PartialArguments.addPath a
  | [argument] =>
    if !isOption argument then a.addPath argument
    else match splitOption? argument with
      | some (option, value) => a.setValue option value
      | none => a.setFlag argument
  | argument :: next :: rest =>
    if !isOption argument then do readOptions (← a.addPath argument) (next :: rest)
    else match splitOption? argument with
      | some (option, value) => do readOptions (← a.setValue option value) (next :: rest)
      | none =>
        if PartialArguments.takesValue argument then
          if isOption next then none else do readOptions (← a.setValue argument next) rest
        else do readOptions (← a.setFlag argument) (next :: rest)

/-- Reads the arguments in front of `analyze`. -/
private def readFront (verbose : Bool) : List String → Option PartialArguments
  | [] => none
  | argument :: rest =>
    if argument = "analyze" then
      (readOptions {} rest).map fun a => { a with verbose := a.verbose || verbose }
    else if (argument = "-v" || argument = "--verbose") && !verbose then readFront true rest
    else none

/-- The arguments of a call of the command, if they are well formed. -/
def Arguments.ofList? (arguments : List String) : Option Arguments :=
  (readFront false arguments).bind PartialArguments.complete

end SpecCoverage.Command
