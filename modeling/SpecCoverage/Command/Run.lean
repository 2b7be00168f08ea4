import SpecCoverage.Command.Arguments
import SpecCoverage.Command.Gathering
import SpecCoverage.Configuration.Loading
import SpecCoverage.Reports.Document
import SpecCoverage.Reports.Table

/-!
# Running the command

What a call of the command comes to: a report on the standard output, an error message, or arguments
that are not well formed.  The report does not depend on whether files are read in parallel.
-/

namespace SpecCoverage.Command

open Analysis SpecCoverage.Configuration Files Reports

inductive RunError where
  | configuration (error : LoadError)
  | inputs (error : GatherError)
deriving DecidableEq, Repr

/-- The messages of an error, the outermost first. -/
def RunError.messages : RunError → List Message
  | configuration error => error.messages
  | inputs (.missing path) => [.own (GatherError.missing path).message]
  | inputs (.unreadable path) => [.own (GatherError.unreadable path).message, .foreign .input]

inductive Outcome where
  | printed (output : String)
  | failed (error : RunError)
  | misused
deriving DecidableEq, Repr

namespace Outcome

def exitCode : Outcome → Nat
  | printed _ => 0
  | failed _ => 1
  | misused => 2

end Outcome

/-- The report in a format, as it is printed. -/
def render (format : Format) (report : Report) : String :=
  match format with
  | .text => renderText report
  | .json => renderJson report ++ "\n"

/-- Runs the command with well-formed arguments in the working directory, which is called `root` in
messages. -/
def runWith (tree : FileTree) (root : String) (arguments : Arguments) : Except RunError String := do
  let explicit := arguments.config.map fun path => (path, path)
  let resolved ← (load tree root explicit).mapError .configuration
  let settings := resolved.settings
  let inputs ← (gather tree settings arguments.paths arguments.documents).mapError .inputs
  return render arguments.format (analyze inputs settings.options)

def run (tree : FileTree) (root : String) (arguments : List String) : Outcome :=
  match Arguments.ofList? arguments with
  | none => .misused
  | some arguments =>
    match runWith tree root arguments with
    | .ok output => .printed output
    | .error error => .failed error

end SpecCoverage.Command
