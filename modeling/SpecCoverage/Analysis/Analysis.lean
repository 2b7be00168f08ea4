import SpecCoverage.Program.Reader
import SpecCoverage.Reports.Report
import SpecCoverage.Specifications.Matching

/-!
# Analysis

An analysis takes source files and documents.  The functions of the source files and the specifications
of the documents are listed in the order of the inputs; the specifications are matched with the
functions, and the functions that one is mapped to are marked.  A source file that is no program is
passed over and named.  `analyzeWith` takes the reader of source files as an argument; `analyze` uses
`readFunctions`.
-/

namespace SpecCoverage.Analysis

open Functions Reports Source Specifications

structure Input where
  fileName : String
  content : String
  isDocumentation : Bool
deriving DecidableEq, Repr

/-- An input whose role follows from the extension of its file. -/
def Input.classify (fileName content : String) (documentationExtensions : List String) : Input :=
  ⟨fileName, content, isDocumentationFile fileName documentationExtensions⟩

structure Options where
  weights : Weights := {}
  policy : Policy := {}
deriving DecidableEq, Repr

/-- Reads the functions of a source file, or says that it is no program. -/
abbrev FunctionReader := Input → Option (List Function)

/-- The functions of a file in the given dialect, or the place where the file stops being a program. -/
def functionsIn (dialect : Dialect) (fileName : String) (source : List Char) :
    Except Program.Failure (List Function) :=
  (Program.readProgram dialect (withoutMark source)).map fun tree => discover tree source fileName

/-- The reader that goes by the name of the file. -/
def readFunctions : FunctionReader := fun input =>
  (functionsIn (Dialect.ofFile input.fileName) input.fileName input.content.toList).toOption

/-! ## Parts -/

def sources (inputs : List Input) : List Input := inputs.filter fun input => !input.isDocumentation

def documents (inputs : List Input) : List Input := inputs.filter fun input => input.isDocumentation

/-- A source file with its functions, if it is a program. -/
structure ReadSource where
  fileName : String
  functions : Option (List Function)

def readSources (reader : FunctionReader) (inputs : List Input) : List ReadSource :=
  (sources inputs).map fun input => ⟨input.fileName, reader input⟩

def entriesOf (read : List ReadSource) : List FunctionEntry :=
  read.flatMap fun source => (source.functions.getD []).map FunctionEntry.ofFunction

def skippedOf (read : List ReadSource) : List String :=
  (read.filter fun source => source.functions.isNone).map ReadSource.fileName

def extractedSpecifications (weights : Weights) (inputs : List Input) : List Specification :=
  (documents inputs).flatMap fun input => extract input.content weights

/-- Marks the functions that some specification is mapped to. -/
def marked (specifications : List Specification) (entries : List FunctionEntry) :
    List FunctionEntry :=
  let targets := specifications.filterMap Specification.function
  entries.map fun entry => { entry with hasSpecification := targets.contains entry.name }

/-! ## The whole -/

def analyzeWith (reader : FunctionReader) (inputs : List Input) (options : Options) : Report :=
  let read := readSources reader inputs
  let entries := entriesOf read
  let specifications := matchAll (extractedSpecifications options.weights inputs)
    (entries.map FunctionEntry.name) options.policy
  let functions := marked specifications entries
  { functions
    specifications
    coverage := Coverage.ofEntries functions
    skippedFiles := skippedOf read }

def analyze (inputs : List Input) (options : Options) : Report :=
  analyzeWith readFunctions inputs options

end SpecCoverage.Analysis
