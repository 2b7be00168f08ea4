import SpecCoverage.Json.Printer
import SpecCoverage.Json.Reader
import SpecCoverage.Reports.Report

/-!
# Reports as JSON

`toJson` and `ofJson?` turn a report into a JSON value and back.  What is absent is left out, and members
that a report does not have are passed over when one is read.
-/

namespace SpecCoverage.Reports

open Functions Json Specifications

/-! ## Writing -/

def parameterToJson (p : Parameter) : Value :=
  .record [("name", some (.string p.name)), ("type", p.type.map .string)]

def entryToJson (f : FunctionEntry) : Value :=
  .record
    [("name", some (.string f.name)),
     ("params", some (.array (f.parameters.map parameterToJson))),
     ("returnType", f.result.map .string),
     ("fileName", some (.string f.fileName)),
     ("code", some (.string f.code)),
     ("complexity", some (.natural f.complexity)),
     ("line", some (.natural f.line)),
     ("hasSpec", some (.bool f.hasSpecification))]

def specificationToJson (s : Specification) : Value :=
  .record
    [("description", some (.string s.description)),
     ("mappedFunction", s.function.map .string),
     ("confidence", s.confidence.map .natural),
     ("evidence", s.evidence.map fun e => .string e.name)]

def coverageToJson (c : Coverage) : Value :=
  .record [("matchedCount", some (.natural c.matched)), ("totalFunctions", some (.natural c.total))]

def toJson (r : Report) : Value :=
  .record
    [("functions", some (.array (r.functions.map entryToJson))),
     ("specifications", some (.array (r.specifications.map specificationToJson))),
     ("coverage", some (coverageToJson r.coverage)),
     ("skippedFiles", some (.array (r.skippedFiles.map .string)))]

def renderJson (r : Report) : String := pretty (toJson r)

/-! ## Reading -/

def parameterOfJson? (value : Value) : Option Parameter := do
  match ← value.fields? ["name", "type"] with
  | [name, type] =>
    return { name := ← Value.string? (← name)
             type := ← Value.optional? Value.string? type }
  | _ => none

def entryOfJson? (value : Value) : Option FunctionEntry := do
  match ← value.fields? ["name", "params", "returnType", "fileName", "code", "complexity", "line", "hasSpec"]
    with
  | [name, parameters, result, fileName, code, complexity, line, hasSpecification] =>
    return { name := ← Value.string? (← name)
             parameters := ← Value.arrayOf? parameterOfJson? (← parameters)
             result := ← Value.optional? Value.string? result
             fileName := ← Value.string? (← fileName)
             code := ← Value.string? (← code)
             complexity := ← Value.below? UInt32.size (← complexity)
             line := ← Value.below? UInt32.size (← line)
             hasSpecification := ← Value.bool? (hasSpecification.getD (.bool false)) }
  | _ => none

/-- A kind of evidence is a name, or an object whose only member has this name and is null. -/
def evidenceOfJson? : Value → Option Evidence
  | .string name => Evidence.ofName? name
  | .object [(name, .null)] => Evidence.ofName? name
  | _ => none

def specificationOfJson? (value : Value) : Option Specification := do
  match ← value.fields? ["description", "mappedFunction", "confidence", "evidence"] with
  | [description, function, confidence, evidence] =>
    return { description := ← Value.string? (← description)
             function := ← Value.optional? Value.string? function
             confidence := ← Value.optional? (Value.below? UInt8.size) confidence
             evidence := ← Value.optional? evidenceOfJson? evidence }
  | _ => none

def coverageOfJson? (value : Value) : Option Coverage := do
  match ← value.fields? ["matchedCount", "totalFunctions"] with
  | [matched, total] =>
    return { matched := ← Value.below? UInt64.size (← matched)
             total := ← Value.below? UInt64.size (← total) }
  | _ => none

def ofJson? (value : Value) : Option Report := do
  match ← value.fields? ["functions", "specifications", "coverage", "skippedFiles"] with
  | [functions, specifications, coverage, skippedFiles] =>
    return { functions := ← Value.arrayOf? entryOfJson? (← functions)
             specifications := ← Value.arrayOf? specificationOfJson? (← specifications)
             coverage := ← coverageOfJson? (← coverage)
             skippedFiles := ← Value.arrayOf? Value.string? (skippedFiles.getD (.array [])) }
  | _ => none

/-- Reads a report back from its JSON text. -/
def readJson? (text : String) : Option Report := (read? text).bind ofJson?

end SpecCoverage.Reports
