import SpecCoverage.Reports.Report
import SpecCoverage.Text.Decimal

/-!
# Reports as tables

The report for people: a table of functions, a table of specifications if there are any, the coverage,
and the files that were left out if there are any.
-/

namespace SpecCoverage.Reports

open Functions Specifications

/-- A text filled up with blanks to a width. -/
def padded (width : Nat) (s : String) : String :=
  s ++ String.ofList (List.replicate (width - s.toList.length) ' ')

/-- A text of exactly some width: cut with three dots at its end, or filled up with blanks. -/
def fitted (width : Nat) (s : String) : String :=
  if width < s.toList.length then String.ofList (s.toList.take (width - 3)) ++ "..."
  else padded width s

/-- The columns of a row, each but the last one filled up to its width. -/
def row (columns : List (Nat × String)) (last : String) : String :=
  String.join (columns.map fun (width, s) => padded width s ++ " ") ++ last

def parameterText (p : Parameter) : String :=
  match p.type with
  | some type => p.name ++ ": " ++ type
  | none => p.name

def signature (f : FunctionEntry) : String :=
  let parameters := "(" ++ ", ".intercalate (f.parameters.map parameterText) ++ ")"
  match f.result with
  | some result => parameters ++ " -> " ++ result
  | none => parameters

def functionRow (file line name complexity hasSpecification signature : String) : String :=
  row [(20, file), (6, line), (30, name), (4, complexity), (5, hasSpecification)] signature

def functionHeader : String := functionRow "FILE" "LINE" "FUNCTION" "CC" "SPEC" "SIGNATURE"

def functionLine (f : FunctionEntry) : String :=
  functionRow (fitted 20 f.fileName) (Nat.repr f.line) (fitted 30 f.name) (Nat.repr f.complexity)
    (if f.hasSpecification then "yes" else "-") (signature f)

def specificationRow (function confidence evidence description : String) : String :=
  row [(30, function), (5, confidence), (16, evidence)] description

def specificationHeader : String := specificationRow "MAPPED" "CONF" "EVIDENCE" "DESCRIPTION"

def specificationLine (s : Specification) : String :=
  specificationRow (fitted 30 (s.function.getD "-")) ((s.confidence.map Nat.repr).getD "-")
    ((s.evidence.map Evidence.name).getD "-") s.description

def coverageLine (c : Coverage) : String :=
  "Coverage: " ++ Nat.repr c.matched ++ "/" ++ Nat.repr c.total ++ " functions have a specification ("
    ++ Text.withOnePlace c.percent ++ "%)"

def skippedLine (files : List String) : String :=
  "Skipped " ++ Nat.repr files.length ++ " file(s) that failed to parse: " ++ ", ".intercalate files

/-- The lines of a report. -/
def tableLines (r : Report) : List String :=
  functionHeader :: r.functions.map functionLine
    ++ (if r.specifications.isEmpty then []
      else "" :: specificationHeader :: r.specifications.map specificationLine)
    ++ ["", coverageLine r.coverage]
    ++ (if r.skippedFiles.isEmpty then [] else [skippedLine r.skippedFiles])

/-- The report as text, each line ended by a line feed. -/
def renderText (r : Report) : String := String.join ((tableLines r).map fun line => line ++ "\n")

end SpecCoverage.Reports
