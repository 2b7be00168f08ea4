import SpecCoverage.Analysis.Analysis
import SpecCoverage.Command.Arguments
import SpecCoverage.Command.Gathering
import SpecCoverage.Command.Run
import SpecCoverage.Configuration.Config
import SpecCoverage.Configuration.Loading
import SpecCoverage.Configuration.Settings
import SpecCoverage.Documents.Block
import SpecCoverage.Documents.Fence
import SpecCoverage.Files.Glob
import SpecCoverage.Files.Path
import SpecCoverage.Files.Tree
import SpecCoverage.Functions.Complexity
import SpecCoverage.Functions.Discovery
import SpecCoverage.Functions.DocComment
import SpecCoverage.Functions.Label
import SpecCoverage.Json.Printer
import SpecCoverage.Json.Reader
import SpecCoverage.Json.Value
import SpecCoverage.Main
import SpecCoverage.Program.ClassBody
import SpecCoverage.Program.Declaration
import SpecCoverage.Program.Element
import SpecCoverage.Program.Expression
import SpecCoverage.Program.Function
import SpecCoverage.Program.Grammar
import SpecCoverage.Program.Lexer
import SpecCoverage.Program.Module
import SpecCoverage.Program.Pattern
import SpecCoverage.Program.Reader
import SpecCoverage.Program.Statement
import SpecCoverage.Program.Token
import SpecCoverage.Program.Tree
import SpecCoverage.Program.Type
import SpecCoverage.Proofs.Analysis.Code
import SpecCoverage.Proofs.Analysis.Comments
import SpecCoverage.Proofs.Analysis.Consistency
import SpecCoverage.Proofs.Analysis.Inputs
import SpecCoverage.Proofs.Analysis.Table
import SpecCoverage.Proofs.Command.Collected
import SpecCoverage.Proofs.Command.Repetition
import SpecCoverage.Proofs.Command.Walk
import SpecCoverage.Proofs.Configuration.Carriers
import SpecCoverage.Proofs.Configuration.Resolution
import SpecCoverage.Proofs.Configuration.Written
import SpecCoverage.Proofs.Documents.Block
import SpecCoverage.Proofs.Documents.Fence
import SpecCoverage.Proofs.Documents.LineEnding
import SpecCoverage.Proofs.Except
import SpecCoverage.Proofs.Files.Glob
import SpecCoverage.Proofs.Files.Path
import SpecCoverage.Proofs.Files.Reordering
import SpecCoverage.Proofs.Files.Trail
import SpecCoverage.Proofs.Files.Tree
import SpecCoverage.Proofs.Functions.Complexity
import SpecCoverage.Proofs.Functions.DocComment
import SpecCoverage.Proofs.Functions.Layout
import SpecCoverage.Proofs.Functions.Nesting
import SpecCoverage.Proofs.Functions.Occurrences
import SpecCoverage.Proofs.Functions.Passage
import SpecCoverage.Proofs.Functions.Returns
import SpecCoverage.Proofs.Functions.Skipping
import SpecCoverage.Proofs.Functions.TagLines
import SpecCoverage.Proofs.Functions.TagTypes
import SpecCoverage.Proofs.Functions.Tags
import SpecCoverage.Proofs.Json.Grammar
import SpecCoverage.Proofs.Json.Printing
import SpecCoverage.Proofs.Json.Reading
import SpecCoverage.Proofs.Json.Record
import SpecCoverage.Proofs.Json.Scalar
import SpecCoverage.Proofs.Program.ClassBody
import SpecCoverage.Proofs.Program.Declaration
import SpecCoverage.Proofs.Program.Element
import SpecCoverage.Proofs.Program.Expression
import SpecCoverage.Proofs.Program.Function
import SpecCoverage.Proofs.Program.Keeps
import SpecCoverage.Proofs.Program.Lexer
import SpecCoverage.Proofs.Program.Module
import SpecCoverage.Proofs.Program.Pattern
import SpecCoverage.Proofs.Program.Places
import SpecCoverage.Proofs.Program.Reader
import SpecCoverage.Proofs.Program.Runs
import SpecCoverage.Proofs.Program.State
import SpecCoverage.Proofs.Program.Statement
import SpecCoverage.Proofs.Program.Type
import SpecCoverage.Proofs.Program.Written
import SpecCoverage.Proofs.Reports.Document
import SpecCoverage.Proofs.Reports.Table
import SpecCoverage.Proofs.Sorting
import SpecCoverage.Proofs.Specifications.Cascade
import SpecCoverage.Proofs.Specifications.Composition
import SpecCoverage.Proofs.Specifications.Cuts
import SpecCoverage.Proofs.Specifications.Definitions
import SpecCoverage.Proofs.Specifications.Descriptions
import SpecCoverage.Proofs.Specifications.Extraction
import SpecCoverage.Proofs.Specifications.Forms
import SpecCoverage.Proofs.Specifications.Growth
import SpecCoverage.Proofs.Specifications.History
import SpecCoverage.Proofs.Specifications.LineEnding
import SpecCoverage.Proofs.Specifications.Marks
import SpecCoverage.Proofs.Specifications.Names
import SpecCoverage.Proofs.Specifications.ReadingBack
import SpecCoverage.Proofs.Specifications.Readings
import SpecCoverage.Proofs.Specifications.Resolution
import SpecCoverage.Proofs.Specifications.Rules
import SpecCoverage.Proofs.Specifications.ScriptBlocks
import SpecCoverage.Proofs.Specifications.Sections
import SpecCoverage.Proofs.Specifications.Stability
import SpecCoverage.Proofs.Specifications.TextBlocks
import SpecCoverage.Proofs.Text.Bytes
import SpecCoverage.Proofs.Text.Line
import SpecCoverage.Proofs.Text.LineBound
import SpecCoverage.Proofs.Text.LineEnding
import SpecCoverage.Proofs.Text.Matches
import SpecCoverage.Proofs.Text.Scan
import SpecCoverage.Reports.Document
import SpecCoverage.Reports.Report
import SpecCoverage.Reports.Table
import SpecCoverage.Sorting
import SpecCoverage.Source.Language
import SpecCoverage.Source.Span
import SpecCoverage.Specifications.Extraction
import SpecCoverage.Specifications.History
import SpecCoverage.Specifications.Matching
import SpecCoverage.Specifications.Specification
import SpecCoverage.Text.Blank
import SpecCoverage.Text.Bytes
import SpecCoverage.Text.CharacterClass
import SpecCoverage.Text.Decimal
import SpecCoverage.Text.Identifier
import SpecCoverage.Text.Line
import SpecCoverage.Text.Lowercase
import SpecCoverage.Text.Scan
