import Handout.Action
import Handout.Assignment
import Handout.Cell.Basic
import Handout.Cell.Generated
import Handout.Cell.Marker
import Handout.CommandLine.Arguments
import Handout.CommandLine.Run
import Handout.Config.Basic
import Handout.Config.File
import Handout.Failure
import Handout.Files.Atomic
import Handout.Files.Basic
import Handout.Files.Copy
import Handout.Files.Tag
import Handout.Files.Tree
import Handout.Files.Workspace
import Handout.Grading.Basic
import Handout.Grading.Program
import Handout.Json.Basic
import Handout.Json.Numeral
import Handout.Json.Printer
import Handout.Json.Reader
import Handout.Json.Token
import Handout.Literal.Basic
import Handout.Literal.Parser
import Handout.Literal.Printer
import Handout.Main
import Handout.Notebook.Basic
import Handout.Notebook.Build
import Handout.Notebook.Format
import Handout.Notebook.Output
import Handout.Number.Decimal
import Handout.Number.Double
import Handout.Number.Shortest
import Handout.Path
import Handout.Proofs.Action
import Handout.Proofs.Assignment.Atomicity
import Handout.Proofs.Assignment.Published
import Handout.Proofs.Cell.Alike
import Handout.Proofs.Cell.Export
import Handout.Proofs.Cell.Marker
import Handout.Proofs.Cell.Shown
import Handout.Proofs.Files.Replacing
import Handout.Proofs.Grading.Program
import Handout.Proofs.Literal.Grammar
import Handout.Proofs.Literal.Nesting
import Handout.Proofs.Literal.Number
import Handout.Proofs.Literal.Reader
import Handout.Proofs.Literal.RoundTrip
import Handout.Proofs.Literal.Spelling
import Handout.Proofs.Literal.Text
import Handout.Proofs.Notebook.Kept
import Handout.Proofs.Notebook.Multiline
import Handout.Proofs.Notebook.RoundTrip
import Handout.Proofs.Notebook.Secrecy
import Handout.Proofs.Notebook.SelfContained
import Handout.Proofs.Notebook.Stripping
import Handout.Proofs.Number.Rounding
import Handout.Proofs.Number.Shortest
import Handout.Proofs.Number.Text
import Handout.Proofs.Question.Block
import Handout.Proofs.Question.Hiding
import Handout.Proofs.Question.Prompt
import Handout.Proofs.Question.Rebalancing
import Handout.Proofs.Segment.Alike
import Handout.Proofs.Segment.Layout
import Handout.Proofs.Segment.Places
import Handout.Proofs.Segment.Refusal
import Handout.Proofs.Segment.Stems
import Handout.Proofs.Segment.Step
import Handout.Proofs.Segment.Tiers
import Handout.Proofs.Store.Listing
import Handout.Proofs.Store.Memory
import Handout.Proofs.Store.Refinement
import Handout.Proofs.Table
import Handout.Proofs.Test.Transcript
import Handout.Proofs.TestFile.Reencoding
import Handout.Proofs.TestFile.RoundTrip
import Handout.Proofs.Text.Blank
import Handout.Proofs.Text.Lines
import Handout.Proofs.Text.Utf8
import Handout.Proofs.View.Student
import Handout.Question.Block
import Handout.Question.Metadata
import Handout.Question.Prompt
import Handout.Report
import Handout.Segment.Reading
import Handout.Segment.State
import Handout.Store.Basic
import Handout.Store.Disk
import Handout.Store.Memory
import Handout.Summary
import Handout.Table
import Handout.Test.Basic
import Handout.Test.Compile
import Handout.Test.Transcript
import Handout.TestFile.Basic
import Handout.TestFile.Encoding
import Handout.Text.Blank
import Handout.Text.Hex
import Handout.Text.Letters
import Handout.Text.Lines
import Handout.Text.Parsed
import Handout.Text.Printable
import Handout.View.Autograder
import Handout.View.Student
import Handout.Yaml.Basic
import Handout.Yaml.Core
import Handout.Yaml.Cursor
import Handout.Yaml.Document
import Handout.Yaml.Node
import Handout.Yaml.Scalar
import Handout.Yaml.Token
