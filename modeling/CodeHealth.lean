import CodeHealth.Assoc
import CodeHealth.CodeUnit
import CodeHealth.Command.Arguments
import CodeHealth.Command.Help
import CodeHealth.Command.Run
import CodeHealth.Concern
import CodeHealth.Coupling
import CodeHealth.Digraph
import CodeHealth.Duplication
import CodeHealth.EditDistance
import CodeHealth.Finding
import CodeHealth.Ignore.Glob
import CodeHealth.Ignore.Pattern
import CodeHealth.Ignore.Rules
import CodeHealth.Main
import CodeHealth.Measure
import CodeHealth.NormalForm
import CodeHealth.Policy
import CodeHealth.Project.Discovery
import CodeHealth.Project.FileSystem
import CodeHealth.Project.FileTree
import CodeHealth.Project.Path
import CodeHealth.Proofs.Assoc
import CodeHealth.Proofs.Command.Outcome
import CodeHealth.Proofs.Command.Union
import CodeHealth.Proofs.Command.UnitOnLine
import CodeHealth.Proofs.Concern
import CodeHealth.Proofs.Concern.LetterCase
import CodeHealth.Proofs.Coupling.Effects
import CodeHealth.Proofs.Coupling.Words
import CodeHealth.Proofs.Digraph.Completeness
import CodeHealth.Proofs.Digraph.Distinct
import CodeHealth.Proofs.Digraph.Progress
import CodeHealth.Proofs.Digraph.Recursion
import CodeHealth.Proofs.Digraph.Search
import CodeHealth.Proofs.Digraph.Soundness
import CodeHealth.Proofs.Digraph.Walk
import CodeHealth.Proofs.Distinct
import CodeHealth.Proofs.Duplication
import CodeHealth.Proofs.Duplication.Repetition
import CodeHealth.Proofs.Duplication.Selection
import CodeHealth.Proofs.Duplication.Similarity
import CodeHealth.Proofs.EditDistance
import CodeHealth.Proofs.EditDistance.Edits
import CodeHealth.Proofs.Except
import CodeHealth.Proofs.Ignore.Directory
import CodeHealth.Proofs.Ignore.Glob
import CodeHealth.Proofs.Ignore.Inert
import CodeHealth.Proofs.Ignore.Line
import CodeHealth.Proofs.Ignore.Pattern
import CodeHealth.Proofs.Ignore.Rebase
import CodeHealth.Proofs.NormalForm
import CodeHealth.Proofs.NormalForm.Canonical
import CodeHealth.Proofs.Project.Agreement
import CodeHealth.Proofs.Project.Discovery
import CodeHealth.Proofs.Project.FileTree
import CodeHealth.Proofs.Project.Path
import CodeHealth.Proofs.Project.RuleOrder
import CodeHealth.Proofs.Project.Vendored
import CodeHealth.Proofs.Project.Writing
import CodeHealth.Proofs.Reference
import CodeHealth.Proofs.Reference.Edges
import CodeHealth.Proofs.Report.Headings
import CodeHealth.Proofs.Report.Json.Atoms
import CodeHealth.Proofs.Report.Json.Reader
import CodeHealth.Proofs.Report.Json.RoundTrip
import CodeHealth.Proofs.Report.Lossless
import CodeHealth.Proofs.Report.Markup
import CodeHealth.Proofs.Reviewer.Cap
import CodeHealth.Proofs.Reviewer.CoarseRange
import CodeHealth.Proofs.Reviewer.EntryPoints
import CodeHealth.Proofs.Reviewer.Loops
import CodeHealth.Proofs.Reviewer.Loosening
import CodeHealth.Proofs.Reviewer.Pairs
import CodeHealth.Proofs.Reviewer.Shape
import CodeHealth.Proofs.Reviewer.Span
import CodeHealth.Proofs.Scalar
import CodeHealth.Proofs.Source.Accessors
import CodeHealth.Proofs.Source.Branches
import CodeHealth.Proofs.Source.Complexity
import CodeHealth.Proofs.Source.Lexeme
import CodeHealth.Proofs.Source.Members
import CodeHealth.Proofs.Source.Peg
import CodeHealth.Proofs.Source.Separation
import CodeHealth.Proofs.Source.Tree
import CodeHealth.Proofs.Source.Units
import CodeHealth.Proofs.Text.Basic
import CodeHealth.Proofs.Text.ByteIndex
import CodeHealth.Proofs.Text.ByteIndex.Encoding
import CodeHealth.Proofs.Text.Lines
import CodeHealth.Proofs.Text.LowerCase
import CodeHealth.Proofs.Text.Range
import CodeHealth.Proofs.Text.Regex
import CodeHealth.Proofs.Text.Utf8
import CodeHealth.Reference
import CodeHealth.Report.Console
import CodeHealth.Report.Json
import CodeHealth.Report.Located
import CodeHealth.Report.Markup
import CodeHealth.Report.Terminal
import CodeHealth.Reviewer
import CodeHealth.Scalar
import CodeHealth.Severity
import CodeHealth.Source.Grammar
import CodeHealth.Source.Grammar.Basic
import CodeHealth.Source.Grammar.Class
import CodeHealth.Source.Grammar.Expression
import CodeHealth.Source.Grammar.Statement
import CodeHealth.Source.Grammar.Type
import CodeHealth.Source.Lexeme
import CodeHealth.Source.Peg
import CodeHealth.Source.Tree
import CodeHealth.Source.Units
import CodeHealth.Text.Basic
import CodeHealth.Text.ByteIndex
import CodeHealth.Text.CodePoint
import CodeHealth.Text.Lines
import CodeHealth.Text.LowerCase
import CodeHealth.Text.Number
import CodeHealth.Text.Printable
import CodeHealth.Text.Quoted
import CodeHealth.Text.Regex
import CodeHealth.Text.Utf8
import CodeHealth.Thresholds
