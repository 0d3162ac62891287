import Bindery.Binary64.Basic
import Bindery.Binary64.Shortest
import Bindery.Binding.Analysis
import Bindery.Binding.Diagnostic
import Bindery.Binding.Method
import Bindery.Code.Builder
import Bindery.Code.Comment
import Bindery.Code.Fragment
import Bindery.CommandLine.Grammar
import Bindery.CommandLine.Request
import Bindery.CommandLine.Response
import Bindery.CommandLine.Usage
import Bindery.FileTree
import Bindery.Json.Basic
import Bindery.Json.Pointer
import Bindery.Json.Reader
import Bindery.Json.Writer
import Bindery.Main
import Bindery.Manual.Corpus
import Bindery.Manual.Page
import Bindery.Output.GeneratedFile
import Bindery.Path
import Bindery.Project.Basic
import Bindery.Project.OfToml
import Bindery.Project.Settings
import Bindery.Project.SourceError
import Bindery.Proofs.Attempts
import Bindery.Proofs.Binding.Findings
import Bindery.Proofs.Binding.RoundTrip
import Bindery.Proofs.Binary64.Quotients
import Bindery.Proofs.Binary64.Rounding
import Bindery.Proofs.Binary64.Writing
import Bindery.Proofs.Distinct
import Bindery.Proofs.FileTree.Children
import Bindery.Proofs.FileTree.Components
import Bindery.Proofs.FileTree.Growth
import Bindery.Proofs.FileTree.Making
import Bindery.Proofs.FileTree.Naming
import Bindery.Proofs.FileTree.Places
import Bindery.Proofs.FileTree.Within
import Bindery.Proofs.Json.Compact
import Bindery.Proofs.Json.Depth
import Bindery.Proofs.Json.Equality
import Bindery.Proofs.Json.Keys
import Bindery.Proofs.Json.Numbers
import Bindery.Proofs.Json.Quoting
import Bindery.Proofs.Json.Reading
import Bindery.Proofs.Manual.Corpus
import Bindery.Proofs.Manual.Layout
import Bindery.Proofs.Manual.Marks
import Bindery.Proofs.Manual.Pages
import Bindery.Proofs.Manual.Prose
import Bindery.Proofs.Manual.Scan
import Bindery.Proofs.Output.Written
import Bindery.Proofs.Run.Account
import Bindery.Proofs.Run.ClientMirror
import Bindery.Proofs.Run.Course
import Bindery.Proofs.Run.Exits
import Bindery.Proofs.Run.Inputs
import Bindery.Proofs.Run.OutputPaths
import Bindery.Proofs.Run.Rerun
import Bindery.Proofs.Run.Stops
import Bindery.Proofs.Run.UsableNames
import Bindery.Proofs.Run.Writes
import Bindery.Proofs.Schema.NormalForm
import Bindery.Proofs.Schema.TagTable
import Bindery.Proofs.Schema.Validity
import Bindery.Proofs.Synopsis.Acceptance
import Bindery.Proofs.Synopsis.Grammar
import Bindery.Proofs.Synopsis.Lexing
import Bindery.Proofs.Synopsis.Machine
import Bindery.Proofs.Synopsis.Reading
import Bindery.Proofs.Synopsis.Tokens
import Bindery.Proofs.Synopsis.Writing
import Bindery.Proofs.Text.CaseMapping
import Bindery.Proofs.Text.Lines
import Bindery.Proofs.Text.Pieces
import Bindery.Proofs.Text.Search
import Bindery.Proofs.Text.Words
import Bindery.Proofs.TypeScript.Alike
import Bindery.Proofs.TypeScript.Branches
import Bindery.Proofs.TypeScript.BuiltTypes
import Bindery.Proofs.TypeScript.Defects
import Bindery.Proofs.TypeScript.DeprecatedNames
import Bindery.Proofs.TypeScript.Identifiers
import Bindery.Proofs.TypeScript.Inhabitants
import Bindery.Proofs.TypeScript.Names
import Bindery.Proofs.TypeScript.NormalTags
import Bindery.Proofs.TypeScript.Soundness
import Bindery.Proofs.TypeScript.StringLiteral
import Bindery.Proofs.TypeScript.Typing
import Bindery.Proofs.TypeScript.Unambiguous
import Bindery.Report.Commands
import Bindery.Report.Findings
import Bindery.Report.Notice
import Bindery.Report.OfRun
import Bindery.Run.Basic
import Bindery.Run.Delivery
import Bindery.Run.Listing
import Bindery.Schema.Deprecation
import Bindery.Schema.Normalize
import Bindery.Schema.Report
import Bindery.Schema.TagTable
import Bindery.Synopsis.Descriptor
import Bindery.Synopsis.Parse
import Bindery.Synopsis.Token
import Bindery.Text.Blank
import Bindery.Text.Braces
import Bindery.Text.Bytes
import Bindery.Text.Comparison
import Bindery.Text.Letter
import Bindery.Text.Lines
import Bindery.Text.Search
import Bindery.Text.Words
import Bindery.Toml.Basic
import Bindery.Toml.Reader
import Bindery.Toml.Scalar
import Bindery.TypeScript.ClientFile
import Bindery.TypeScript.CommandFile
import Bindery.TypeScript.Declaration
import Bindery.TypeScript.Identifier
import Bindery.TypeScript.OfSchema
import Bindery.TypeScript.SourceFile
import Bindery.TypeScript.TypeExpr
import Bindery.Proofs.Json.PointerText
import Bindery.Proofs.Schema.Parts
import Bindery.Proofs.Schema.Places
import Bindery.Proofs.Json.Revision
import Bindery.Proofs.Schema.Changes
import Bindery.Proofs.Schema.Unchanged
import Bindery.Proofs.Synopsis.Irregularities
import Bindery.Proofs.Run.Listing
import Bindery.Proofs.Text.Boundaries
import Bindery.Proofs.Synopsis.Tiling
import Bindery.Proofs.Synopsis.Printing
import Bindery.Proofs.Synopsis.Refusals
import Bindery.Proofs.Synopsis.Positions
import Bindery.Proofs.Synopsis.Completion
import Bindery.Proofs.Synopsis.Failures
import Bindery.Proofs.TypeScript.FirstDeclarations
import Bindery.Proofs.TypeScript.ErrorPlaces
import Bindery.Proofs.TypeScript.WrittenForms
import Bindery.Proofs.Text.Trimming
import Bindery.Proofs.Manual.LineLabels
import Bindery.Proofs.Manual.BlankLines
import Bindery.Proofs.Code.Escaping
import Bindery.Proofs.Code.Rendering
import Bindery.Proofs.Code.Comments
import Bindery.Proofs.Code.Quotations
import Bindery.Proofs.TypeScript.FileComments
import Bindery.Proofs.TypeScript.RequestFields
import Bindery.Proofs.Text.ByteOrder
import Bindery.Proofs.Manual.Stems
import Bindery.Proofs.Json.Same
import Bindery.Proofs.TypeScript.Making
import Bindery.Proofs.TypeScript.Unions
import Bindery.Proofs.TypeScript.NormalTypes
import Bindery.Proofs.Schema.Survivors
import Bindery.Proofs.TypeScript.Literals
import Bindery.Proofs.Schema.Additions
import Bindery.Proofs.Code.Indentation
import Bindery.Proofs.TypeScript.Embedding
import Bindery.Proofs.Report.Renaming
import Bindery.Proofs.Text.LineColumns
