import VariableOrder.CommandLine.Arguments
import VariableOrder.CommandLine.Run
import VariableOrder.Data.Arrangement
import VariableOrder.Data.Calendar
import VariableOrder.Data.Shown
import VariableOrder.Data.Value
import VariableOrder.Definition.Basic
import VariableOrder.Definition.Entry
import VariableOrder.Definition.Load
import VariableOrder.Definition.Settings
import VariableOrder.Definition.Source
import VariableOrder.Document.BlockText
import VariableOrder.Document.Cursor
import VariableOrder.Document.Fault
import VariableOrder.Document.Lexer
import VariableOrder.Document.Meaning
import VariableOrder.Document.Merging
import VariableOrder.Document.Node
import VariableOrder.Document.NodeReader
import VariableOrder.Document.PlainText
import VariableOrder.Document.Printer
import VariableOrder.Document.QuotedText
import VariableOrder.Document.Scalar
import VariableOrder.Document.ScalarText
import VariableOrder.Document.ScalarValue
import VariableOrder.Document.Shape
import VariableOrder.Document.SourceText
import VariableOrder.Document.TagText
import VariableOrder.Document.Token
import VariableOrder.Document.Unfolding
import VariableOrder.Expression.Basic
import VariableOrder.Expression.Resource
import VariableOrder.Files.Access
import VariableOrder.Files.Path
import VariableOrder.Files.Tree
import VariableOrder.Graph.Basic
import VariableOrder.Graph.Build
import VariableOrder.Graph.Builder
import VariableOrder.Graph.Extraction
import VariableOrder.Graph.Warning
import VariableOrder.Log.Basic
import VariableOrder.Log.Resolution
import VariableOrder.Main
import VariableOrder.Number.Decimal
import VariableOrder.Number.Exact
import VariableOrder.Number.FloatText
import VariableOrder.Number.Integer
import VariableOrder.Number.Shortest
import VariableOrder.Order.Cycle
import VariableOrder.Order.Document
import VariableOrder.Order.Emit
import VariableOrder.Order.Report
import VariableOrder.Order.Request
import VariableOrder.Order.Resolve
import VariableOrder.Order.Sort
import VariableOrder.Order.Writing
import VariableOrder.Placeholder.Chunk
import VariableOrder.Placeholder.Parts
import VariableOrder.Proofs.Ascending
import VariableOrder.Proofs.CommandLine.Compilation
import VariableOrder.Proofs.CommandLine.Options
import VariableOrder.Proofs.CommandLine.Run
import VariableOrder.Proofs.CommandLine.Settings
import VariableOrder.Proofs.Data.Plain
import VariableOrder.Proofs.Data.Record
import VariableOrder.Proofs.Definition.Accepted
import VariableOrder.Proofs.Definition.Accounting
import VariableOrder.Proofs.Definition.Arrangement
import VariableOrder.Proofs.Definition.Entry
import VariableOrder.Proofs.Definition.Filtering
import VariableOrder.Proofs.Definition.Grouping
import VariableOrder.Proofs.Definition.Listing
import VariableOrder.Proofs.Definition.Load
import VariableOrder.Proofs.Definition.Loaded
import VariableOrder.Proofs.Definition.Mention
import VariableOrder.Proofs.Definition.Nesting
import VariableOrder.Proofs.Definition.Settings
import VariableOrder.Proofs.Definition.Sifting
import VariableOrder.Proofs.Definition.Source
import VariableOrder.Proofs.Definition.Tidy
import VariableOrder.Proofs.Expression.Occurrence
import VariableOrder.Proofs.Expression.Renaming
import VariableOrder.Proofs.Expression.Text
import VariableOrder.Proofs.Expression.Written
import VariableOrder.Proofs.Files.Access
import VariableOrder.Proofs.Files.Tree
import VariableOrder.Proofs.Graph.Build
import VariableOrder.Proofs.Graph.Component
import VariableOrder.Proofs.Graph.Duplicate
import VariableOrder.Proofs.Graph.Extraction
import VariableOrder.Proofs.Graph.Mention
import VariableOrder.Proofs.Graph.References
import VariableOrder.Proofs.Graph.Views
import VariableOrder.Proofs.Graph.WellFormed
import VariableOrder.Proofs.Last
import VariableOrder.Proofs.Order.Addition
import VariableOrder.Proofs.Order.Arrangement
import VariableOrder.Proofs.Order.Components
import VariableOrder.Proofs.Order.Cycle
import VariableOrder.Proofs.Order.Deadlock
import VariableOrder.Proofs.Order.Declaration
import VariableOrder.Proofs.Order.Embedding
import VariableOrder.Proofs.Order.Emission
import VariableOrder.Proofs.Order.External
import VariableOrder.Proofs.Order.InputOrder
import VariableOrder.Proofs.Order.Least
import VariableOrder.Proofs.Order.Numbering
import VariableOrder.Proofs.Order.Outline
import VariableOrder.Proofs.Order.Progress
import VariableOrder.Proofs.Order.Reachability
import VariableOrder.Proofs.Order.Readiness
import VariableOrder.Proofs.Order.Renaming
import VariableOrder.Proofs.Order.Resolution
import VariableOrder.Proofs.Order.Writing
import VariableOrder.Proofs.Outcome
import VariableOrder.Proofs.Placeholder.Chunk
import VariableOrder.Proofs.Placeholder.Grammar
import VariableOrder.Proofs.Placeholder.Juxtaposition
import VariableOrder.Proofs.Placeholder.Parts
import VariableOrder.Proofs.Placeholder.Written
import VariableOrder.Proofs.Provider.Argument
import VariableOrder.Proofs.Provider.Canonical
import VariableOrder.Proofs.Provider.Catalogue
import VariableOrder.Proofs.Provider.Choice
import VariableOrder.Proofs.Provider.Discovery
import VariableOrder.Proofs.Provider.Fault
import VariableOrder.Proofs.Provider.Mention
import VariableOrder.Proofs.Provider.Names
import VariableOrder.Proofs.Provider.Nested
import VariableOrder.Proofs.Provider.Part
import VariableOrder.Proofs.Provider.Place
import VariableOrder.Proofs.Provider.Reordering
import VariableOrder.Proofs.Provider.Reread
import VariableOrder.Proofs.Schema.Collection
import VariableOrder.Proofs.Schema.Lookup
import VariableOrder.Proofs.Schema.Plain
import VariableOrder.Proofs.Schema.Scalar
import VariableOrder.Proofs.Text.SortedNames
import VariableOrder.Provider.Basic
import VariableOrder.Provider.Call
import VariableOrder.Provider.Catalogue
import VariableOrder.Schema.Collection
import VariableOrder.Schema.Finding
import VariableOrder.Schema.Scalar
import VariableOrder.Text.Blank
import VariableOrder.Text.Blocks
import VariableOrder.Text.Casing
import VariableOrder.Text.Encoding
import VariableOrder.Text.Filled
import VariableOrder.Text.LowerCase
import VariableOrder.Text.Names
import VariableOrder.Text.Printable
import VariableOrder.Text.Quoted
