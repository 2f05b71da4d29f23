import CodeTidy.Main
import CodeTidy.Proofs.Json.WellFormed
import CodeTidy.Proofs.Json.RoundTrip
import CodeTidy.Proofs.Notebook.Cells
import CodeTidy.Proofs.Notebook.RoundTrip
import CodeTidy.Proofs.Host.Writes
import CodeTidy.Proofs.Operation.Rewrites
import CodeTidy.Proofs.Operation.Prediction
import CodeTidy.Proofs.Run.Steps
import CodeTidy.Proofs.Tool.Missing
import CodeTidy.Proofs.Run.Frame
import CodeTidy.Proofs.Endings
import CodeTidy.Proofs.Endings.Uniform
import CodeTidy.Proofs.Operation.Newline
import CodeTidy.Proofs.Host.Below
import CodeTidy.Proofs.Host.Order
import CodeTidy.Proofs.Discovery.Targets
import CodeTidy.Proofs.Operation.Blame
import CodeTidy.Proofs.Operation.Settled
import CodeTidy.Proofs.Run.Convergence
import CodeTidy.Proofs.Run.Complete
import CodeTidy.Proofs.Operation.Cleaning
import CodeTidy.Proofs.Json.Members
import CodeTidy.Proofs.Notebook.Cleaning
import CodeTidy.Proofs.Operation.Locating
import CodeTidy.Proofs.Operation.Cellwise
import CodeTidy.Proofs.Text.Words
import CodeTidy.Proofs.Comment.Layout
import CodeTidy.Proofs.Comment.Parts
import CodeTidy.Proofs.Comment.Blocks
import CodeTidy.Proofs.Comment.Idempotence
import CodeTidy.Proofs.Operation.Reflowing
import CodeTidy.Proofs.CommandLine.Refusal
import CodeTidy.Proofs.Discovery.Rediscovery
import CodeTidy.Proofs.Operation.Memory
import CodeTidy.Proofs.Run.Isolation
import CodeTidy.Proofs.Comment.Directives
import CodeTidy.Proofs.Comment.Lexer
import CodeTidy.Proofs.Comment.Scanning
import CodeTidy.Proofs.Comment.Literals
import CodeTidy.Proofs.Results
import CodeTidy.Proofs.Text.Utf8
import CodeTidy.Proofs.Diagnostic
import CodeTidy.Proofs.Settings.Sections
import CodeTidy.Proofs.Operation.Ignoring
import CodeTidy.Proofs.Operation.Checking
import CodeTidy.Proofs.Text.Splitting
import CodeTidy.Proofs.Settings.FileIgnores
import CodeTidy.Proofs.Glob.Literal
import CodeTidy.Proofs.Discovery.Exact
import CodeTidy.Proofs.Report.Accounting
import CodeTidy.Proofs.Report.Rendering
import CodeTidy.Proofs.Operation.SettledCells
import CodeTidy.Proofs.Text.Lossy
import CodeTidy.Proofs.Endings.Bytes
import CodeTidy.Proofs.Operation.Faithful
import CodeTidy.Proofs.Json.Literals
import CodeTidy.Proofs.Json.Decimals
import CodeTidy.Proofs.Json.Spelling
import CodeTidy.Proofs.Json.Grammar
import CodeTidy.Proofs.Json.Reading
import CodeTidy.Proofs.Json.Unambiguous
import CodeTidy.Proofs.Notebook.Ownership
import CodeTidy.Proofs.Notebook.Integers
import CodeTidy.Proofs.Run.Binary
import CodeTidy.Proofs.Host.Absolute
import CodeTidy.Proofs.Settings.Nearest
import CodeTidy.Proofs.Settings.UnknownKeys
import CodeTidy.Proofs.Toml.Tables
import CodeTidy.Proofs.Toml.Statements
import CodeTidy.Proofs.Toml.Reading
import CodeTidy.Proofs.Settings.ProjectFile
import CodeTidy.Proofs.Comment.Optimal
import CodeTidy.Proofs.Comment.Slices
import CodeTidy.Proofs.Comment.Tracking
import CodeTidy.Proofs.Tool.Transparency
import CodeTidy.Proofs.Report.Document
import CodeTidy.Proofs.CommandLine.Printing
