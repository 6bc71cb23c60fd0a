import IncludeClosure.Artifact.Basic
import IncludeClosure.Artifact.Registry
import IncludeClosure.Artifact.Root
import IncludeClosure.Artifact.RootSet
import IncludeClosure.Artifact.Set
import IncludeClosure.Command.Arguments
import IncludeClosure.Command.Elapsed
import IncludeClosure.Command.Outcome
import IncludeClosure.Command.Report
import IncludeClosure.Command.Run
import IncludeClosure.Compilation.Context
import IncludeClosure.Compilation.Unit
import IncludeClosure.Decimal.Binary
import IncludeClosure.Decimal.Fixed
import IncludeClosure.Decimal.Shortest
import IncludeClosure.Directive.Basic
import IncludeClosure.Directive.Lexer
import IncludeClosure.Directive.Line
import IncludeClosure.Directive.Written
import IncludeClosure.FileTree.Basic
import IncludeClosure.FileTree.Disk
import IncludeClosure.FileTree.Edit
import IncludeClosure.FileTree.OsError
import IncludeClosure.FileTree.Walk
import IncludeClosure.Json.Document
import IncludeClosure.Json.Flaw
import IncludeClosure.Json.Number
import IncludeClosure.Json.Printer
import IncludeClosure.Json.Spelling
import IncludeClosure.Json.Token
import IncludeClosure.Json.Value
import IncludeClosure.Main
import IncludeClosure.Path.Basic
import IncludeClosure.Path.Normal
import IncludeClosure.Path.Order
import IncludeClosure.Path.Spelling
import IncludeClosure.Program
import IncludeClosure.Proofs.Artifact.Faithful
import IncludeClosure.Proofs.Artifact.Owner
import IncludeClosure.Proofs.Artifact.Registry
import IncludeClosure.Proofs.Artifact.Relocate
import IncludeClosure.Proofs.Artifact.Resolve
import IncludeClosure.Proofs.Command.Load
import IncludeClosure.Proofs.Command.Permits
import IncludeClosure.Proofs.Command.Report
import IncludeClosure.Proofs.Command.Scan
import IncludeClosure.Proofs.Directive.Comment
import IncludeClosure.Proofs.Directive.Lexer
import IncludeClosure.Proofs.Directive.Line
import IncludeClosure.Proofs.Directive.LineEnding
import IncludeClosure.Proofs.Directive.Newline
import IncludeClosure.Proofs.Directive.Offset
import IncludeClosure.Proofs.Directive.Splice
import IncludeClosure.Proofs.Directive.Written
import IncludeClosure.Proofs.FileTree.Copy
import IncludeClosure.Proofs.FileTree.Edited
import IncludeClosure.Proofs.FileTree.Ending
import IncludeClosure.Proofs.FileTree.Leg
import IncludeClosure.Proofs.FileTree.NewFile
import IncludeClosure.Proofs.FileTree.Normal
import IncludeClosure.Proofs.FileTree.Plain
import IncludeClosure.Proofs.FileTree.Spelling
import IncludeClosure.Proofs.Json.Document
import IncludeClosure.Proofs.Json.Pretty
import IncludeClosure.Proofs.Json.Printer
import IncludeClosure.Proofs.Json.Token
import IncludeClosure.Proofs.Path.Absorb
import IncludeClosure.Proofs.Path.Front
import IncludeClosure.Proofs.Path.Moved
import IncludeClosure.Proofs.Request.Generated
import IncludeClosure.Proofs.Request.Job
import IncludeClosure.Proofs.Request.Merge
import IncludeClosure.Proofs.Request.Place
import IncludeClosure.Proofs.Request.Record
import IncludeClosure.Proofs.Request.Relocation
import IncludeClosure.Proofs.Request.Respelling
import IncludeClosure.Proofs.Request.RoundTrip
import IncludeClosure.Proofs.Request.Tidy
import IncludeClosure.Proofs.Scan.Action
import IncludeClosure.Proofs.Scan.Closure
import IncludeClosure.Proofs.Scan.Dispatch
import IncludeClosure.Proofs.Scan.Ensures
import IncludeClosure.Proofs.Scan.Failure
import IncludeClosure.Proofs.Scan.Frontier
import IncludeClosure.Proofs.Scan.History
import IncludeClosure.Proofs.Scan.Lockstep
import IncludeClosure.Proofs.Scan.Lookup
import IncludeClosure.Proofs.Scan.Materialized
import IncludeClosure.Proofs.Scan.Memo
import IncludeClosure.Proofs.Scan.Naming
import IncludeClosure.Proofs.Scan.Pool
import IncludeClosure.Proofs.Scan.Priority
import IncludeClosure.Proofs.Scan.Reads
import IncludeClosure.Proofs.Scan.Relocation
import IncludeClosure.Proofs.Scan.Rounds
import IncludeClosure.Proofs.Scan.Session
import IncludeClosure.Proofs.Scan.Sufficiency
import IncludeClosure.Proofs.Scan.Supplier
import IncludeClosure.Proofs.Scan.Unreadable
import IncludeClosure.Proofs.Text.Utf8
import IncludeClosure.Request.Basic
import IncludeClosure.Request.Job
import IncludeClosure.Request.Reader
import IncludeClosure.Request.Relocation
import IncludeClosure.Request.Respelling
import IncludeClosure.Request.Writer
import IncludeClosure.Scan.Action
import IncludeClosure.Scan.Batch
import IncludeClosure.Scan.Cache
import IncludeClosure.Scan.Closure
import IncludeClosure.Scan.Error
import IncludeClosure.Scan.Lookup
import IncludeClosure.Scan.Memoized
import IncludeClosure.Scan.Pool
import IncludeClosure.Scan.Reach
import IncludeClosure.Scan.Step
import IncludeClosure.Scan.Supplier
import IncludeClosure.Settings
import IncludeClosure.Sorted
import IncludeClosure.Text.Blank
import IncludeClosure.Text.Digits
import IncludeClosure.Text.Hidden
import IncludeClosure.Text.Shown
import IncludeClosure.Text.Utf8
