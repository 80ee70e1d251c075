import BuildSync.Main
import BuildSync.Proofs.Command.Bundles
import BuildSync.Proofs.Command.Frame
import BuildSync.Proofs.Command.History
import BuildSync.Proofs.Command.Options
import BuildSync.Proofs.Command.Outputs
import BuildSync.Proofs.Document.Content
import BuildSync.Proofs.Patch.Exact
import BuildSync.Proofs.Sync.Alike
import BuildSync.Proofs.Sync.Append
import BuildSync.Proofs.Sync.Kept
import BuildSync.Proofs.Sync.Formatted
import BuildSync.Proofs.Sync.Order
import BuildSync.Proofs.FileTree.Atomic
import BuildSync.Proofs.Expr.Enough
import BuildSync.Proofs.Expr.Relaid
import BuildSync.Proofs.Statement.Lines
import BuildSync.Proofs.Document.Canonical
import BuildSync.Proofs.Document.Safe
import BuildSync.Proofs.Text.Checked
import BuildSync.Proofs.Token.Checked
import BuildSync.Proofs.Token.Offsets
import BuildSync.Proofs.Statement.Checked
import BuildSync.Proofs.Token.Tiles
import BuildSync.Proofs.Statement.Indices
import BuildSync.Proofs.Sync.Bundled
import BuildSync.Proofs.Sync.Report
import BuildSync.Proofs.Sync.Unreadable
import BuildSync.Proofs.Expr.Grouping
import BuildSync.Proofs.Expr.Fuel
import BuildSync.Proofs.Expr.Local
import BuildSync.Proofs.Expr.Seam
import BuildSync.Proofs.Expr.Beginning
import BuildSync.Proofs.Expr.Postfix
import BuildSync.Proofs.Expr.Chain
import BuildSync.Proofs.Expr.Arguments
import BuildSync.Proofs.Document.Operators
import BuildSync.Proofs.Token.Places
import BuildSync.Proofs.Token.Nesting
import BuildSync.Proofs.Token.Feeds
import BuildSync.Proofs.Token.Quoting
import BuildSync.Proofs.Token.Literals
import BuildSync.Proofs.Token.Integers
import BuildSync.Proofs.Document.Amendments
import BuildSync.Proofs.Statement.Partition
import BuildSync.Proofs.Expr.Resemblance
import BuildSync.Proofs.Text.Returns
import BuildSync.Proofs.Token.Returns
import BuildSync.Proofs.Token.Recast
import BuildSync.Proofs.Statement.Recast
import BuildSync.Proofs.Document.Returns
import BuildSync.Proofs.Package.Urls
import BuildSync.Proofs.Rule.Writes
import BuildSync.Proofs.Expr.Progress
