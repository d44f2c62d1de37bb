import Snippets.Catalog.Basic
import Snippets.Catalog.Export
import Snippets.Catalog.Group
import Snippets.Catalog.Import
import Snippets.Catalog.Load
import Snippets.Catalog.Save
import Snippets.CommandLine
import Snippets.Event
import Snippets.Failure
import Snippets.FileTree.Basic
import Snippets.FileTree.Operations
import Snippets.FileTree.Path
import Snippets.FileTree.Resolve
import Snippets.FileTree.Walk
import Snippets.Json.Basic
import Snippets.Json.Reader
import Snippets.Json.Token
import Snippets.Main
import Snippets.Placeholder.Basic
import Snippets.Placeholder.Expand
import Snippets.Placeholder.Index
import Snippets.Placeholder.Token
import Snippets.Proofs.Catalog.Export
import Snippets.Proofs.Catalog.Insertion
import Snippets.Proofs.Catalog.Listing
import Snippets.Proofs.Catalog.Load
import Snippets.Proofs.Catalog.Log
import Snippets.Proofs.Catalog.Lookup
import Snippets.Proofs.Catalog.Reload
import Snippets.Proofs.Catalog.Save
import Snippets.Proofs.Catalog.SnippetFile
import Snippets.Proofs.CommandLine
import Snippets.Proofs.Failure
import Snippets.Proofs.FileTree.Change
import Snippets.Proofs.FileTree.Descent
import Snippets.Proofs.FileTree.Effect
import Snippets.Proofs.FileTree.Follow
import Snippets.Proofs.FileTree.Join
import Snippets.Proofs.FileTree.Keep
import Snippets.Proofs.FileTree.Linkless
import Snippets.Proofs.FileTree.Node
import Snippets.Proofs.FileTree.WalkOrder
import Snippets.Proofs.Json.RoundTrip
import Snippets.Proofs.Json.Scan
import Snippets.Proofs.Placeholder.Division
import Snippets.Proofs.Placeholder.FixedPoint
import Snippets.Proofs.Placeholder.Index
import Snippets.Proofs.Placeholder.Linewise
import Snippets.Proofs.Placeholder.Malformed
import Snippets.Proofs.Placeholder.Numeral
import Snippets.Proofs.Placeholder.Repetition
import Snippets.Proofs.Placeholder.Scan
import Snippets.Proofs.Placeholder.SinglePass
import Snippets.Proofs.Placeholder.Written
import Snippets.Proofs.Rerun
import Snippets.Proofs.Run
import Snippets.Proofs.Snippet.Arguments
import Snippets.Proofs.Snippet.Format
import Snippets.Proofs.Snippet.Grammar
import Snippets.Proofs.Snippet.Growth
import Snippets.Proofs.Snippet.Line
import Snippets.Proofs.Snippet.LineEnds
import Snippets.Proofs.Snippet.Margin
import Snippets.Proofs.Snippet.Rendering
import Snippets.Proofs.Snippet.Sections
import Snippets.Proofs.Snippet.Stream
import Snippets.Proofs.Text.Lines
import Snippets.Proofs.Text.Replace
import Snippets.Proofs.Text.Utf8
import Snippets.Proofs.Text.Utf8Lines
import Snippets.Proofs.Text.Utf8Order
import Snippets.Proofs.Text.Words
import Snippets.Run
import Snippets.Settings
import Snippets.Snippet.Basic
import Snippets.Snippet.Line
import Snippets.Snippet.Reader
import Snippets.Text.Basic
import Snippets.Text.Blank
import Snippets.Text.DecimalDigit
import Snippets.Text.Lines
import Snippets.Text.Obscure
import Snippets.Text.Order
import Snippets.Text.Quoted
import Snippets.Text.Replace
import Snippets.Text.Utf8
import Snippets.Proofs.Snippet.Grammar
