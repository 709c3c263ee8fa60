import StyleTokens.AliasPlan
import StyleTokens.Analysis
import StyleTokens.AnalyzerConfig
import StyleTokens.Artifact
import StyleTokens.Baseline
import StyleTokens.Cluster
import StyleTokens.Command
import StyleTokens.Command.Fill
import StyleTokens.Command.Map
import StyleTokens.Command.Prune
import StyleTokens.Command.Rename
import StyleTokens.Command.Report
import StyleTokens.Command.Scan
import StyleTokens.CommandLine.Choice
import StyleTokens.CommandLine.Parse
import StyleTokens.CommandLine.Word
import StyleTokens.Csv
import StyleTokens.Data.Ascending
import StyleTokens.Data.Entries
import StyleTokens.Decimal.Binary
import StyleTokens.Decimal.Nearest
import StyleTokens.Decimal.Places
import StyleTokens.Decimal.Shortest
import StyleTokens.Distance
import StyleTokens.Extraction
import StyleTokens.Field
import StyleTokens.FileTree
import StyleTokens.Group
import StyleTokens.Inventory
import StyleTokens.Json.Reader
import StyleTokens.Json.Value
import StyleTokens.Json.Writer
import StyleTokens.Main
import StyleTokens.Message
import StyleTokens.Path
import StyleTokens.Proofs.Action
import StyleTokens.Proofs.AliasPlan
import StyleTokens.Proofs.Analysis
import StyleTokens.Proofs.AnalyzerConfig
import StyleTokens.Proofs.Baseline
import StyleTokens.Proofs.Baseline.Csv
import StyleTokens.Proofs.Cluster
import StyleTokens.Proofs.Component
import StyleTokens.Proofs.Consolidation
import StyleTokens.Proofs.Csv
import StyleTokens.Proofs.Data.Ascending
import StyleTokens.Proofs.Data.Entries
import StyleTokens.Proofs.Data.Except
import StyleTokens.Proofs.Distance
import StyleTokens.Proofs.Distance.Edits
import StyleTokens.Proofs.Duplicates
import StyleTokens.Proofs.Extraction
import StyleTokens.Proofs.Field
import StyleTokens.Proofs.FileTree
import StyleTokens.Proofs.FileTree.Edits
import StyleTokens.Proofs.FileTree.Places
import StyleTokens.Proofs.Group
import StyleTokens.Proofs.Inventory
import StyleTokens.Proofs.Json.Document
import StyleTokens.Proofs.Json.Text
import StyleTokens.Proofs.NearGroups
import StyleTokens.Proofs.Path
import StyleTokens.Proofs.Path.Protection
import StyleTokens.Proofs.Prune.Agreement
import StyleTokens.Proofs.Prune.Command
import StyleTokens.Proofs.Prune.Declaration
import StyleTokens.Proofs.Prune.Frame
import StyleTokens.Proofs.Prune.Keepers
import StyleTokens.Proofs.Prune.Lines
import StyleTokens.Proofs.Prune.Plan
import StyleTokens.Proofs.Prune.Record
import StyleTokens.Proofs.Prune.Seams
import StyleTokens.Proofs.Prune.Sheet
import StyleTokens.Proofs.Prune.SideBySide
import StyleTokens.Proofs.Rank
import StyleTokens.Proofs.Rename.Again
import StyleTokens.Proofs.Rename.Agreement
import StyleTokens.Proofs.Rename.Atoms
import StyleTokens.Proofs.Rename.Frame
import StyleTokens.Proofs.Rename.Marks
import StyleTokens.Proofs.Rename.Modules
import StyleTokens.Proofs.Rename.Passes
import StyleTokens.Proofs.Rename.Retold
import StyleTokens.Proofs.Rename.Runs
import StyleTokens.Proofs.Rename.Spelling
import StyleTokens.Proofs.RenameMap
import StyleTokens.Proofs.RenameNotes
import StyleTokens.Proofs.Report.Extracted
import StyleTokens.Proofs.Report.Fill
import StyleTokens.Proofs.Report.Filled
import StyleTokens.Proofs.Report.Image
import StyleTokens.Proofs.Report.Marks
import StyleTokens.Proofs.Report.Placeholders
import StyleTokens.Proofs.Report.RoundTrip
import StyleTokens.Proofs.Stored
import StyleTokens.Proofs.Stylesheet.Address
import StyleTokens.Proofs.Stylesheet.Alike
import StyleTokens.Proofs.Stylesheet.Blocks
import StyleTokens.Proofs.Stylesheet.Braces
import StyleTokens.Proofs.Stylesheet.Comments
import StyleTokens.Proofs.Stylesheet.Extent
import StyleTokens.Proofs.Stylesheet.LineNumbers
import StyleTokens.Proofs.Stylesheet.Run
import StyleTokens.Proofs.Stylesheet.Sheet
import StyleTokens.Proofs.Stylesheet.Statement
import StyleTokens.Proofs.Stylesheet.Tree
import StyleTokens.Proofs.Text.Lines
import StyleTokens.Proofs.Text.Pieces
import StyleTokens.Proofs.Text.Stretches
import StyleTokens.Proofs.Text.Trim
import StyleTokens.Prune
import StyleTokens.Rank
import StyleTokens.Rename
import StyleTokens.RenameMap
import StyleTokens.RenameNotes
import StyleTokens.Report.Fill
import StyleTokens.Report.Layout
import StyleTokens.Report.Mark
import StyleTokens.Report.Reader
import StyleTokens.Settings
import StyleTokens.Stylesheet.ParseError
import StyleTokens.Stylesheet.Scanner
import StyleTokens.Stylesheet.Statement
import StyleTokens.Summary
import StyleTokens.Text.Alphanumeric
import StyleTokens.Text.Basic
import StyleTokens.Text.Blank
import StyleTokens.Text.Digit
import StyleTokens.Text.Integer
import StyleTokens.Text.Lines
import StyleTokens.Text.Lower
import StyleTokens.Text.Numeral
import StyleTokens.Text.Pieces
import StyleTokens.Text.Printable
import StyleTokens.Text.Quoted
import StyleTokens.Text.Ranges
import StyleTokens.Text.Unpaired
import StyleTokens.Timing
import StyleTokens.Token
import StyleTokens.TreePrune
import StyleTokens.TreeRename
import StyleTokens.World
