import GraphExport.Command.Arguments
import GraphExport.Command.Outcome
import GraphExport.Command.Request
import GraphExport.Command.Setting
import GraphExport.Csv
import GraphExport.Data.FirstSeen
import GraphExport.Data.SortedMap
import GraphExport.Decimal.Binary64
import GraphExport.Decimal.Layout
import GraphExport.Decimal.Shortest
import GraphExport.Element
import GraphExport.Failure
import GraphExport.FileTree
import GraphExport.Job.Config
import GraphExport.Job.Crew
import GraphExport.Job.FullExport
import GraphExport.Job.Load
import GraphExport.Job.NamedQueries
import GraphExport.Job.QueryExport
import GraphExport.Job.Station
import GraphExport.Job.WindowDuty
import GraphExport.Json.Basic
import GraphExport.Json.Decode
import GraphExport.Json.Printer
import GraphExport.Json.Written
import GraphExport.Label.Basic
import GraphExport.Label.Filter
import GraphExport.Label.Json
import GraphExport.Label.Tags
import GraphExport.Main
import GraphExport.Output.Writer
import GraphExport.Output.Line
import GraphExport.Output.Kind
import GraphExport.Output.Pool
import GraphExport.Output.Reconcile
import GraphExport.Proofs.Command.Start
import GraphExport.Proofs.Confined
import GraphExport.Proofs.Crew.Alone
import GraphExport.Proofs.Crew.InOrder
import GraphExport.Proofs.Crew.Shares
import GraphExport.Proofs.Crew.Steps
import GraphExport.Proofs.Csv.FirstLine
import GraphExport.Proofs.Csv.RoundTrip
import GraphExport.Proofs.Data.Maps
import GraphExport.Proofs.Files
import GraphExport.Proofs.Job.Agreement
import GraphExport.Proofs.Job.Deeds
import GraphExport.Proofs.Job.FailedQueries
import GraphExport.Proofs.Job.Fates
import GraphExport.Proofs.Job.Filed
import GraphExport.Proofs.Job.Finished
import GraphExport.Proofs.Job.FullDeeds
import GraphExport.Proofs.Job.Modes
import GraphExport.Proofs.Job.Observations
import GraphExport.Proofs.Job.Output
import GraphExport.Proofs.Job.Phases
import GraphExport.Proofs.Job.Plans
import GraphExport.Proofs.Job.QueryDeeds
import GraphExport.Proofs.Job.QueryNames
import GraphExport.Proofs.Job.Rows
import GraphExport.Proofs.Job.ScalarCells
import GraphExport.Proofs.Job.Scanned
import GraphExport.Proofs.Job.Scribes
import GraphExport.Proofs.Job.Settled
import GraphExport.Proofs.Job.Splitting
import GraphExport.Proofs.Job.Stock
import GraphExport.Proofs.Job.Tables
import GraphExport.Proofs.Job.Took
import GraphExport.Proofs.Job.TwoPass
import GraphExport.Proofs.Json.Decode
import GraphExport.Proofs.Json.OneLine
import GraphExport.Proofs.Label.Canonical
import GraphExport.Proofs.Label.FilterText
import GraphExport.Proofs.Label.Pieces
import GraphExport.Proofs.Label.ReadBack
import GraphExport.Proofs.Label.Tags
import GraphExport.Proofs.Output.Apart
import GraphExport.Proofs.Output.Book
import GraphExport.Proofs.Output.Columns
import GraphExport.Proofs.Output.Created
import GraphExport.Proofs.Output.DataRows
import GraphExport.Proofs.Output.Filing
import GraphExport.Proofs.Output.FinalRows
import GraphExport.Proofs.Output.Gathered
import GraphExport.Proofs.Output.Handles
import GraphExport.Proofs.Output.InLine
import GraphExport.Proofs.Output.Ledger
import GraphExport.Proofs.Output.ListCells
import GraphExport.Proofs.Output.Masters
import GraphExport.Proofs.Output.Merge
import GraphExport.Proofs.Output.Names
import GraphExport.Proofs.Output.OpenFiles
import GraphExport.Proofs.Output.Pool
import GraphExport.Proofs.Output.Realign
import GraphExport.Proofs.Output.Recency
import GraphExport.Proofs.Output.Request
import GraphExport.Proofs.Output.Rewrite
import GraphExport.Proofs.Output.Settled
import GraphExport.Proofs.Output.SharedBudget
import GraphExport.Proofs.Output.Shelf
import GraphExport.Proofs.Output.Tables
import GraphExport.Proofs.Output.Transparency
import GraphExport.Proofs.Schema.Columns
import GraphExport.Proofs.Schema.Discovery
import GraphExport.Proofs.Schema.Growth
import GraphExport.Proofs.Schema.Labelled
import GraphExport.Proofs.Schema.Persisted
import GraphExport.Proofs.Schema.Seeded
import GraphExport.Proofs.Schema.Widening
import GraphExport.Proofs.Source.Exported
import GraphExport.Proofs.Source.Feed
import GraphExport.Proofs.Source.PushDown
import GraphExport.Proofs.Source.QueryText
import GraphExport.Proofs.Source.ReadBack
import GraphExport.Proofs.Source.Recorded
import GraphExport.Proofs.Source.RowLabels
import GraphExport.Proofs.Source.Spliced
import GraphExport.Proofs.Source.WrittenSteps
import GraphExport.Proofs.Text.Cut
import GraphExport.Proofs.Text.Number
import GraphExport.Proofs.Text.Pattern
import GraphExport.Proofs.Window.Coverage
import GraphExport.Proofs.Window.Partition
import GraphExport.Proofs.Window.Positions
import GraphExport.Proofs.Window.Rest
import GraphExport.Route
import GraphExport.Schema.Collection
import GraphExport.Schema.DataType
import GraphExport.Schema.Fragments
import GraphExport.Schema.LabelSchema
import GraphExport.Source.Client
import GraphExport.Source.Graph
import GraphExport.Source.Query
import GraphExport.Source.Traversal
import GraphExport.Stats
import GraphExport.Text.Classes
import GraphExport.Text.Cut
import GraphExport.Text.Number
import GraphExport.Window
import GraphExport.Window.Plan
