import RemoteTable.Cache.Report
import RemoteTable.Cache.Schedule
import RemoteTable.Main
import RemoteTable.Resolver
import RemoteTable.Scripted
import RemoteTable.Proofs.Cache.Invariant
import RemoteTable.Proofs.Cache.Edits
import RemoteTable.Proofs.Cache.Steps
import RemoteTable.Proofs.Cache.Actions
import RemoteTable.Proofs.Cache.Effects
import RemoteTable.Proofs.Cache.History
import RemoteTable.Proofs.Cache.Coalescing
import RemoteTable.Proofs.Cache.Freshness
import RemoteTable.Proofs.Cache.Turns
import RemoteTable.Proofs.Cache.PendingCells
import RemoteTable.Proofs.Cache.Failures
import RemoteTable.Proofs.Cache.Uses
import RemoteTable.Proofs.Cache.Recency
import RemoteTable.Proofs.Cache.Sequential
import RemoteTable.Proofs.Cache.Counts
import RemoteTable.Proofs.Cache.Accounting
import RemoteTable.Proofs.Members
import RemoteTable.Proofs.Json.Order
import RemoteTable.Proofs.Datum.Json
import RemoteTable.Proofs.Datum.Decoding
import RemoteTable.Proofs.Filter.Wire
import RemoteTable.Proofs.Filter.Combination
import RemoteTable.Proofs.Filter.Decoding
import RemoteTable.Proofs.Exchange
import RemoteTable.Proofs.Selection.Order
import RemoteTable.Proofs.Resolver.Questions
import RemoteTable.Proofs.Response
import RemoteTable.Proofs.Filter.Evaluation
import RemoteTable.Proofs.Selection.History
import RemoteTable.Proofs.Assignment
import RemoteTable.Proofs.Assignment.Accounts
import RemoteTable.Proofs.Selection.Narrowing
import RemoteTable.Proofs.Number.Double
import RemoteTable.Proofs.Settings.Environment
import RemoteTable.Proofs.Table.Filters
import RemoteTable.Proofs.Exchange.Runs
import RemoteTable.Proofs.Response.Readings
import RemoteTable.Proofs.Response.Identifiers
import RemoteTable.Proofs.Response.Decodes
import RemoteTable.Proofs.Exchange.Course
import RemoteTable.Proofs.Exchange.Checked
import RemoteTable.Proofs.Operation
import RemoteTable.Proofs.Operation.Course
import RemoteTable.Proofs.Resolver.Course
import RemoteTable.Proofs.Resolver.Failures
import RemoteTable.Proofs.Bounds
import RemoteTable.Proofs.CommandLine.Arguments
import RemoteTable.Proofs.CommandLine.Requests
import RemoteTable.Proofs.Resolver.Requests
import RemoteTable.Proofs.Resolver.Economy
import RemoteTable.Proofs.Resolver.Memoisation
import RemoteTable.Proofs.Selection.Reordering
import RemoteTable.Proofs.Table.Qualification
import RemoteTable.Proofs.Selection.Columns
import RemoteTable.Proofs.Selection.Distinct
import RemoteTable.Proofs.Selection.OwnRecord
import RemoteTable.Proofs.Selection.Writing
import RemoteTable.Proofs.Selection.Resolution
import RemoteTable.Proofs.Text.FilePath
import RemoteTable.Proofs.Text.Cuts
import RemoteTable.Proofs.Text.Bytes
import RemoteTable.Proofs.Resolver.ShotName
import RemoteTable.Proofs.Response.Records
import RemoteTable.Proofs.Response.Count
import RemoteTable.Proofs.Resolver.Location
import RemoteTable.Proofs.Settings.Names
import RemoteTable.Proofs.Settings.Precedence
import RemoteTable.Proofs.Toml.Lines
import RemoteTable.Proofs.Settings.Saving
import RemoteTable.Proofs.Number.Spacing
import RemoteTable.Proofs.Number.Shortest
import RemoteTable.Proofs.Number.Text
import RemoteTable.Proofs.Json.Printer
import RemoteTable.Proofs.Request
