import FlowTally.Main
import FlowTally.Record.Summary
import FlowTally.Proofs.Layout.Columns
import FlowTally.Proofs.Aggregator.Table
import FlowTally.Proofs.Aggregator.Derived
import FlowTally.Proofs.Aggregator.Operation
import FlowTally.Proofs.Aggregator.Grouping
import FlowTally.Proofs.Aggregator.Fit
import FlowTally.Proofs.Decimal.Digits
import FlowTally.Proofs.Decimal.PlainText
import FlowTally.Proofs.Address.ReadBack
import FlowTally.Proofs.Time.Calendar
import FlowTally.Proofs.Time.KeyText
import FlowTally.Proofs.Time.Settled
import FlowTally.Proofs.Value.KeyText
import FlowTally.Proofs.Value.Merge
import FlowTally.Proofs.Aggregator.Counting
import FlowTally.Proofs.Aggregator.Kept
import FlowTally.Proofs.Aggregator.WriteOrder
import FlowTally.Proofs.Aggregator.Transparent
import FlowTally.Proofs.Aggregator.Sharding
import FlowTally.Proofs.Aggregator.Walk
import FlowTally.Proofs.Layout.Registration
import FlowTally.Proofs.Aggregator.Conservation
import FlowTally.Proofs.Json.ReadBack
import FlowTally.Proofs.Record.ReadBack
import FlowTally.Proofs.Aggregator.Objects
import FlowTally.Proofs.Aggregator.Cleared
import FlowTally.Proofs.Aggregator.Mirrored
import FlowTally.Proofs.Aggregator.Ingestion
import FlowTally.Proofs.Config.Applied
import FlowTally.Proofs.Aggregator.SortedKeys
import FlowTally.Proofs.Aggregator.Carried
import FlowTally.Proofs.Aggregator.Formulas
import FlowTally.Proofs.Aggregator.ShownKeys
import FlowTally.Proofs.Text.Encoded
import FlowTally.Proofs.Json.Written
import FlowTally.Proofs.Record.Named
import FlowTally.Proofs.Aggregator.Accounting
import FlowTally.Proofs.Aggregator.Configured
import FlowTally.Proofs.Aggregator.Cursors
import FlowTally.Proofs.Address.Truncation
import FlowTally.Proofs.Record.HexText
import FlowTally.Proofs.Value.Unbroken
import FlowTally.Proofs.Aggregator.TableLines
import FlowTally.Proofs.Decimal.Rounding
import FlowTally.Proofs.Json.Scale
import FlowTally.Proofs.Json.NumberText
import FlowTally.Proofs.Json.FloatText
import FlowTally.Proofs.Aggregator.ObjectLines
import FlowTally.Proofs.Decimal.TotalOrder
import FlowTally.Proofs.Value.TotalOrder
import FlowTally.Proofs.Record.Calls
