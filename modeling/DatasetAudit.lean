import DatasetAudit.Artifact.Diff
import DatasetAudit.Artifact.Finding
import DatasetAudit.Artifact.Index
import DatasetAudit.Artifact.Run
import DatasetAudit.Artifact.Summary
import DatasetAudit.Audit
import DatasetAudit.Calendar
import DatasetAudit.Check.BoxSanity
import DatasetAudit.Check.ClassBalance
import DatasetAudit.Check.Duplicates
import DatasetAudit.Check.Integrity
import DatasetAudit.Check.Kind
import DatasetAudit.Check.Leakage
import DatasetAudit.Check.Outcome
import DatasetAudit.Cluster.Bands
import DatasetAudit.Cluster.Basic
import DatasetAudit.Cluster.DisjointSets
import DatasetAudit.Cluster.Exact
import DatasetAudit.Cluster.Near
import DatasetAudit.Cluster.Set
import DatasetAudit.CommandLine.Arguments
import DatasetAudit.CommandLine.Basic
import DatasetAudit.CommandLine.Files
import DatasetAudit.Config
import DatasetAudit.Decimal.Basic
import DatasetAudit.Decimal.Reading
import DatasetAudit.Decimal.Shortest
import DatasetAudit.Decimal.Text
import DatasetAudit.Diff.Basic
import DatasetAudit.Diff.Text
import DatasetAudit.Digest.Sha256
import DatasetAudit.Distribution.Basic
import DatasetAudit.Distribution.Histogram
import DatasetAudit.Error
import DatasetAudit.FileTree.Basic
import DatasetAudit.FileTree.Change
import DatasetAudit.FileTree.Manifest
import DatasetAudit.FileView
import DatasetAudit.Finding.About
import DatasetAudit.Finding.Basic
import DatasetAudit.Finding.Catalog
import DatasetAudit.Finding.Fingerprint
import DatasetAudit.Grouping
import DatasetAudit.Image.AverageHash
import DatasetAudit.Image.Decoder
import DatasetAudit.Image.Header
import DatasetAudit.Index.Basic
import DatasetAudit.Index.Build
import DatasetAudit.Index.Cache
import DatasetAudit.Index.Entry
import DatasetAudit.Json.Basic
import DatasetAudit.Json.Parser
import DatasetAudit.Json.Printer
import DatasetAudit.Json.Record
import DatasetAudit.Labels
import DatasetAudit.Layout
import DatasetAudit.Main
import DatasetAudit.Path
import DatasetAudit.Report.Basic
import DatasetAudit.Report.Counts
import DatasetAudit.Report.Summary
import DatasetAudit.Report.Text
import DatasetAudit.Scan
import DatasetAudit.Severity
import DatasetAudit.Split
import DatasetAudit.Text.Blank
import DatasetAudit.Text.Column
import DatasetAudit.Text.Hex
import DatasetAudit.Text.Utf8
import DatasetAudit.Yaml.Cursor
import DatasetAudit.Yaml.Node
import DatasetAudit.Yaml.Scalar
import DatasetAudit.Yaml.Settings
import DatasetAudit.Yaml.Token
import DatasetAudit.Yaml.Value
import DatasetAudit.Yaml.Word
import DatasetAudit.Proofs.Cluster.Bands
import DatasetAudit.Proofs.Cluster.DisjointSets
import DatasetAudit.Proofs.Cluster.Drift
import DatasetAudit.Proofs.Cluster.Near
import DatasetAudit.Proofs.Index.Keys
import DatasetAudit.Proofs.Index.Sample
import DatasetAudit.Proofs.Check.Leakage
import DatasetAudit.Proofs.Check.ExactLeakage
import DatasetAudit.Proofs.Check.NearLeakage
import DatasetAudit.Proofs.Index.Basis
import DatasetAudit.Proofs.Index.Build
import DatasetAudit.Proofs.Index.History
import DatasetAudit.Proofs.Index.Order
import DatasetAudit.Proofs.Finding.Order
import DatasetAudit.Proofs.Check.Origin
import DatasetAudit.Proofs.Report.Counts
import DatasetAudit.Proofs.Report.Agreement
import DatasetAudit.Proofs.Cluster.Arrival
import DatasetAudit.Proofs.Check.Arrival
import DatasetAudit.Proofs.Report.Arrival
import DatasetAudit.Proofs.Decimal.Binary64
import DatasetAudit.Proofs.Decimal.Dyadic
import DatasetAudit.Proofs.Decimal.Finite
import DatasetAudit.Proofs.Decimal.Shortest
import DatasetAudit.Proofs.Decimal.Text
import DatasetAudit.Proofs.Json.Number
import DatasetAudit.Proofs.Json.String
import DatasetAudit.Proofs.Json.Document
import DatasetAudit.Proofs.Json.Record
import DatasetAudit.Proofs.Artifact.Summary
import DatasetAudit.Proofs.Artifact.Index
import DatasetAudit.Proofs.Artifact.Reading
import DatasetAudit.Proofs.Diff.Partition
import DatasetAudit.Proofs.Artifact.Refusal
import DatasetAudit.Proofs.Path.Text
import DatasetAudit.Proofs.FileTree.Basic
import DatasetAudit.Proofs.FileTree.Change
import DatasetAudit.Proofs.Artifact.Run
import DatasetAudit.Proofs.Index.Reload
import DatasetAudit.Proofs.Scan.Layout
import DatasetAudit.Proofs.Scan.Files
import DatasetAudit.Proofs.Scan.Unchanged
import DatasetAudit.Proofs.CommandLine.Rerun
import DatasetAudit.Proofs.Finding.Subject
import DatasetAudit.Proofs.Check.Apart
import DatasetAudit.Proofs.Check.Distinct
import DatasetAudit.Proofs.Scan.Named
import DatasetAudit.Proofs.Report.Distinct
import DatasetAudit.Proofs.Check.Independence
import DatasetAudit.Proofs.Index.Facts
import DatasetAudit.Proofs.Path.Extension
import DatasetAudit.Proofs.Scan.Complete
import DatasetAudit.Proofs.Artifact.Report
import DatasetAudit.Proofs.CommandLine.Arguments
import DatasetAudit.Proofs.CommandLine.Delivery
import DatasetAudit.Proofs.Text.Lines
import DatasetAudit.Proofs.Labels.Lines
import DatasetAudit.Proofs.Check.Line
import DatasetAudit.Proofs.Scan.LabelFiles
import DatasetAudit.Proofs.Scan.Selection
import DatasetAudit.Proofs.Index.Selection
import DatasetAudit.Proofs.Path.Canonical
import DatasetAudit.Proofs.Check.Duplicates
import DatasetAudit.Proofs.Check.ClassCounts
import DatasetAudit.Proofs.Report.Dataset
import DatasetAudit.Proofs.Report.Explanation
import DatasetAudit.Proofs.Check.ClassNames
import DatasetAudit.Proofs.Image.Segments
import DatasetAudit.Proofs.Image.Padding
import DatasetAudit.Proofs.Image.AverageHash
import DatasetAudit.Proofs.Artifact.Unfinished
import DatasetAudit.Proofs.Cluster.Partition
import DatasetAudit.Proofs.Cluster.Buckets
