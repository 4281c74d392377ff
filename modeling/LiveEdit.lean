import LiveEdit.Broadcast
import LiveEdit.ControlPlane.Counters
import LiveEdit.ControlPlane.Router
import LiveEdit.Diagnostic.Basic
import LiveEdit.Diagnostic.Descriptor
import LiveEdit.Diagnostic.Merge
import LiveEdit.Diagnostic.Template
import LiveEdit.Digest
import LiveEdit.Engine.Checksum
import LiveEdit.Engine.Marker
import LiveEdit.Engine.Update
import LiveEdit.Json.Basic
import LiveEdit.Json.Parser
import LiveEdit.Json.Printer
import LiveEdit.Kernel.Launch
import LiveEdit.Kernel.Play
import LiveEdit.Kernel.Rehearsal
import LiveEdit.Kernel.Script
import LiveEdit.Kernel.World
import LiveEdit.Log.Audit
import LiveEdit.Log.Directive
import LiveEdit.Log.Filter
import LiveEdit.Log.Record
import LiveEdit.Main
import LiveEdit.Net.Address
import LiveEdit.Net.Endpoint
import LiveEdit.Net.Uri
import LiveEdit.Number.Binary64
import LiveEdit.Number.Decimal
import LiveEdit.Number.Numeral
import LiveEdit.Order.Sorting
import LiveEdit.Proofs.Broadcast.Receipts
import LiveEdit.Proofs.Diagnostic.Report
import LiveEdit.Proofs.Diagnostic.Substitution
import LiveEdit.Proofs.Engine.Classification
import LiveEdit.Proofs.Engine.Sessions
import LiveEdit.Proofs.Engine.SyntaxError
import LiveEdit.Proofs.Kernel.Agreement
import LiveEdit.Proofs.Kernel.Convergence
import LiveEdit.Proofs.Kernel.Detection
import LiveEdit.Proofs.Kernel.Drift
import LiveEdit.Proofs.Kernel.Inert
import LiveEdit.Proofs.Kernel.Interjection
import LiveEdit.Proofs.Kernel.Late
import LiveEdit.Proofs.Kernel.Ledger
import LiveEdit.Proofs.Kernel.Listening
import LiveEdit.Proofs.Kernel.OpenWorld
import LiveEdit.Proofs.Kernel.Play
import LiveEdit.Proofs.Kernel.ProcessImage
import LiveEdit.Proofs.Kernel.Progress
import LiveEdit.Proofs.Kernel.Publication
import LiveEdit.Proofs.Kernel.Registry
import LiveEdit.Proofs.Kernel.Reproduction
import LiveEdit.Proofs.Kernel.Run
import LiveEdit.Proofs.Kernel.Service
import LiveEdit.Proofs.Kernel.Serving
import LiveEdit.Proofs.Kernel.Versions
import LiveEdit.Proofs.Kernel.Visit
import LiveEdit.Proofs.Order.Stability
import LiveEdit.Proofs.Session.Awaiting
import LiveEdit.Proofs.Session.Cancellation
import LiveEdit.Proofs.Session.Containment
import LiveEdit.Proofs.Session.Course
import LiveEdit.Proofs.Session.Departure
import LiveEdit.Proofs.Session.Disabled
import LiveEdit.Proofs.Session.Ending
import LiveEdit.Proofs.Session.Ends
import LiveEdit.Proofs.Session.EventLog
import LiveEdit.Proofs.Session.Log
import LiveEdit.Proofs.Session.Mirror
import LiveEdit.Proofs.Session.Notices
import LiveEdit.Proofs.Session.Pending
import LiveEdit.Proofs.Session.Provenance
import LiveEdit.Proofs.Session.Record
import LiveEdit.Proofs.Session.Run
import LiveEdit.Proofs.Session.Serial
import LiveEdit.Proofs.Session.Serializability
import LiveEdit.Proofs.Session.Token
import LiveEdit.Proofs.Session.Traced
import LiveEdit.Proofs.Session.Turns
import LiveEdit.Proofs.Source.Changes
import LiveEdit.Proofs.Source.Contents
import LiveEdit.Proofs.Source.Detection
import LiveEdit.Proofs.Source.Exactness
import LiveEdit.Proofs.Source.Lookup
import LiveEdit.Proofs.Source.Store
import LiveEdit.Proofs.Source.Visibility
import LiveEdit.Proofs.Text.ByteOrder
import LiveEdit.Proofs.Text.Occurrence
import LiveEdit.Proofs.Text.Place
import LiveEdit.Proofs.Text.Utf8
import LiveEdit.Proofs.Tree.Admission
import LiveEdit.Proofs.Tree.Collision
import LiveEdit.Proofs.Tree.Path
import LiveEdit.Proofs.Tree.Proper
import LiveEdit.Proofs.Tree.Scan
import LiveEdit.Proofs.Tree.Walk
import LiveEdit.Session.Bridge
import LiveEdit.Session.Client
import LiveEdit.Session.Event
import LiveEdit.Session.Fault
import LiveEdit.Session.Gate
import LiveEdit.Session.Plan
import LiveEdit.Session.State
import LiveEdit.Session.System
import LiveEdit.Settings.Basic
import LiveEdit.Settings.Environment
import LiveEdit.Settings.Reading
import LiveEdit.Source.Change
import LiveEdit.Source.Detection
import LiveEdit.Source.Document
import LiveEdit.Source.DocumentSet
import LiveEdit.Source.Path
import LiveEdit.Source.Registry
import LiveEdit.Source.Snapshot
import LiveEdit.Source.Store
import LiveEdit.Text.Alphanumeric
import LiveEdit.Text.CharClass
import LiveEdit.Text.Hex
import LiveEdit.Text.Pattern.Basic
import LiveEdit.Text.Pattern.Parser
import LiveEdit.Text.Utf8
import LiveEdit.Text.Uuid
import LiveEdit.Tree.Edit
import LiveEdit.Tree.Node
import LiveEdit.Tree.Resolve
import LiveEdit.Tree.Scan
import LiveEdit.Watch.Tick
