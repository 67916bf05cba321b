import FlowTrace.Catalog.Handle
import FlowTrace.Catalog.NodeKind
import FlowTrace.Catalog.Template
import FlowTrace.CommandLine.Options
import FlowTrace.CommandLine.Response
import FlowTrace.Comparator
import FlowTrace.Execution.Context
import FlowTrace.Execution.Effect
import FlowTrace.Execution.Index
import FlowTrace.Execution.Narration
import FlowTrace.Execution.Resolution
import FlowTrace.Execution.Run
import FlowTrace.Graph.Basic
import FlowTrace.Graph.Codec
import FlowTrace.Graph.Editing
import FlowTrace.Graph.Editor
import FlowTrace.Graph.Reachability
import FlowTrace.Graph.Rejection
import FlowTrace.Graph.Validation
import FlowTrace.Json.Basic
import FlowTrace.Json.Document
import FlowTrace.Json.Parser
import FlowTrace.Json.Printer
import FlowTrace.Json.Token
import FlowTrace.Main
import FlowTrace.Number.Binary
import FlowTrace.Number.Numeral
import FlowTrace.Number.Scaled
import FlowTrace.Number.Shortest
import FlowTrace.Number.Style
import FlowTrace.Proofs.Execution.Effects
import FlowTrace.Proofs.Execution.Ending
import FlowTrace.Proofs.Execution.LoopStack
import FlowTrace.Proofs.Execution.Moves
import FlowTrace.Proofs.Execution.Nesting
import FlowTrace.Proofs.Execution.Termination
import FlowTrace.Proofs.Execution.Trail
import FlowTrace.Proofs.Graph.Lookup
import FlowTrace.Proofs.Graph.Wiring
import FlowTrace.Proofs.Trace.Facts
import FlowTrace.Proofs.Trace.Replay
import FlowTrace.Table
import FlowTrace.Table.Lemmas
import FlowTrace.Text.Blank
import FlowTrace.Trace.Codec
import FlowTrace.Trace.Draft
import FlowTrace.Trace.Listing
import FlowTrace.Trace.Step
import FlowTrace.Value
import FlowTrace.Proofs.Execution.MissingNode
import FlowTrace.Proofs.Execution.StepLimit
import FlowTrace.Proofs.Execution.Agreement
import FlowTrace.Proofs.Execution.Unreachable
import FlowTrace.Proofs.Graph.Authoring
import FlowTrace.Proofs.Graph.Rebuilding
import FlowTrace.Proofs.Execution.Redrawing
import FlowTrace.Proofs.Execution.Reading
import FlowTrace.Proofs.Trace.Reentry
import FlowTrace.Proofs.Trace.Variables
import FlowTrace.Proofs.Execution.KeptReads
import FlowTrace.Proofs.Json.Numbers
import FlowTrace.Proofs.StoredForms
import FlowTrace.Proofs.Graph.Reimport
import FlowTrace.Proofs.Execution.Outputs
import FlowTrace.Proofs.Execution.LoopTurns
import FlowTrace.Proofs.Graph.FilledIds
import FlowTrace.Proofs.Execution.Recording
import FlowTrace.Proofs.Execution.Literals
import FlowTrace.Proofs.Trace.Summaries
import FlowTrace.Proofs.Graph.Importing
import FlowTrace.Proofs.Graph.Search
import FlowTrace.Proofs.Graph.Undoing
import FlowTrace.Proofs.Execution.Placeholders
import FlowTrace.Proofs.Execution.Dispatch
import FlowTrace.Proofs.Execution.Unsupplied
import FlowTrace.Proofs.Execution.ReadDepth
import FlowTrace.Proofs.Trace.Pictures
