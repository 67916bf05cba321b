import FlowTrace.CommandLine.Options
import FlowTrace.Execution.Run
import FlowTrace.Graph.Editor
import FlowTrace.Graph.Validation
import FlowTrace.Json.Printer
import FlowTrace.Trace.Codec
import FlowTrace.Trace.Listing

/-!
# What the command line answers

A graph is loaded and validated; findings go to the error output.  A valid graph is then run, and
its trace is printed as text with a summary or as JSON.
-/

namespace FlowTrace

namespace Outcome

def toJson (outcome : Outcome) : Json :=
  .object
    [("steps", .array (outcome.steps.map Step.toJson)),
      ("variables", .object (outcome.bindings.map Value.toJson).entries),
      ("finalArray", .array (outcome.finalArray.toList.map .ofFloat)),
      ("completed", .bool outcome.completed),
      ("error",
        match outcome.error with
        | some error => .string error.message
        | none => .null)]

/-- An outcome as text: the trace and a summary of the run. -/
def summary (outcome : Outcome) : String :=
  let array := ", ".intercalate (outcome.finalArray.toList.map Number.Style.summary.render)
  let errorLine :=
    match outcome.error with
    | some error => s!"Error:            {error.message}\n"
    | none => ""
  Step.listing outcome.steps ++ "\n\n--- Run Summary ---\n" ++
    s!"Steps recorded:   {outcome.steps.length}\n" ++
    s!"Completed:        {outcome.completed}\n" ++ errorLine ++ s!"Final array:      [{array}]\n"

end Outcome

namespace CommandLine

structure Response where
  exit : Nat := 0
  output : String := ""
  errors : String := ""
deriving DecidableEq, Repr

def findingLine (label : String) (node : Option NodeId) (message : String) : String :=
  match node with
  | some id => s!"{label}: [{id}] {message}\n"
  | none => s!"{label}: {message}\n"

/-- The lines about the findings, warnings first. -/
def findings (report : Report) : String :=
  String.join (report.warnings.map fun warning =>
      findingLine "warning" (some warning.node) warning.message) ++
    String.join (report.faults.map fun fault => findingLine "error" fault.node? fault.message)

def failure (errors message : String) : Response where
  exit := 1
  errors := errors ++ s!"\nError: {message}\n"

/-- What is left to do after a graph has been loaded and validated. -/
inductive Plan
  | finished (response : Response)
  | run (graph : Graph) (array : Array Float) (settings : Settings) (format : Format)
      (errors : String)

/-- The array that a run begins with where none is asked for. -/
def standardArray : List Float :=
  [5.0, 3.0, 8.0, 1.0, 9.0, 2.0]

/-- The array that a run begins with; `drawn` is taken where a random one is asked for. -/
def Options.initialArray (options : Options) (drawn : List Float) : List Float :=
  match options.array with
  | some array => array
  | none => if options.randomLength.isSome then drawn else standardArray

/-- The graph in the contents of the file, or what is wrong; `contents` may be the reason why the
file cannot be read. -/
def load (path : String) (contents : Except String String) : Except String Graph :=
  match contents with
  | .ok text => (Graph.ofEditorText text).mapError ImportError.message
  | .error reason => .error s!"Failed to read graph file '{path}': {reason}"

def plan (options : Options) (contents : Except String String) (drawn : List Float) : Plan :=
  match load options.path contents with
  | .error message => .finished (failure "" message)
  | .ok graph =>
      let report := graph.validate
      let errors := findings report
      if !report.isValid then
        .finished (failure errors s!"Graph has {report.faults.length} validation error(s)")
      else if options.validateOnly then
        let counts := s!"{graph.nodes.length} nodes, {graph.connections.length} connections, " ++
          s!"{report.warnings.length} warnings"
        .finished { output := s!"Graph is valid ({counts})\n", errors }
      else
        .run graph (options.initialArray drawn).toArray { stepLimit := options.maxSteps }
          options.format errors

/-- Carries a plan out; gives nothing if the run does not end within a number of moves. -/
def Plan.respond? (moves : Nat) : Plan → Option Response
  | .finished response => some response
  | .run graph array settings format errors => do
      let outcome ← graph.execute? array settings moves
      let output :=
        match format with
        | .json => outcome.toJson.indented ++ "\n"
        | .text => outcome.summary
      return { output, errors }

end CommandLine
end FlowTrace
