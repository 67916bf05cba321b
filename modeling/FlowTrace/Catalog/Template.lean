import FlowTrace.Catalog.Handle
import FlowTrace.Catalog.NodeKind
import FlowTrace.Json.Basic
import FlowTrace.Table

/-!
# The catalog

One template for each kind of node: its label, its handles and the parameters it starts with.
-/

namespace FlowTrace

structure Template where
  label : String
  inputs : List Handle
  outputs : List Handle
  /-- Parameters of a new node. -/
  defaults : Table Json

namespace Template

def input? (template : Template) (id : String) : Option Handle :=
  template.inputs.find? (·.id = id)

def output? (template : Template) (id : String) : Option Handle :=
  template.outputs.find? (·.id = id)

end Template

def execIn : String := "exec-in"

/-- The name of the execution output of nodes that have just one. -/
def execOut : String := "exec-out"

namespace NodeKind

def label : NodeKind → String
  | start => "Start"
  | finish => "End"
  | forLoop => "For Loop"
  | ifCondition => "If Condition"
  | arrayAccess => "Array Access"
  | arrayCompare => "Array Compare"
  | arraySwap => "Array Swap"
  | arrayHighlight => "Array Highlight"
  | variableSet => "Set Variable"
  | variableGet => "Get Variable"
  | counterIncrement => "Increment Counter"
  | updateDescription => "Update Description"
  | pauseExecution => "Pause"

def dataInputs : NodeKind → List (String × HandleKind)
  | forLoop => [("start", .number), ("end", .number)]
  | ifCondition => [("left", .any), ("right", .any)]
  | arrayAccess => [("index", .number), ("array", .array)]
  | arrayCompare | arraySwap => [("i", .number), ("j", .number)]
  | arrayHighlight => [("index", .number)]
  | variableSet | updateDescription => [("value", .any)]
  | start | finish | variableGet | counterIncrement | pauseExecution => []

/-- The inputs of a kind: execution comes first, except into a start node. -/
def inputs (kind : NodeKind) : List Handle :=
  let data := kind.dataInputs.map fun (id, dataKind) => Handle.input id dataKind
  match kind with
  | start => data
  | _ => Handle.input execIn .execution :: data

def outputs : NodeKind → List Handle
  | finish => []
  | forLoop =>
      [.output "body" .execution, .output "complete" .execution, .output "index" .number]
  | ifCondition =>
      [.output "true" .execution, .output "false" .execution, .output "result" .boolean]
  | arrayAccess | counterIncrement => [.output execOut .execution, .output "value" .number]
  | arrayCompare => [.output execOut .execution, .output "result" .boolean]
  | variableSet | variableGet => [.output execOut .execution, .output "value" .any]
  | start | arraySwap | arrayHighlight | updateDescription | pauseExecution =>
      [.output execOut .execution]

def defaults : NodeKind → Table Json
  | start => .ofList [("label", .string "Start")]
  | finish => .ofList [("label", .string "End")]
  | forLoop => .ofList [("variable", .string "i"), ("start", .int 0), ("end", .int 5)]
  | ifCondition => .ofList [("operator", .string "=="), ("left", .int 0), ("right", .int 0)]
  | arrayAccess | arrayHighlight => .ofList [("index", .int 0)]
  | arrayCompare => .ofList [("i", .int 0), ("j", .int 1), ("operator", .string ">")]
  | arraySwap => .ofList [("i", .int 0), ("j", .int 1)]
  | variableSet => .ofList [("name", .string "x"), ("value", .int 0)]
  | variableGet => .ofList [("name", .string "x")]
  | counterIncrement => .ofList [("name", .string "count")]
  | updateDescription => .ofList [("template", .string ""), ("description", .string "")]
  | pauseExecution => .ofList [("duration", .int 1000)]

def template (kind : NodeKind) : Template where
  label := kind.label
  inputs := kind.inputs
  outputs := kind.outputs
  defaults := kind.defaults

end NodeKind
end FlowTrace
