import FlowTrace.Graph.Codec
import FlowTrace.Table.Lemmas
import FlowTrace.Trace.Codec
import FlowTrace.Value

/-!
# Stored forms are read back

Graphs, proposed connections, steps and values are stored as JSON.  What is stored is read back
unchanged, as long as its doubles are finite: one that is not has no numeral, and its place in the
stored form is empty.

* `Document.list?_toDocument` and `Document.members?_toDocument` — lists and tables are read back if
  their items are;
* `Node.ofDocument?_toJson`, `Connection.ofDocument?_toJson` — the parts of a graph;
* `Element.ofDocument?_toJson` — the parts of a step;
* `stored_forms_read_back` — graphs, the ends of connections, steps and values.
-/

namespace FlowTrace

/-! ## Lists, tables and doubles -/

theorem Json.itemsToDocument_eq_map (items : List Json) :
    Json.itemsToDocument items = items.map Json.toDocument := by
  induction items with
  | nil => rfl
  | cons item items ih => simp [Json.itemsToDocument, ih]

namespace Document

/-- A list is read item by item. -/
theorem list?_toDocument {α β : Type} {toJson : α → Json} {item? : Document → Option β} {f : α → β}
    {items : List α} (hitems : ∀ item ∈ items, item? (toJson item).toDocument = some (f item)) :
    (Json.array (items.map toJson)).toDocument.list? item? = some (items.map f) := by
  simp only [Json.toDocument, Json.itemsToDocument_eq_map, list?]
  induction items with
  | nil => rfl
  | cons item items ih =>
      have hfirst := hitems item List.mem_cons_self
      have hrest := ih fun other hmem => hitems other (List.mem_cons_of_mem _ hmem)
      simp only [List.map_cons, List.mapM_cons, hfirst, hrest]
      rfl

@[simp] theorem members?_toDocument (members : List (String × Json)) :
    (Json.object members).toDocument.members? = some members := by
  simp [Json.toDocument, members?]

@[simp] theorem string?_toDocument (text : String) :
    (Json.string text).toDocument.string? = some text := rfl

@[simp] theorem choice?_toDocument (name : String) :
    (Json.string name).toDocument.choice? = some name := rfl

@[simp] theorem nat?_toDocument (n : Nat) : (Json.ofNat n).toDocument.nat? = some n := by
  simp [Json.ofNat, Json.toDocument, nat?]

/-- A finite double is read back. -/
theorem number?_toDocument {x : Float} (hfinite : x.isFinite = true) :
    (Json.ofFloat x).toDocument.number? = some x := by
  simp [Json.ofFloat, hfinite, Json.toDocument, number?]

end Document

/-! ## Graphs -/

structure Position.IsFinite (position : Position) : Prop where
  x : position.x.isFinite = true
  y : position.y.isFinite = true

def Graph.IsPlaced (graph : Graph) : Prop :=
  ∀ node ∈ graph.nodes, node.position.IsFinite

theorem Position.ofDocument?_toJson {position : Position} (hfinite : position.IsFinite) :
    ofDocument? position.toJson.toDocument = some position := by
  have hx := Document.number?_toDocument hfinite.x
  have hy := Document.number?_toDocument hfinite.y
  simp [ofDocument?, toJson, Json.toDocument, Json.membersToDocument, Document.record?,
    Document.field?, hx, hy]

theorem NodeKind.ofDocument?_tag (kind : NodeKind) :
    ofDocument? (Json.string kind.tag).toDocument = some kind := by
  simp [ofDocument?, ofTag?_tag]

namespace Node

/-- The parameters of a node are read back. -/
theorem parametersOfDocument?_entries (data : Table Json) :
    parametersOfDocument? (Json.object data.entries).toDocument = some data := by
  simp [parametersOfDocument?, Table.ofList_entries]

/-- The fields of a stored node. -/
theorem record?_toJson (node : Node) :
    node.toJson.toDocument.record? [["id"], ["type"], ["position"], ["data"]] =
      some [some (Json.string node.id).toDocument, some (Json.string node.kind.tag).toDocument,
        some node.position.toJson.toDocument, some (Json.object node.data.entries).toDocument] := by
  simp [toJson, Json.toDocument, Json.membersToDocument, Document.record?, Document.field?]

theorem ofDocument?_toJson {node : Node} (hfinite : node.position.IsFinite) :
    ofDocument? node.toJson.toDocument = some node := by
  simp [ofDocument?, record?_toJson, NodeKind.ofDocument?_tag,
    Position.ofDocument?_toJson hfinite, parametersOfDocument?_entries]

end Node

theorem Endpoints.ofDocument?_toJson (ends : Endpoints) :
    ofDocument? ends.toJson.toDocument = some ends := by
  simp [ofDocument?, toJson, members, Json.toDocument, Json.membersToDocument, Document.record?,
    Document.field?, ofFields?, Document.string?]

theorem Connection.ofDocument?_toJson (connection : Connection) :
    ofDocument? connection.toJson.toDocument = some connection := by
  simp [ofDocument?, toJson, Endpoints.members, Json.toDocument, Json.membersToDocument,
    Document.record?, Document.field?, Endpoints.ofFields?, Document.string?]

/-- A graph is read back; the numbers that it has given out are not stored. -/
theorem Graph.ofDocument?_toJson {graph : Graph} (hplaced : graph.IsPlaced) :
    ofDocument? graph.toJson.toDocument =
      some { nodes := graph.nodes, connections := graph.connections } := by
  have hnodes : (Json.array (graph.nodes.map Node.toJson)).toDocument.list? Node.ofDocument? =
      some (graph.nodes.map id) :=
    Document.list?_toDocument fun node hmem => Node.ofDocument?_toJson (hplaced node hmem)
  have hconnections : (Json.array (graph.connections.map Connection.toJson)).toDocument.list?
      Connection.ofDocument? = some (graph.connections.map id) :=
    Document.list?_toDocument fun connection _ => connection.ofDocument?_toJson
  have hfields : graph.toJson.toDocument.record? [["nodes"], ["connections"]] =
      some [some (Json.array (graph.nodes.map Node.toJson)).toDocument,
        some (Json.array (graph.connections.map Connection.toJson)).toDocument] := by
    simp [toJson, Json.toDocument, Json.membersToDocument, Document.record?, Document.field?]
  simp [ofDocument?, hfields, hnodes, hconnections]

/-! ## Steps -/

theorem Element.ofDocument?_toJson {element : Element} (hfinite : element.value.isFinite = true) :
    ofDocument? element.toJson.toDocument = some element := by
  have hvalue := Document.number?_toDocument hfinite
  have hposition := Document.nat?_toDocument element.position
  simp [ofDocument?, toJson, Json.toDocument, Json.membersToDocument, Document.record?,
    Document.field?, hvalue, hposition, ElementState.ofDocument?, Document.choice?,
    ElementState.ofName?_name]

namespace Step

def IsFinite (step : Step) : Prop :=
  ∀ element ∈ step.elements, element.value.isFinite = true

/-- The fields of a stored step; facts are left out where there are none. -/
theorem record?_toJson (step : Step) :
    step.toJson.toDocument.record?
        [["arrayState"], ["highlightedIndices"], ["description"], ["action"], ["metadata"]] =
      some [some (Json.array (step.elements.map Element.toJson)).toDocument,
        some (Json.array (step.highlighted.map Json.ofNat)).toDocument,
        some (Json.string step.description).toDocument,
        some (Json.string step.action.name).toDocument,
        if step.metadata.isEmpty then none
        else some (Json.object step.metadata.entries).toDocument] := by
  cases hempty : step.metadata.isEmpty with
  | true =>
      simp [toJson, hempty, Json.toDocument, Json.membersToDocument, Document.record?,
        Document.field?]
  | false =>
      simp [toJson, hempty, Json.toDocument, Json.membersToDocument, Document.record?,
        Document.field?]

/-- A step that shows finite values is read back. -/
theorem ofDocument?_toJson {step : Step} (hfinite : step.IsFinite) :
    ofDocument? step.toJson.toDocument = some step := by
  have helements : (Json.array (step.elements.map Element.toJson)).toDocument.list?
      Element.ofDocument? = some (step.elements.map id) :=
    Document.list?_toDocument fun element hmem => Element.ofDocument?_toJson (hfinite element hmem)
  have hhighlighted : (Json.array (step.highlighted.map Json.ofNat)).toDocument.list?
      Document.nat? = some (step.highlighted.map id) :=
    Document.list?_toDocument fun position _ => Document.nat?_toDocument position
  have haction : Action.ofDocument? (Json.string step.action.name).toDocument =
      some step.action := by
    simp [Action.ofDocument?, Action.ofName?_name]
  -- A table without entries is the empty one, so leaving it out loses nothing.
  have hmetadata : step.metadata.isEmpty = true → step.metadata = ∅ := by
    intro hempty
    have hentries : step.metadata.entries = [] := by simpa [Table.isEmpty] using hempty
    rw [← Table.ofList_entries step.metadata, hentries]
    rfl
  cases hempty : step.metadata.isEmpty with
  | true =>
      simp [ofDocument?, record?_toJson, hempty, helements, hhighlighted, haction,
        ← hmetadata hempty]
  | false =>
      simp [ofDocument?, record?_toJson, hempty, helements, hhighlighted, haction,
        Table.ofList_entries]

end Step

/-! ## Values -/

namespace Value

def IsFinite : Value → Prop
  | number x => x.isFinite = true
  | bool _ => True
  | array items => ∀ x ∈ items, x.isFinite = true

/-- A value of finite numbers is read back. -/
theorem ofDocument?_toJson {value : Value} (hfinite : value.IsFinite) :
    ofDocument? value.toJson.toDocument = some value := by
  cases value with
  | number x =>
      have hx : x.isFinite = true := hfinite
      simp [toJson, Json.ofFloat, hx, Json.toDocument, ofDocument?]
  | bool b => rfl
  | array items =>
      have hitems : (Json.array (items.toList.map Json.ofFloat)).toDocument.list?
          Document.number? = some (items.toList.map id) :=
        Document.list?_toDocument fun x hmem =>
          Document.number?_toDocument (hfinite x (Array.mem_toList_iff.1 hmem))
      simp only [Json.toDocument, Document.list?] at hitems
      simp [toJson, Json.toDocument, ofDocument?, hitems]

end Value

/-! ## All of them -/

/-- What is stored is read back, if its doubles are finite: a graph with its nodes and connections,
the ends of a connection, a step with or without facts, and a value as the sort of value that it
is. -/
theorem stored_forms_read_back :
    (∀ graph : Graph, graph.IsPlaced →
      ∃ read, Graph.ofDocument? graph.toJson.toDocument = some read ∧
        read.nodes = graph.nodes ∧ read.connections = graph.connections) ∧
    (∀ ends : Endpoints, Endpoints.ofDocument? ends.toJson.toDocument = some ends) ∧
    (∀ step : Step, step.IsFinite → Step.ofDocument? step.toJson.toDocument = some step) ∧
    (∀ value : Value, value.IsFinite →
      Value.ofDocument? value.toJson.toDocument = some value) := by
  refine ⟨?_, Endpoints.ofDocument?_toJson, fun _ => Step.ofDocument?_toJson,
    fun _ => Value.ofDocument?_toJson⟩
  intro graph hplaced
  exact ⟨_, Graph.ofDocument?_toJson hplaced, rfl, rfl⟩

/-- An access with an empty parameter and a nested one, fed by itself. -/
def Graph.annotatedRead : Graph where
  nodes :=
    [{ id := "read"
       kind := .arrayAccess
       position := ⟨1.5, -2.0⟩
       data := .ofList
        [("index", .null), ("notes", .object [("tags", .array [.string "a", .int 3])])] }]
  connections := [⟨⟨"read", "value", "read", "index"⟩, "loop"⟩]

/-- A step without facts that marks a position beyond the array. -/
def Step.bare : Step where
  elements := [⟨0.5, .highlighted, 0⟩, ⟨-3.0, .plain, 1⟩]
  highlighted := [0, 7]
  description := ""
  action := .custom
  metadata := ∅

/-- A nested parameter, a step without facts and a list of two numbers come back as they are. -/
theorem stored_forms_read_back_samples :
    Graph.annotatedRead.IsPlaced ∧
      (∃ read, Graph.ofDocument? Graph.annotatedRead.toJson.toDocument = some read ∧
        read.nodes = Graph.annotatedRead.nodes ∧
        read.connections = Graph.annotatedRead.connections) ∧
      Step.bare.IsFinite ∧ Step.ofDocument? Step.bare.toJson.toDocument = some Step.bare ∧
      (Value.array #[0.5, -3.0]).IsFinite ∧
      Value.ofDocument? (Value.array #[0.5, -3.0]).toJson.toDocument =
        some (.array #[0.5, -3.0]) := by
  have hplaced : Graph.annotatedRead.IsPlaced := by
    intro node hmem
    cases List.mem_singleton.1 hmem
    exact ⟨by decide +kernel, by decide +kernel⟩
  have hstep : Step.bare.IsFinite := by
    unfold Step.IsFinite
    decide +kernel
  have hvalue : (Value.array #[0.5, -3.0]).IsFinite := by
    unfold Value.IsFinite
    decide +kernel
  exact ⟨hplaced, stored_forms_read_back.1 _ hplaced, hstep,
    stored_forms_read_back.2.2.1 _ hstep, hvalue, stored_forms_read_back.2.2.2 _ hvalue⟩

end FlowTrace
