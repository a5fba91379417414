import HeuristicTyping.Inference.Rules
import HeuristicTyping.Text.Json

/-!
# Dumps

A dump lists nodes with what they depend on and what is found for them, as lines of text or as a
JSON document.
-/

set_option autoImplicit false

namespace HeuristicTyping

/-- What a dump says about a node. -/
structure NodeDump where
  id : NodeId
  kind : String
  name : Option String
  dependencies : List NodeId
  span : Option Span
  found : Inference

namespace NodeDump

/-- A line of text about a node. -/
def render (node : NodeDump) : String :=
  let name :=
    match node.name with
    | some name => " " ++ name
    | none => ""
  let dependencies :=
    if node.dependencies.isEmpty then ""
    else " [" ++ ", ".intercalate (node.dependencies.map fun id => "#" ++ toString id) ++ "]"
  "#" ++ toString node.id ++ " " ++ node.kind ++ name ++ dependencies ++ ": " ++
    node.found.type.render ++ " (" ++ node.found.reason.message ++ ")"

/-- What a dump says about a node, as a record. A name or a span that is not known is left out. -/
def json (node : NodeDump) : Text.Json :=
  let name := node.name.toList.map fun name => ("name", Text.Json.text name)
  let span := node.span.toList.map fun span =>
    ("range", Text.Json.list [.number span.start, .number span.stop])
  .record
    ([("id", .number node.id), ("kind", .text node.kind)] ++ name ++
      [("deps", .list (node.dependencies.map .number))] ++ span ++
      [("ty", .text node.found.type.render),
        ("reason", .text node.found.reason.message),
        ("provenance", .text node.found.provenance.label)])

end NodeDump

/-- The nodes of a dump, in order. -/
structure GraphDump where
  nodes : List NodeDump := []

namespace GraphDump

def size (dump : GraphDump) : Nat := dump.nodes.length

def isEmpty (dump : GraphDump) : Bool := dump.nodes.isEmpty

/-- A line for each node. -/
def render (dump : GraphDump) : String :=
  "\n".intercalate (dump.nodes.map NodeDump.render)

/-- The text of the dump as a JSON document. -/
def renderJson (dump : GraphDump) : String :=
  (Text.Json.record [("nodes", .list (dump.nodes.map NodeDump.json))]).render

end GraphDump

namespace Project

/-- What a dump says about a node, if the node is live. -/
def dumpNode (project : Project) (id : NodeId) : Inquiry (Option NodeDump) := do
  match project.graph.get? id with
  | none => return none
  | some node =>
      let found ← Inquiry.inferNode id
      return some {
        id
        kind := node.kind.label
        name := node.kind.name?
        dependencies := project.graph.dependencies id
        span := node.span
        found }

/-- The dump of the live nodes among the given ones, in the given order. -/
def dump (project : Project) (ids : List NodeId) : Inquiry GraphDump := do
  return { nodes := ← Inquiry.eachSome project.dumpNode ids }

end Project

end HeuristicTyping
