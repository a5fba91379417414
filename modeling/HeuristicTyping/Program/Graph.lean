import HeuristicTyping.Program.Node

/-!
# The program graph

A `Graph` holds the live nodes and variables of the analyzed program, each list in ascending
order of the numbers. Numbers come from counters that only go up, and without a bound, so the number
of a removed node names nothing afterwards. Nodes do not change; all that changes of a variable is
the list of methods seen on it, which only grows.
-/

set_option autoImplicit false

namespace HeuristicTyping

/-- A local variable or parameter. -/
structure Variable where
  id : VarId
  name : String
  file : Option FileId := none
  /-- The methods called on it, in the order first seen. -/
  called : List CalledMethod := []
deriving DecidableEq, Repr

namespace Variable

/-- Notes a call, unless the same call was seen before. -/
def record (var : Variable) (call : CalledMethod) : Variable :=
  if call ∈ var.called then var else { var with called := var.called ++ [call] }

end Variable

/-- The live nodes and variables of a program. -/
structure Graph where
  nodes : List Node := []
  vars : List Variable := []
  nextNode : NodeId := 0
  nextVar : VarId := 0
deriving Inhabited

namespace Graph

def size (graph : Graph) : Nat := graph.nodes.length

def isEmpty (graph : Graph) : Bool := graph.nodes.isEmpty

/-- The numbers of the live nodes, in ascending order. -/
def ids (graph : Graph) : List NodeId := graph.nodes.map Node.id

/-! ### Nodes -/

/-- Adds a node and answers its number. -/
def add (graph : Graph) (kind : NodeKind) (file : Option FileId := none)
    (span : Option Span := none) : NodeId × Graph :=
  (graph.nextNode,
    { graph with
      nodes := graph.nodes ++ [{ id := graph.nextNode, file, span, kind }]
      nextNode := graph.nextNode + 1 })

/-- The live node with a number. -/
def get? (graph : Graph) (id : NodeId) : Option Node :=
  graph.nodes.find? fun node => node.id == id

/-- The kind of the live node with a number. -/
def kind? (graph : Graph) (id : NodeId) : Option NodeKind :=
  (graph.get? id).map Node.kind

/-- The nodes whose types bear on the type of a node. For a block parameter this is the receiver
of its call and not the call; for all others it is what the node stores. -/
def dependencies (graph : Graph) (id : NodeId) : List NodeId :=
  match graph.kind? id with
  | some (.blockParam _ callId) =>
      match graph.kind? callId with
      | some (.call call) => call.receiver.toList
      | _ => []
  | some kind => kind.edges
  | none => []

/-! ### Variables -/

/-- Adds a variable and answers its number. -/
def addVariable (graph : Graph) (name : String) (file : Option FileId := none) : VarId × Graph :=
  (graph.nextVar,
    { graph with
      vars := graph.vars ++ [{ id := graph.nextVar, name, file }]
      nextVar := graph.nextVar + 1 })

/-- The live variable with a number. -/
def getVariable? (graph : Graph) (var : VarId) : Option Variable :=
  graph.vars.find? fun live => live.id == var

/-- Notes a call on a variable. A variable that is gone is left alone. -/
def recordCall (graph : Graph) (var : VarId) (call : CalledMethod) : Graph :=
  { graph with
    vars := graph.vars.map fun live => if live.id = var then live.record call else live }

/-- The methods called on a variable, in the order first seen. -/
def calledMethods (graph : Graph) (var : VarId) : List CalledMethod :=
  match graph.getVariable? var with
  | some live => live.called
  | none => []

/-! ### Files -/

/-- The live nodes of a file. -/
def nodesIn (graph : Graph) (file : FileId) : List Node :=
  graph.nodes.filter fun node => node.file == some file

/-- Removes the nodes and variables of a file and answers the number of nodes removed. -/
def removeFile (graph : Graph) (file : FileId) : Nat × Graph :=
  ((graph.nodesIn file).length,
    { graph with
      nodes := graph.nodes.filter fun node => node.file != some file
      vars := graph.vars.filter fun var => var.file != some file })

/-- Of two located nodes, the one that fits a cursor better: the shorter one, or of two equally
long ones the one with the higher number. -/
def narrower (first second : NodeId × Span) : NodeId × Span :=
  if second.2.length < first.2.length then second
  else if first.2.length < second.2.length then first
  else if first.1 ≤ second.1 then second else first

/-- The innermost node of a file at an offset. -/
def nodeAt? (graph : Graph) (file : FileId) (offset : Nat) : Option NodeId :=
  let covering := (graph.nodesIn file).filterMap fun node => do
    let location ← node.location?
    if location.covers file offset then some (node.id, location.span) else none
  match covering with
  | [] => none
  | first :: rest => some (rest.foldl narrower first).1

end Graph

end HeuristicTyping
