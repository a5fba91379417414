import HeuristicTyping.Program.Graph
import HeuristicTyping.Registry.Basic
import HeuristicTyping.Settings.Basic
import HeuristicTyping.Inference.Inquiry

/-!
# The analyzed project

What the rules of inference may read without asking: the program graph, what is registered, and
the settings. Look-ups that go through ancestors ask for these only when the owner itself has
nothing registered.
-/

set_option autoImplicit false

namespace HeuristicTyping

/-- A program as inference sees it. -/
structure Project where
  graph : Graph := {}
  registries : Registries := {}
  settings : Settings := {}
deriving Inhabited

/-- The node registered for a member of the owner or of its nearest ancestor that has one. -/
def RegistryTable.find (table : RegistryTable) (owner name : String) :
    Inquiry (Option NodeId) := do
  match table.get? owner name with
  | some node => return some node
  | none =>
      let ancestors ← Inquiry.ancestors owner
      return table.inherited? owner name ancestors

namespace Project

/-- The definition of a method of a type or of its nearest ancestor that has one. -/
def findMethod (project : Project) (owner name : String) (typeLevel : Bool) :
    Inquiry (Option NodeId) :=
  (project.registries.methods.table typeLevel).find owner name

/-- The kinds of those parameters that are parameter nodes. -/
def paramKinds (project : Project) (params : List NodeId) : List ParamKind :=
  params.filterMap fun param =>
    match project.graph.kind? param with
    | some (.param _ kind _ _) => some kind
    | _ => none

/-- The arity of a definition, if the node is one. -/
def definitionArity? (project : Project) (node : NodeId) : Option Arity :=
  match project.graph.kind? node with
  | some (.definition method) => some (.ofKinds (project.paramKinds method.params))
  | _ => none

end Project

end HeuristicTyping
