import HeuristicTyping.Proofs.Renumbering.Composition
import HeuristicTyping.Proofs.Session.Building

/-!
# Scripts and where they are placed

A script is the build of a file with numbers that count from zero, so that it can be placed at any
numbers that a session has come to. Wherever a script is placed, it builds the same up to the
numbers: `Placed` relates what it builds on a blank draft at zero to what it builds elsewhere.
-/

set_option autoImplicit false

namespace HeuristicTyping

/-- All numbers moved up. -/
def Renumbering.shift (nodes : NodeId) (vars : VarId) : Renumbering where
  node id := id + nodes
  var id := id + vars

/-! ### Moving steps and what they build -/

def BuildStep.renumber (numbers : Renumbering) : BuildStep → BuildStep
  | .add kind => .add (kind.renumber numbers)
  | .addAt start stop kind => .addAt start stop (kind.renumber numbers)
  | .recordCall var call => .recordCall (numbers.var var) call
  | .registerMethod node => .registerMethod (numbers.node node)
  | .registerFunction name node => .registerFunction name (numbers.node node)
  | .registerField scope owner name node => .registerField scope owner name (numbers.node node)
  | step => step

/-- The steps of a script at the numbers that a graph has come to. -/
def BuildStep.place (script : List BuildStep) (graph : Graph) : List BuildStep :=
  script.map (BuildStep.renumber (.shift graph.nextNode graph.nextVar))

theorem BuildStep.since_shift (script : List BuildStep) (base : NodeId) (baseVar : VarId) :
    ∀ step ∈ script.map (BuildStep.renumber (.shift base baseVar)), step.Since base baseVar := by
  intro step member
  obtain ⟨original, _, rfl⟩ := List.mem_map.mp member
  constructor
  · intro node named
    cases original <;> cases named <;> exact Nat.le_add_left _ _
  · intro var named
    cases original <;> cases named
    exact Nat.le_add_left _ _

def Node.place (numbers : Renumbering) (file : FileId) (node : Node) : Node :=
  { node with
    id := numbers.node node.id
    file := some file
    kind := node.kind.renumber numbers }

def Variable.place (numbers : Renumbering) (file : FileId) (var : Variable) : Variable :=
  { var with id := numbers.var var.id, file := some file }

theorem Variable.record_place (numbers : Renumbering) (file : FileId) (var : Variable)
    (call : CalledMethod) :
    (var.place numbers file).record call = (var.record call).place numbers file := by
  by_cases seen : call ∈ var.called <;> simp [record, place, seen]

def Registration.place (numbers : Renumbering) (file : FileId) (entry : Registration) :
    Registration where
  node := numbers.node entry.node
  file := some file

namespace Draft

def Change.renumber (numbers : Renumbering) : Change → Change
  | .add kind span => .add (kind.renumber numbers) span
  | .record var call => .record (numbers.var var) call
  | .enroll shelf key node => .enroll shelf key (numbers.node node)
  | change => change

/-- The other draft holds what this one holds, moved up and in its own file. -/
structure Placed (base : NodeId) (baseVar : VarId) (draft other : Draft) : Prop where
  nodes : other.graph.nodes = draft.graph.nodes.map (Node.place (.shift base baseVar) other.file)
  vars : other.graph.vars = draft.graph.vars.map (Variable.place (.shift base baseVar) other.file)
  nextNode : other.graph.nextNode = draft.graph.nextNode + base
  nextVar : other.graph.nextVar = draft.graph.nextVar + baseVar
  entries : ∀ shelf key, other.registries.entries shelf key =
    (draft.registries.entries shelf key).map (Registration.place (.shift base baseVar) other.file)

namespace Placed

variable {base : NodeId} {baseVar : VarId} {draft other : Draft}

theorem kind_eq (placed : Placed base baseVar draft other) (id : NodeId) :
    other.graph.kind? (id + base) =
      (draft.graph.kind? id).map (·.renumber (.shift base baseVar)) := by
  have moved : (fun node : Node => node.id == id + base) ∘
      Node.place (.shift base baseVar) other.file = fun node => node.id == id := by
    funext node
    simp [Node.place, Renumbering.shift]
  simp only [Graph.kind?, Graph.get?, placed.nodes, List.find?_map, moved, Option.map_map]
  rfl

theorem change_eq (placed : Placed base baseVar draft other) (step : BuildStep) :
    other.change? (step.renumber (.shift base baseVar)) =
      (draft.change? step).map (Change.renumber (.shift base baseVar)) := by
  cases step with
  | addAt start stop kind =>
      simp only [BuildStep.renumber, change?, Option.map_map]
      rfl
  | registerMethod node =>
      have kind : other.graph.kind? ((Renumbering.shift base baseVar).node node) = _ :=
        placed.kind_eq node
      simp only [BuildStep.renumber, change?, kind]
      cases draft.graph.kind? node with
      | none => rfl
      | some kind => cases kind <;> rfl
  | _ => rfl

theorem apply_change (placed : Placed base baseVar draft other) (change : Change) :
    Placed base baseVar (draft.apply change)
      (other.apply (change.renumber (.shift base baseVar))) := by
  cases change with
  | nothing => exact placed
  | add kind span =>
      refine { placed with nodes := ?_, nextNode := ?_ }
      · simp [Draft.apply, Change.renumber, Graph.add, placed.nodes, placed.nextNode, Node.place,
          Renumbering.shift]
      · simp only [Draft.apply, Change.renumber, Graph.add, placed.nextNode]
        exact Nat.add_right_comm _ _ _
  | declare name =>
      refine { placed with vars := ?_, nextVar := ?_ }
      · simp [Draft.apply, Change.renumber, Graph.addVariable, placed.vars, placed.nextVar,
          Variable.place, Renumbering.shift]
      · simp only [Draft.apply, Change.renumber, Graph.addVariable, placed.nextVar]
        exact Nat.add_right_comm _ _ _
  | record var call =>
      refine { placed with vars := ?_ }
      have commute : ∀ live : Variable,
          (if (live.place (.shift base baseVar) other.file).id = var + baseVar
            then (live.place (.shift base baseVar) other.file).record call
            else live.place (.shift base baseVar) other.file) =
          (if live.id = var then live.record call else live).place (.shift base baseVar)
            other.file := by
        intro live
        have same : (live.place (.shift base baseVar) other.file).id = var + baseVar ↔
            live.id = var := Nat.add_right_cancel_iff
        by_cases named : live.id = var
        · rw [if_pos (same.mpr named), if_pos named, Variable.record_place]
        · rw [if_neg (fun moved => named (same.mp moved)), if_neg named]
      simp only [Draft.apply, Change.renumber, Graph.recordCall, placed.vars, List.map_map]
      exact List.map_congr_left fun live _ => commute live
  | enroll shelf key node =>
      refine { placed with entries := ?_ }
      intro otherShelf wanted
      simp only [Draft.apply, Change.renumber, Registries.entries_enroll, placed.entries,
        List.map_append]
      split <;> rfl

theorem built (placed : Placed base baseVar draft other) (script : List BuildStep) :
    Placed base baseVar (draft.built script)
      (other.built (script.map (BuildStep.renumber (.shift base baseVar)))) := by
  induction script generalizing draft other with
  | nil => exact placed
  | cons step script ih =>
      rw [List.map_cons, built_cons, built_cons, placed.change_eq step]
      cases draft.change? step with
      | none => exact placed
      | some change => exact ih (placed.apply_change change)

end Placed

/-- What a script builds at zero, it builds at any numbers and in any file. -/
theorem placed_script (script : List BuildStep) (file : FileId) (base : NodeId)
    (baseVar : VarId) :
    Placed base baseVar ((blank 0 0 0).built script)
      ((blank file base baseVar).built
        (script.map (BuildStep.renumber (.shift base baseVar)))) := by
  have start : Placed base baseVar (blank 0 0 0) (blank file base baseVar) :=
    { nodes := rfl
      vars := rfl
      nextNode := (Nat.zero_add _).symm
      nextVar := (Nat.zero_add _).symm
      entries := fun shelf key => by simp [blank] }
  exact start.built script

end Draft

end HeuristicTyping
