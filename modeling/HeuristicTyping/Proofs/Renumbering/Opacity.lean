import HeuristicTyping.Proofs.Renumbering.Resolver
import HeuristicTyping.Proofs.Resolver.History
import Mathlib.Data.List.Sort

/-!
# Opaque numbers

New numbers are given to all nodes of a project at once: to the nodes themselves, to whatever they
store and to what is registered. The nodes are brought into the order of the new numbers, so they
may change places. Look-ups by number find what they found before, and with that everything that is
found is the same. Only the number of a dangling node shows in a finding, and there it is the new
one. Cycles, the order of the nodes and the limit on the depth make no difference.
-/

set_option autoImplicit false

namespace HeuristicTyping

/-- New numbers for nodes. Variables keep theirs. -/
def Renumbering.ofNodes (rename : NodeId → NodeId) : Renumbering where
  node := rename
  var var := var

def Node.renumber (numbers : Renumbering) (node : Node) : Node :=
  { node with id := numbers.node node.id, kind := node.kind.renumber numbers }

/-! ### Graphs -/

namespace Graph

/-- The graph with new numbers for its nodes, in ascending order of these. -/
def renumberNodes (rename : NodeId → NodeId) (graph : Graph) : Graph :=
  { graph with
    nodes := (graph.nodes.map (Node.renumber (.ofNodes rename))).insertionSort
      fun first second => first.id ≤ second.id
    nextNode := (graph.ids.map fun id => rename id + 1).foldr max 0 }

theorem ascending_renumberNodes (rename : NodeId → NodeId) (graph : Graph) :
    (graph.renumberNodes rename).ids.Pairwise (· ≤ ·) := by
  have total : Std.Total fun first second : Node => first.id ≤ second.id :=
    ⟨fun first second => Nat.le_total first.id second.id⟩
  have trans : IsTrans Node fun first second => first.id ≤ second.id :=
    ⟨fun _ _ _ => Nat.le_trans⟩
  exact List.pairwise_map.mpr (List.pairwise_insertionSort _ _)

/-- Nodes of one number keep their order when nodes are sorted by their numbers. -/
theorem filter_sorted (id : NodeId) (nodes : List Node) :
    (nodes.insertionSort fun first second => first.id ≤ second.id).filter (·.id == id) =
      nodes.filter (·.id == id) := by
  let ordered : Node → Node → Prop := fun first second => first.id ≤ second.id
  have alike : (nodes.filter (·.id == id)).Pairwise ordered := by
    apply List.pairwise_of_forall_mem_list
    intro first among second also
    have left : first.id = id := by simpa using (List.mem_filter.mp among).2
    have right : second.id = id := by simpa using (List.mem_filter.mp also).2
    exact Nat.le_of_eq (left.trans right.symm)
  have within : (nodes.filter (·.id == id)).Sublist (nodes.insertionSort ordered) :=
    List.sublist_insertionSort alike List.filter_sublist
  have own := within.filter (·.id == id)
  rw [List.filter_filter] at own
  simp only [Bool.and_self] at own
  exact (own.eq_of_length
    ((List.perm_insertionSort ordered nodes).filter (·.id == id)).length_eq.symm).symm

theorem get?_renumberNodes {rename : NodeId → NodeId} (injective : Function.Injective rename)
    (graph : Graph) (id : NodeId) :
    (graph.renumberNodes rename).get? (rename id) =
      (graph.get? id).map (Node.renumber (.ofNodes rename)) := by
  have same : ((fun node : Node => node.id == rename id) ∘ Node.renumber (.ofNodes rename)) =
      fun node => node.id == id := by
    funext node
    simp [Node.renumber, Renumbering.ofNodes, injective.eq_iff]
  simp only [get?, ← List.head?_filter]
  rw [renumberNodes, filter_sorted, List.filter_map, same, List.head?_map]

theorem kind?_renumberNodes {rename : NodeId → NodeId} (injective : Function.Injective rename)
    (graph : Graph) (id : NodeId) :
    (graph.renumberNodes rename).kind? (rename id) =
      (graph.kind? id).map (NodeKind.renumber (.ofNodes rename)) := by
  rw [kind?, kind?, get?_renumberNodes injective, Option.map_map, Option.map_map]
  rfl

end Graph

/-! ### Registries -/

def Registration.renumber (rename : NodeId → NodeId) (entry : Registration) : Registration :=
  { entry with node := rename entry.node }

namespace RegistryTable

def renumber (rename : NodeId → NodeId) (table : RegistryTable) : RegistryTable :=
  { table with
    rows := table.rows.map fun row => (row.1, row.2.map (Registration.renumber rename)) }

theorem registrations_renumber (rename : NodeId → NodeId) (table : RegistryTable)
    (key : MemberKey) :
    (table.renumber rename).registrations key =
      (table.registrations key).map (Registration.renumber rename) := by
  simp only [registrations, renumber]
  induction table.rows with
  | nil => rfl
  | cons row rows ih =>
      obtain ⟨held, entries⟩ := row
      by_cases same : key = held
      · simp [same]
      · have missed : (key == held) = false := by simpa using same
        simpa only [List.map_cons, List.lookup_cons, missed] using ih

theorem get?_renumber (rename : NodeId → NodeId) (table : RegistryTable) (owner name : String) :
    (table.renumber rename).get? owner name = (table.get? owner name).map rename := by
  have precedence : (table.renumber rename).precedence = table.precedence := rfl
  rw [get?_eq_winner, get?_eq_winner, registrations_renumber, precedence]
  cases table.precedence <;>
    simp [Precedence.winner, Registration.renumber, Function.comp_def]

end RegistryTable

namespace Registries

def renumber (rename : NodeId → NodeId) (registries : Registries) : Registries where
  methods := {
    ofInstances := registries.methods.ofInstances.renumber rename
    ofTypes := registries.methods.ofTypes.renumber rename
    functions := registries.methods.functions.renumber rename }
  instanceFields := registries.instanceFields.renumber rename
  typeFields := registries.typeFields.renumber rename

theorem table_renumber (rename : NodeId → NodeId) (registries : Registries) (shelf : Shelf) :
    (registries.renumber rename).table shelf = (registries.table shelf).renumber rename := by
  rcases shelf with (_ | _) | _ | (_ | _) <;> rfl

end Registries

/-! ### Projects -/

namespace Project

def renumber (rename : NodeId → NodeId) (project : Project) : Project :=
  { project with
    graph := project.graph.renumberNodes rename
    registries := project.registries.renumber rename }

theorem carries_renumber {rename : NodeId → NodeId} (injective : Function.Injective rename)
    (project : Project) :
    project.Carries (.ofNodes rename) (fun _ => True) (project.renumber rename) where
  settings := rfl
  injective _ _ same := injective same
  kinds _ := Graph.kind?_renumberNodes injective project.graph _
  calls _ _ _ _ := rfl
  closed _ _ _ _ := trivial
  lookups shelf owner name := by
    have table := Registries.table_renumber rename project.registries shelf
    exact (congrArg (fun table => table.get? owner name) table).trans
      (RegistryTable.get?_renumber rename _ owner name)
  registered _ := trivial

variable {numbers : Renumbering} {within : NodeId → Prop} {project other : Project}

theorem Carries.signatureParam_corresponds (carries : project.Carries numbers within other)
    {id : NodeId} (inside : within id) :
    Inquiry.Corresponds numbers within Eq (project.signatureParam id)
      (other.signatureParam (numbers.node id)) := by
  unfold signatureParam
  rw [carries.kinds inside]
  cases project.graph.kind? id with
  | none => exact .done rfl
  | some kind =>
      cases kind with
      | param name paramKind default var =>
          refine Inquiry.corresponds_bind (Inquiry.corresponds_typeOf inside) ?_
          rintro type _ rfl
          exact .done rfl
      | _ => exact .done rfl

theorem Carries.signatureOf_corresponds (carries : project.Carries numbers within other)
    {id : NodeId} (inside : within id) :
    Inquiry.Corresponds numbers within Eq (project.signatureOf id)
      (other.signatureOf (numbers.node id)) := by
  unfold signatureOf
  rw [carries.kinds inside]
  cases held : project.graph.kind? id with
  | none => exact .done rfl
  | some kind =>
      cases kind with
      | definition method =>
          have params : ∀ param ∈ method.params, within param := fun param member =>
            carries.closed inside held param (List.mem_append_right _ member)
          refine Inquiry.corresponds_bind (Inquiry.corresponds_eachSome fun param member =>
            carries.signatureParam_corresponds (params param member)) ?_
          rintro found _ rfl
          refine Inquiry.corresponds_bind (Inquiry.corresponds_typeOf inside) ?_
          rintro result _ rfl
          exact .done rfl
      | _ => exact .done rfl

end Project

namespace Env

def renumber (rename : NodeId → NodeId) (env : Env) : Env :=
  { env with project := env.project.renumber rename }

theorem signature_renumber {numbers : Renumbering} {within : NodeId → Prop} {env other : Env}
    (carries : env.project.Carries numbers within other.project)
    (same : other.surroundings = env.surroundings) {id : NodeId} (inside : within id) :
    (other.resolve (other.project.signatureOf (numbers.node id)) {}).1 =
      (env.resolve (env.project.signatureOf id) {}).1 := by
  unfold resolve
  rw [carries.settings, same]
  exact ((Inquiry.run_corresponds (Progress.Mirrors numbers within)
    (carries.signatureOf_corresponds inside) (fun _ _ question step => step.ask question)
    (fun _ _ _ => find_mirrors carries same _) (Progress.Mirrors.empty numbers within)).1).symm

/-- The numbers of nodes do not matter. Under new numbers a node is found as before, with the new
number if it is a dangling one, and a definition has the signature that it had. -/
theorem findings_do_not_depend_on_numbers (env : Env) {rename : NodeId → NodeId}
    (injective : Function.Injective rename) (id : NodeId) :
    ((env.renumber rename).resolve (Inquiry.inferNode (rename id)) {}).1 =
        ((env.resolve (Inquiry.inferNode id) {}).1).renumber (.ofNodes rename) ∧
      ((env.renumber rename).resolve
          ((env.renumber rename).project.signatureOf (rename id)) {}).1 =
        (env.resolve (env.project.signatureOf id) {}).1 ∧
      (env.renumber rename).project.graph.ids.Pairwise (· ≤ ·) := by
  have carries : env.project.Carries (.ofNodes rename) (fun _ => True)
      (env.renumber rename).project := Project.carries_renumber injective env.project
  have same : (env.renumber rename).surroundings = env.surroundings := rfl
  exact ⟨resolve_renumber carries same trivial, signature_renumber carries same trivial,
    Graph.ascending_renumberNodes rename env.project.graph⟩

/-- Neighbours trade their numbers. -/
def tradePlaces (id : Nat) : Nat :=
  if id % 2 = 0 then id + 1 else id - 1

theorem tradePlaces_injective : Function.Injective tradePlaces := by
  intro id other same
  unfold tradePlaces at same
  split at same <;> split at same <;> omega

/-- A method that returns a variable whose only write goes round a loop, and a return of a node
that is gone. -/
def roundabout : Env :=
  let nodes := ofKinds [.literal .string .plain, .merge [0, 2], .localRead "turn" 0 (some 3),
    .localWrite "turn" 0 (some 1), .param "speed" .required (some 0) 1,
    .definition { name := "drive", owner := "Car", params := [4], result := some 2, body := [2] },
    .selfReference "Car" false, .call { method := "drive", receiver := some 6 },
    .explicitReturn (some 20)] {}
  { nodes with project := { nodes.project with
      registries := { methods := MethodRegistry.register {} "Car" "drive" false 5 } } }

/-- The loop, the registered method and the dangling node are found as before. -/
theorem roundabout_keeps_its_findings :
    Function.Injective tradePlaces ∧
      ((roundabout.renumber tradePlaces).resolve (Inquiry.inferNode 6) {}).1 =
        { type := .string, reason := .projectMethod "Car" "drive" false, provenance := .project } ∧
      ((roundabout.renumber tradePlaces).resolve (Inquiry.inferNode 9) {}).1 =
        .unknown (.danglingNode 21) ∧
      ((roundabout.renumber tradePlaces).resolve
        ((roundabout.renumber tradePlaces).project.signatureOf 4) {}).1 =
        some { params := [{ name := "speed", kind := .required, type := .string }],
               result := .string } := by
  have call := findings_do_not_depend_on_numbers roundabout tradePlaces_injective 7
  have gone := findings_do_not_depend_on_numbers roundabout tradePlaces_injective 8
  have method := findings_do_not_depend_on_numbers roundabout tradePlaces_injective 5
  exact ⟨tradePlaces_injective, call.1.trans rfl, gone.1.trans rfl, method.2.1.trans rfl⟩

end Env

end HeuristicTyping
