import HeuristicTyping.Proofs.Renumbering.Composition
import HeuristicTyping.Proofs.Renumbering.Resolver
import HeuristicTyping.Proofs.Resolver.History

/-!
# What a finding depends on

A finding depends on the closed part around its node and on what is registered, and on no other
node: two graphs that agree there give the same finding.
-/

set_option autoImplicit false

namespace HeuristicTyping

/-! ### The closed part around a node -/

/-- A set of nodes that holds what its members store, the parameters of its definitions, and all
that is registered. -/
structure Project.Closed (project : Project) (part : NodeId → Prop) : Prop where
  registered : ∀ shelf key, ∀ entry ∈ project.registries.entries shelf key, part entry.node
  stored : ∀ id kind, part id → project.graph.kind? id = some kind →
    ∀ target ∈ kind.edges ++ kind.params, part target

theorem Project.Closed.carries {project other : Project} {part : NodeId → Prop}
    (closed : project.Closed part) (settings : other.settings = project.settings)
    (registries : other.registries = project.registries)
    (called : ∀ var, other.graph.calledMethods var = project.graph.calledMethods var)
    (kinds : ∀ id, part id → other.graph.kind? id = project.graph.kind? id) :
    project.Carries .identity part other where
  settings := settings
  injective _ _ same := same
  kinds {id} inside := by
    have kept : other.graph.kind? (Renumbering.identity.node id) = project.graph.kind? id :=
      kinds id inside
    rw [kept]
    cases project.graph.kind? id with
    | none => rfl
    | some kind => exact congrArg some kind.renumber_identity.symm
  calls _ _ var _ := called var
  closed {id kind} inside held := closed.stored id kind inside held
  lookups shelf owner name := by
    rw [registries]
    simp [Renumbering.identity]
  registered {shelf owner name node} held := by
    obtain ⟨entry, member, rfl⟩ := RegistryTable.entry_of_get? held
    exact closed.registered shelf _ entry member

/-- Nothing outside a closed part bears on the finding of a node in it. The two graphs have the
same called methods for every variable, and the same kind or no node for every member of the
part. -/
theorem Env.finding_depends_on_the_closed_part {env other : Env} {part : NodeId → Prop}
    (surroundings : other.surroundings = env.surroundings)
    (settings : other.project.settings = env.project.settings)
    (registries : other.project.registries = env.project.registries)
    (called : ∀ var, other.project.graph.calledMethods var = env.project.graph.calledMethods var)
    (closed : env.project.Closed part)
    (kinds : ∀ id, part id → other.project.graph.kind? id = env.project.graph.kind? id)
    {id : NodeId} (inside : part id) :
    (other.resolve (Inquiry.inferNode id) {}).1 = (env.resolve (Inquiry.inferNode id) {}).1 := by
  have carries := closed.carries settings registries called kinds
  have found := Env.resolve_renumber carries surroundings inside
  rw [Inference.renumber_identity] at found
  exact found

/-- A call of a method with a parameter, and one more node that it has nothing to do with. -/
def welcome (unrelated : NodeKind) : Env :=
  let nodes := Env.ofKinds [.literal .string .plain, .param "guest" .required none 0,
    .definition { name := "welcome", owner := "Host", params := [1], result := some 0 },
    .selfReference "Host" false, .call { method := "welcome", receiver := some 3 }, unrelated] {}
  { nodes with project := { nodes.project with
      registries := Registries.enroll {} (.methods false) { owner := "Host", name := "welcome" } 2
        none } }

theorem welcome_closed (unrelated : NodeKind) : (welcome unrelated).project.Closed (· < 5) where
  registered shelf key entry member := by
    have enrolled : entry ∈ (Registries.enroll {} (.methods false)
        { owner := "Host", name := "welcome" } 2 none).entries shelf key := member
    rw [Registries.entries_enroll, Registries.entries_empty, List.nil_append] at enrolled
    split at enrolled
    · rw [List.mem_singleton.mp enrolled]
      decide
    · cases enrolled
  stored id kind inside held target edge := by
    match id, inside, held with
    | 0, _, held | 1, _, held | 2, _, held | 3, _, held | 4, _, held =>
        cases held
        revert target
        decide

theorem welcome_kinds (unrelated other : NodeKind) :
    ∀ id, id < 5 → (welcome other).project.graph.kind? id =
      (welcome unrelated).project.graph.kind? id := by
  intro id inside
  match id, inside with
  | 0, _ | 1, _ | 2, _ | 3, _ | 4, _ => rfl

theorem welcome_called (unrelated : NodeKind) (var : VarId) :
    (welcome unrelated).project.graph.calledMethods var = [] := rfl

theorem welcome_depends_on_its_part :
    (welcome (.merge [4])).project.Closed (· < 5) ∧
      ((welcome (.literal .integer .plain)).resolve (Inquiry.inferNode 4) {}).1 =
        ((welcome (.merge [4])).resolve (Inquiry.inferNode 4) {}).1 := by
  have called : ∀ var, (welcome (.literal .integer .plain)).project.graph.calledMethods var =
      (welcome (.merge [4])).project.graph.calledMethods var := by
    intro var
    rw [welcome_called, welcome_called]
  have surroundings : (welcome (.literal .integer .plain)).surroundings =
      (welcome (.merge [4])).surroundings := rfl
  have settings : (welcome (.literal .integer .plain)).project.settings =
      (welcome (.merge [4])).project.settings := rfl
  have registries : (welcome (.literal .integer .plain)).project.registries =
      (welcome (.merge [4])).project.registries := rfl
  have inside : (4 : NodeId) < 5 := by decide
  exact ⟨welcome_closed _, Env.finding_depends_on_the_closed_part surroundings settings registries
    called (welcome_closed _) (welcome_kinds _ _) inside⟩

end HeuristicTyping
