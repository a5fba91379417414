import Mathlib.Logic.Relation
import Mathlib.Tactic.SplitIfs
import HeuristicTyping.Proofs.Inquiries

/-!
# What a finding may depend on

`Env.LeadsTo` is one step from a node to another on which its finding may depend: along the
dependencies of the graph, to the registered writer of a field, or to what is registered under the
name of a called method. A call may also go to the end of a chain of constant aliases at once;
`Env.Asks` adds these leaps, and each of them is a path of single steps. Look-ups in the registries
and guesses from use ask for no node at all.
-/

set_option autoImplicit false

namespace HeuristicTyping

namespace Env

/-- One step from a node to another on which its finding may depend. -/
inductive LeadsTo (env : Env) : NodeId → NodeId → Prop where
  | dependency {id target : NodeId} (stored : target ∈ env.project.graph.dependencies id) :
      LeadsTo env id target
  /-- A field read without a known write leads to the registered writer. -/
  | writer {id target : NodeId} {scope : FieldScope} {owner name : String}
      (read : env.project.graph.kind? id = some (.fieldRead scope owner name none))
      (registered : (env.project.registries.fields scope).lookup? owner name
        (some env.surroundings.index) = some target) :
      LeadsTo env id target
  /-- A call leads to every method of that name, whoever owns it. -/
  | method {id : NodeId} {site : Call} {owner : String} {registration : Registration}
      (typeLevel : Bool) (call : env.project.graph.kind? id = some (.call site))
      (registered : registration ∈ (env.project.registries.methods.table typeLevel).registrations
        { owner, name := site.method }) :
      LeadsTo env id registration.node
  /-- A call leads to every top-level function of that name. -/
  | function {id : NodeId} {site : Call} {registration : Registration}
      (call : env.project.graph.kind? id = some (.call site))
      (registered : registration ∈ env.project.registries.methods.functions.registrations
        { owner := MethodRegistry.topLevel, name := site.method }) :
      LeadsTo env id registration.node

/-- What the rule of a node may ask for: whatever the node leads to, and for a call the value at
the end of the aliases that its receiver goes through. -/
inductive Asks (env : Env) : NodeId → NodeId → Prop where
  | step {id target : NodeId} (leads : env.LeadsTo id target) : Asks env id target
  | aliased {id target receiver : NodeId} {site : Call}
      (call : env.project.graph.kind? id = some (.call site))
      (received : site.receiver = some receiver)
      (ends : Call.followAliases env.project.graph Call.maxAliases receiver =
        some (.value target)) :
      Asks env id target

theorem asks_edge {env : Env} {id target : NodeId} {kind : NodeKind}
    (held : env.project.graph.kind? id = some kind) (stored : target ∈ kind.edges)
    (notParam : ∀ index site, kind ≠ .blockParam index site) : env.Asks id target := by
  apply Asks.step
  apply LeadsTo.dependency
  unfold Graph.dependencies
  rw [held]
  cases kind with
  | blockParam index site => exact absurd rfl (notParam index site)
  | _ => exact stored

/-! ### Paths -/

theorem followAliases_leads {env : Env} {hops : Nat} {id target : NodeId}
    (ends : Call.followAliases env.project.graph hops id = some (.value target)) :
    Relation.ReflTransGen env.LeadsTo id target := by
  induction hops generalizing id with
  | zero => cases ends
  | succ hops ih =>
      rw [Call.followAliases] at ends
      cases held : env.project.graph.kind? id with
      | none =>
          rw [held] at ends
          cases ends
      | some kind =>
          rw [held] at ends
          cases kind with
          | constant name next =>
              cases next with
              | none => cases ends
              | some next =>
                  have first : env.LeadsTo id next := by
                    apply LeadsTo.dependency
                    simp [Graph.dependencies, held, NodeKind.edges]
                  exact Relation.ReflTransGen.head first (ih ends)
          | _ =>
              obtain rfl := Call.AliasEnd.value.inj (Option.some.inj ends)
              exact Relation.ReflTransGen.refl

theorem asks_leads {env : Env} {id target : NodeId} (asks : env.Asks id target) :
    Relation.TransGen env.LeadsTo id target := by
  cases asks with
  | step leads => exact Relation.TransGen.single leads
  | @aliased receiver site call received ends =>
      have first : env.LeadsTo id receiver := by
        apply LeadsTo.dependency
        simp [Graph.dependencies, call, NodeKind.edges, received]
      exact Relation.TransGen.head' first (followAliases_leads ends)

/-- Only live nodes lead anywhere. -/
theorem live_of_asks {env : Env} {id target : NodeId} (asks : env.Asks id target) :
    (env.project.graph.get? id).isSome := by
  have live {kind : NodeKind} (held : env.project.graph.kind? id = some kind) :
      (env.project.graph.get? id).isSome := by
    obtain ⟨node, found, _⟩ := Option.map_eq_some_iff.mp held
    exact Option.isSome_of_mem found
  cases asks with
  | aliased call received ends => exact live call
  | step leads =>
      cases leads with
      | writer read registered => exact live read
      | method typeLevel call registered => exact live call
      | function call registered => exact live call
      | dependency stored =>
          unfold Graph.dependencies at stored
          cases held : env.project.graph.kind? id with
          | some kind => exact live held
          | none =>
              rw [held] at stored
              cases stored

/-! ### Registered nodes -/

theorem registered_of_get {table : RegistryTable} {owner name : String} {node : NodeId}
    (found : table.get? owner name = some node) :
    ∃ registration ∈ table.registrations { owner, name }, registration.node = node := by
  unfold RegistryTable.get? at found
  obtain ⟨registration, winner, same⟩ := Option.map_eq_some_iff.mp found
  refine ⟨registration, ?_, same⟩
  cases precedence : table.precedence with
  | latest =>
      rw [precedence] at winner
      exact List.mem_of_getLast? winner
  | earliest =>
      rw [precedence] at winner
      exact List.mem_of_head? winner

theorem registered_of_inherited {table : RegistryTable} {owner name : String}
    {ancestors : List String} {node : NodeId}
    (found : table.inherited? owner name ancestors = some node) :
    ∃ heir, ∃ registration ∈ table.registrations { owner := heir, name },
      registration.node = node := by
  obtain ⟨heir, _, held⟩ := List.exists_of_findSome?_eq_some found
  exact ⟨heir, registered_of_get held⟩

end Env

/-! ### Look-ups and guesses ask for no node -/

section Lookups

variable {surroundings : Surroundings} {may : NodeId → Prop} {granted : Inference → Prop}

/-- A look-up asks for no node and answers as the look-up with that index. -/
theorem find_meets (table : RegistryTable) (owner name : String) :
    (table.find owner name).Meets surroundings may granted fun node =>
      node = table.lookup? owner name (some surroundings.index) := by
  unfold RegistryTable.find RegistryTable.lookup?
  cases held : table.get? owner name with
  | some node => rfl
  | none => rfl

theorem registered_of_lookup {table : RegistryTable} {owner name : String}
    {index : Option TypeIndex} {node : NodeId}
    (found : table.lookup? owner name index = some node) :
    ∃ heir, ∃ registration ∈ table.registrations { owner := heir, name },
      registration.node = node := by
  unfold RegistryTable.lookup? at found
  cases held : table.get? owner name with
  | some winner =>
      rw [held] at found
      obtain rfl := Option.some.inj found
      exact ⟨owner, Env.registered_of_get held⟩
  | none =>
      rw [held] at found
      cases index with
      | none => cases found
      | some index => exact Env.registered_of_inherited found

theorem accepts_meets (project : Project) (type : String) (call : CalledMethod) :
    (Duck.accepts project type call).Meets surroundings may granted fun _ => True := by
  unfold Duck.accepts
  split
  · trivial
  · simp only [Inquiry.meets_bind]
    apply Inquiry.meets_mono (find_meets _ _ _)
    intro node _
    split
    · trivial
    · trivial

theorem candidates_meets (project : Project) (calls : List CalledMethod) :
    (Duck.candidates project calls).Meets surroundings may granted fun _ => True := by
  unfold Duck.candidates
  rw [Inquiry.meets_bind]
  apply Inquiry.meets_keep
  intro type _
  apply Inquiry.meets_all
  intro call _
  exact accepts_meets project type call

theorem dropDescendants_meets (types : List String) :
    (Duck.dropDescendants types).Meets surroundings may granted fun _ => True := by
  unfold Duck.dropDescendants
  split
  · trivial
  · apply Inquiry.meets_keep
    intro type _
    trivial

/-- A guess asks for no node, and the depth limit is never its reason. -/
theorem guess_meets (project : Project) (calls : List CalledMethod) :
    (Duck.guess project calls).Meets surroundings may granted fun guess =>
      guess.reason ≠ .depthLimit := by
  unfold Duck.guess
  split
  · exact Reason.noConfusion
  · simp only [Inquiry.meets_bind, Inquiry.meets_pure]
    apply Inquiry.meets_mono (candidates_meets project calls)
    intro types _
    apply Inquiry.meets_mono (dropDescendants_meets types)
    intro remaining _
    unfold Duck.verdict
    split_ifs <;> exact Reason.noConfusion

end Lookups

end HeuristicTyping
