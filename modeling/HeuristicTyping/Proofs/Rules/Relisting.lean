import HeuristicTyping.Proofs.Rules.Kinds

/-!
# Entries of a literal, listed anew

The entries of a hash literal are read by the rule of that literal and by no other. A graph in which
one literal lists other entries has the same rules, and where these are the old entries in another
order, every node leads where it led.
-/

set_option autoImplicit false

namespace HeuristicTyping

/-- The kind with other entries, if it is a hash literal. -/
def NodeKind.relist (entries : List (HashKey × NodeId)) : NodeKind → NodeKind
  | .literal type (.hash _) => .literal type (.hash entries)
  | kind => kind

def Node.relist (entries : List (HashKey × NodeId)) (node : Node) : Node :=
  { node with kind := node.kind.relist entries }

/-- The graph in which a hash literal has other entries. -/
def Graph.relist (graph : Graph) (literal : NodeId) (entries : List (HashKey × NodeId)) : Graph :=
  { graph with
    nodes := graph.nodes.map fun node => if node.id = literal then node.relist entries else node }

def Project.relist (project : Project) (literal : NodeId) (entries : List (HashKey × NodeId)) :
    Project :=
  { project with graph := project.graph.relist literal entries }

def Env.relist (env : Env) (literal : NodeId) (entries : List (HashKey × NodeId)) : Env :=
  { env with project := env.project.relist literal entries }

namespace Graph

variable (graph : Graph) (literal : NodeId) (entries : List (HashKey × NodeId))

theorem get_relist (id : NodeId) :
    (graph.relist literal entries).get? id =
      (graph.get? id).map fun node => if id = literal then node.relist entries else node := by
  have named : ∀ node : Node, (if node.id = literal then node.relist entries else node).id =
      node.id := by
    intro node
    split_ifs <;> rfl
  simp only [relist, get?, List.find?_map, Function.comp_def, named]
  cases found : graph.nodes.find? fun node => node.id == id with
  | none => rfl
  | some node =>
      have same : node.id = id := by simpa using List.find?_some found
      rw [Option.map_some, Option.map_some, same]

theorem kind_relist_of_ne {id : NodeId} (other : id ≠ literal) :
    (graph.relist literal entries).kind? id = graph.kind? id := by
  simp only [kind?, get_relist, if_neg other, Option.map_map, Function.comp_def]

theorem kind_relist_self :
    (graph.relist literal entries).kind? literal =
      (graph.kind? literal).map (NodeKind.relist entries) := by
  simp only [kind?, get_relist, Option.map_map]
  rfl

theorem kind_relist (id : NodeId) :
    (graph.relist literal entries).kind? id = graph.kind? id ∨
      ∃ type others, graph.kind? id = some (.literal type (.hash others)) ∧
        (graph.relist literal entries).kind? id = some (.literal type (.hash entries)) := by
  by_cases same : id = literal
  · subst same
    rw [kind_relist_self]
    cases graph.kind? id with
    | none => exact Or.inl rfl
    | some kind =>
        cases kind with
        | literal type value =>
            cases value with
            | hash others => exact Or.inr ⟨type, others, rfl, rfl⟩
            | _ => exact Or.inl rfl
        | _ => exact Or.inl rfl
  · exact Or.inl (graph.kind_relist_of_ne literal entries same)

end Graph

/-! ### Where nodes lead -/

namespace Graph

variable {graph : Graph} {literal : NodeId} {entries : List (HashKey × NodeId)}

theorem kind_of_relist {id : NodeId} {kind : NodeKind}
    (held : (graph.relist literal entries).kind? id = some kind)
    (other : ∀ type others, kind ≠ .literal type (.hash others)) :
    graph.kind? id = some kind := by
  rcases graph.kind_relist literal entries id with same | ⟨type, others, _, now⟩
  · rwa [same] at held
  · exact absurd (Option.some.inj (held.symm.trans now)) (other type entries)

theorem dependencies_relist_of_ne {id : NodeId} (other : id ≠ literal) :
    (graph.relist literal entries).dependencies id = graph.dependencies id := by
  unfold dependencies
  rw [graph.kind_relist_of_ne literal entries other]
  split
  · rename_i site _
    rcases graph.kind_relist literal entries site with same | ⟨type, others, before, now⟩
    · rw [same]
    · rw [before, now]
  · rfl
  · rfl

end Graph

/-- Entries in another order lead where they led. -/
theorem Env.leadsTo_of_relist {env : Env} {literal : NodeId} {type : Ty}
    {entries reordered : List (HashKey × NodeId)} (same : entries.Perm reordered)
    (held : env.project.graph.kind? literal = some (.literal type (.hash entries)))
    {id target : NodeId} (leads : (env.relist literal reordered).LeadsTo id target) :
    env.LeadsTo id target := by
  cases leads with
  | dependency stored =>
      apply LeadsTo.dependency
      by_cases self : id = literal
      · subst self
        have now : (env.relist id reordered).project.graph.kind? id =
            some (.literal type (.hash reordered)) := by
          change (env.project.graph.relist id reordered).kind? id = _
          rw [Graph.kind_relist_self, held]
          rfl
        simp only [Graph.dependencies, now, NodeKind.edges] at stored
        simp only [Graph.dependencies, held, NodeKind.edges]
        exact (same.flatMap_right NodeKind.entryEdges).mem_iff.mpr stored
      · have unchanged : (env.relist literal reordered).project.graph.dependencies id =
            env.project.graph.dependencies id := Graph.dependencies_relist_of_ne self
        rwa [unchanged] at stored
  | writer read registered =>
      exact LeadsTo.writer (Graph.kind_of_relist read fun _ _ => NodeKind.noConfusion) registered
  | method typeLevel call registered =>
      exact LeadsTo.method typeLevel
        (Graph.kind_of_relist call fun _ _ => NodeKind.noConfusion) registered
  | function call registered =>
      exact LeadsTo.function (Graph.kind_of_relist call fun _ _ => NodeKind.noConfusion) registered

/-! ### No rule but one reads entries -/

section Rules

variable (project : Project) (literal : NodeId) (entries : List (HashKey × NodeId))

theorem Project.kind_relist (id : NodeId) :
    (project.relist literal entries).graph.kind? id = project.graph.kind? id ∨
      ∃ type others, project.graph.kind? id = some (.literal type (.hash others)) ∧
        (project.relist literal entries).graph.kind? id = some (.literal type (.hash entries)) :=
  project.graph.kind_relist literal entries id

theorem Project.paramKinds_relist (params : List NodeId) :
    (project.relist literal entries).paramKinds params = project.paramKinds params := by
  unfold paramKinds
  congr 1
  funext param
  rcases project.kind_relist literal entries param with same | ⟨type, others, before, now⟩
  · rw [same]
  · rw [before, now]

theorem Project.definitionArity_relist (node : NodeId) :
    (project.relist literal entries).definitionArity? node = project.definitionArity? node := by
  unfold definitionArity?
  simp only [paramKinds_relist]
  rcases project.kind_relist literal entries node with same | ⟨type, others, before, now⟩
  · rw [same]
  · rw [before, now]

theorem Duck.guess_relist (calls : List CalledMethod) :
    guess (project.relist literal entries) calls = guess project calls := by
  have arity : (project.relist literal entries).definitionArity? = project.definitionArity? :=
    funext (project.definitionArity_relist literal entries)
  have alike : accepts (project.relist literal entries) = accepts project := by
    funext type call
    unfold accepts
    rw [arity]
    rfl
  unfold guess candidates
  simp only [alike]
  rfl

namespace Call

theorem followAliases_relist (hops : Nat) (id : NodeId) :
    followAliases (project.relist literal entries).graph hops id =
      followAliases project.graph hops id := by
  induction hops generalizing id with
  | zero => rfl
  | succ hops ih =>
      unfold followAliases
      simp only [ih]
      rcases project.kind_relist literal entries id with same | ⟨type, others, before, now⟩
      · rw [same]
      · rw [before, now]

theorem typeReference_relist (receiver : NodeId) :
    typeReference? (project.relist literal entries) receiver =
      typeReference? project receiver := by
  unfold typeReference?
  rw [followAliases_relist]

theorem ownerOf_relist (node : NodeId) (receiver : Ty) :
    ownerOf (project.relist literal entries) node receiver = ownerOf project node receiver := by
  unfold ownerOf
  rcases project.kind_relist literal entries node with same | ⟨type, others, before, now⟩
  · rw [same]
  · rw [before, now]

theorem byDefinition_relist (node : Option NodeId) (method : String) (typeLevel : Bool)
    (receiver : Ty) :
    byDefinition? (project.relist literal entries) node method typeLevel receiver =
      byDefinition? project node method typeLevel receiver := by
  unfold byDefinition? byDefinition
  simp only [ownerOf_relist]

theorem symbolArgument_relist (call : Call) :
    symbolArgument? (project.relist literal entries) call = symbolArgument? project call := by
  unfold symbolArgument?
  cases call.arguments.head? with
  | none => rfl
  | some argument =>
      simp only [Option.bind_eq_bind, Option.bind_some]
      rcases project.kind_relist literal entries argument with same | ⟨type, others, before, now⟩
      · rw [same]
      · rw [before, now]
        rfl

theorem onInstance_relist (site : Site) (name : String) (receiver : Ty) :
    onInstance (project.relist literal entries) site name receiver =
      onInstance project site name receiver := by
  unfold onInstance
  simp only [byDefinition_relist]
  rfl

theorem onNominal_relist (site : Site) (receiver : Ty) :
    onNominal (project.relist literal entries) site receiver =
      onNominal project site receiver := by
  unfold onNominal
  simp only [onInstance_relist]

theorem onType_relist (site : Site) (name : String) :
    onType (project.relist literal entries) site name = onType project site name := by
  unfold onType
  simp only [byDefinition_relist]
  rfl

mutual

theorem onReceiver_relist (site : Site) (receiver : Ty) :
    onReceiver (project.relist literal entries) site receiver =
      onReceiver project site receiver := by
  cases receiver with
  | union members =>
      unfold onReceiver
      rw [onMembers_relist site members]
  | shape fields =>
      unfold onReceiver
      rw [symbolArgument_relist, onNominal_relist]
  | singleton name => exact onType_relist project literal entries site name
  | _ =>
      unfold onReceiver
      rw [onNominal_relist]
termination_by structural receiver

theorem onMembers_relist (site : Site) (receivers : List Ty) :
    onMembers (project.relist literal entries) site receivers =
      onMembers project site receivers := by
  cases receivers with
  | nil => rfl
  | cons receiver receivers =>
      unfold onMembers
      rw [onReceiver_relist site receiver, onMembers_relist site receivers]
termination_by structural receivers

end

theorem inquire_relist (call : Call) :
    inquire (project.relist literal entries) call = inquire project call := by
  have reference : ∀ site name, onReference (project.relist literal entries) site name =
      onReference project site name := by
    intro site name
    unfold onReference
    rw [onType_relist]
    rfl
  have value : ∀ site receiver, onValue (project.relist literal entries) site receiver =
      onValue project site receiver := by
    intro site receiver
    unfold onValue receiverType
    simp only [Duck.guess_relist, onReceiver_relist]
    rfl
  unfold inquire
  simp only [typeReference_relist, reference, value]
  rfl

end Call

theorem Rule.blockParam_relist (index : Nat) (site : NodeId) :
    blockParam (project.relist literal entries) index site = blockParam project index site := by
  unfold blockParam
  rcases project.kind_relist literal entries site with same | ⟨type, others, before, now⟩
  · rw [same]
    rfl
  · rw [before, now]

theorem Project.rule_relist (kind : NodeKind) :
    (project.relist literal entries).rule kind = project.rule kind := by
  cases kind with
  | localRead name var write =>
      unfold rule Rule.localRead
      simp only [Duck.guess_relist]
      rfl
  | param name kind default var =>
      unfold rule Rule.param Rule.openParam
      simp only [Duck.guess_relist]
      rfl
  | call site => exact Call.inquire_relist project literal entries site
  | blockParam index site => exact Rule.blockParam_relist project literal entries index site
  | _ => rfl

end Rules

end HeuristicTyping
