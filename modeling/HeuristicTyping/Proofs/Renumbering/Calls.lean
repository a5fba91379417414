import HeuristicTyping.Proofs.Renumbering.Inquiries
import HeuristicTyping.Proofs.Registries

/-!
# Calls under new numbers

A project carries over to another one under new numbers if the nodes of some closed part have the
kinds, the variables have the calls, and the look-ups have the answers that they had. Dispatching a
call then goes alike in both. It reads the graph in other places than along edges: aliases are
followed, the argument of a call is looked at, and so are registered definitions and the kinds of
their parameters. All of these lie in the closed part.
-/

set_option autoImplicit false

namespace HeuristicTyping

/-- All that the nodes `within` can lead to in a project is there under new numbers in the other
one. -/
structure Project.Carries (numbers : Renumbering) (within : NodeId → Prop)
    (project other : Project) : Prop where
  settings : other.settings = project.settings
  injective : ∀ {id target}, within id → within target →
    numbers.node id = numbers.node target → id = target
  kinds : ∀ {id}, within id →
    other.graph.kind? (numbers.node id) = (project.graph.kind? id).map (·.renumber numbers)
  calls : ∀ {id kind}, within id → project.graph.kind? id = some kind → ∀ var ∈ kind.vars,
    other.graph.calledMethods (numbers.var var) = project.graph.calledMethods var
  closed : ∀ {id kind}, within id → project.graph.kind? id = some kind →
    ∀ target ∈ kind.edges ++ kind.params, within target
  lookups : ∀ shelf owner name, (other.registries.table shelf).get? owner name =
    ((project.registries.table shelf).get? owner name).map numbers.node
  registered : ∀ {shelf owner name node},
    (project.registries.table shelf).get? owner name = some node → within node

/-- How found nodes go together: the same ones under new numbers, and within the part. -/
def Project.FoundAlike (numbers : Renumbering) (within : NodeId → Prop)
    (found other : Option NodeId) : Prop :=
  found.map numbers.node = other ∧ ∀ node ∈ found, within node

/-- How findings go together, where there may be none. -/
def Inference.RenumberedTo (numbers : Renumbering) (found other : Option Inference) : Prop :=
  found.map (·.renumber numbers) = other

def Call.AliasEnd.renumber (numbers : Renumbering) : Call.AliasEnd → Call.AliasEnd
  | .constant name => .constant name
  | .value id => .value (numbers.node id)

/-- The site of a call under new numbers. The types of the arguments are what they were. -/
def Call.Site.renumber (numbers : Renumbering) (site : Call.Site) : Call.Site :=
  { site with call := site.call.renumber numbers }

theorem Call.Site.renumber_method (numbers : Renumbering) (site : Call.Site) :
    (site.renumber numbers).call.method = site.call.method := rfl

namespace Project.Carries

variable {numbers : Renumbering} {within : NodeId → Prop} {project other : Project}

theorem edge (carries : project.Carries numbers within other) {id target : NodeId}
    {kind : NodeKind} (inside : within id) (held : project.graph.kind? id = some kind)
    (stored : target ∈ kind.edges) : within target :=
  carries.closed inside held target (List.mem_append_left _ stored)

/-! ### Look-ups -/

theorem find_corresponds (carries : project.Carries numbers within other) (shelf : Shelf)
    (owner name : String) :
    Inquiry.Corresponds numbers within (FoundAlike numbers within)
      ((project.registries.table shelf).find owner name)
      ((other.registries.table shelf).find owner name) := by
  unfold RegistryTable.find
  rw [carries.lookups shelf owner name]
  cases held : (project.registries.table shelf).get? owner name with
  | some node =>
      refine .done ⟨rfl, ?_⟩
      rintro _ ⟨⟩
      exact carries.registered held
  | none =>
      refine .consult fun ancestors => .done ⟨?_, ?_⟩
      · simp only [RegistryTable.inherited?]
        generalize ancestors.filter (fun ancestor => ancestor != owner) = heirs
        induction heirs with
        | nil => rfl
        | cons heir heirs ih =>
            rw [List.findSome?_cons, List.findSome?_cons, carries.lookups shelf heir name]
            cases (project.registries.table shelf).get? heir name with
            | none => exact ih
            | some node => rfl
      · intro node found
        obtain ⟨heir, _, held⟩ := List.exists_of_findSome?_eq_some found
        exact carries.registered held

theorem findMethod_corresponds (carries : project.Carries numbers within other)
    (owner name : String) (typeLevel : Bool) :
    Inquiry.Corresponds numbers within (FoundAlike numbers within)
      (project.findMethod owner name typeLevel) (other.findMethod owner name typeLevel) :=
  carries.find_corresponds (.methods typeLevel) owner name

/-! ### Guesses from use -/

theorem paramKinds_eq (carries : project.Carries numbers within other) {params : List NodeId}
    (inside : ∀ param ∈ params, within param) :
    other.paramKinds (params.map numbers.node) = project.paramKinds params := by
  induction params with
  | nil => rfl
  | cons param params ih =>
      have rest := ih fun later member => inside later (List.mem_cons_of_mem _ member)
      have kind := carries.kinds (inside param List.mem_cons_self)
      unfold paramKinds at rest ⊢
      rw [List.map_cons, List.filterMap_cons, List.filterMap_cons, rest, kind]
      cases project.graph.kind? param with
      | none => rfl
      | some held => cases held <;> rfl

theorem definitionArity_eq (carries : project.Carries numbers within other) {node : NodeId}
    (inside : within node) :
    other.definitionArity? (numbers.node node) = project.definitionArity? node := by
  unfold definitionArity?
  rw [carries.kinds inside]
  cases held : project.graph.kind? node with
  | none => rfl
  | some kind =>
      cases kind with
      | definition method =>
          have params : ∀ param ∈ method.params, within param := fun param member =>
            carries.closed inside held param (List.mem_append_right _ member)
          exact congrArg (fun kinds => some (Arity.ofKinds kinds)) (carries.paramKinds_eq params)
      | _ => rfl

theorem accepts_corresponds (carries : project.Carries numbers within other) (type : String)
    (call : CalledMethod) :
    Inquiry.Corresponds numbers within Eq (Duck.accepts project type call)
      (Duck.accepts other type call) := by
  unfold Duck.accepts
  cases call.count with
  | none => exact .done rfl
  | some count =>
      refine Inquiry.corresponds_bind (carries.findMethod_corresponds type call.name false) ?_
      rintro found _ ⟨rfl, inside⟩
      have arity : (found.map numbers.node).bind other.definitionArity? =
          found.bind project.definitionArity? := by
        cases found with
        | none => rfl
        | some node => exact carries.definitionArity_eq (inside node rfl)
      rw [arity]
      cases found.bind project.definitionArity? with
      | some arity => exact .done rfl
      | none => exact .consult fun _ => .done rfl

theorem guess_corresponds (carries : project.Carries numbers within other)
    (calls : List CalledMethod) :
    Inquiry.Corresponds numbers within (fun guess otherGuess => guess.renumber numbers = otherGuess)
      (Duck.guess project calls) (Duck.guess other calls) := by
  have candidates : Inquiry.Corresponds numbers within Eq (Duck.candidates project calls)
      (Duck.candidates other calls) := by
    refine .consult fun proposed => Inquiry.corresponds_keep ?_ _
    intro type
    exact Inquiry.corresponds_all (carries.accepts_corresponds type) calls
  have general (types : List String) : Inquiry.Corresponds numbers within Eq
      (Duck.dropDescendants types) (Duck.dropDescendants types) := by
    unfold Duck.dropDescendants
    split
    · exact .done rfl
    · exact Inquiry.corresponds_keep (fun _ => .consult fun _ => .done rfl) types
  unfold Duck.guess
  dsimp only
  split
  · exact .done rfl
  · refine Inquiry.corresponds_bind candidates ?_
    rintro types _ rfl
    refine Inquiry.corresponds_bind (general types) ?_
    rintro remaining _ rfl
    refine .done ?_
    rw [carries.settings]
    unfold Duck.verdict
    split
    · rfl
    · split <;> rfl

/-! ### Calls -/

theorem followAliases_eq (carries : project.Carries numbers within other) (hops : Nat)
    {id : NodeId} (inside : within id) :
    Call.followAliases other.graph hops (numbers.node id) =
      (Call.followAliases project.graph hops id).map (·.renumber numbers) := by
  induction hops generalizing id with
  | zero => rfl
  | succ hops ih =>
      rw [Call.followAliases, Call.followAliases, carries.kinds inside]
      cases held : project.graph.kind? id with
      | none => rfl
      | some kind =>
          cases kind with
          | constant name target =>
              cases target with
              | none => rfl
              | some target => exact ih (carries.edge inside held List.mem_cons_self)
          | _ => rfl

theorem followAliases_within (carries : project.Carries numbers within other) {hops : Nat}
    {id last : NodeId} (inside : within id)
    (ends : Call.followAliases project.graph hops id = some (.value last)) : within last := by
  induction hops generalizing id with
  | zero => cases ends
  | succ hops ih =>
      rw [Call.followAliases] at ends
      cases held : project.graph.kind? id with
      | none => simp [held] at ends
      | some kind =>
          rw [held] at ends
          cases kind with
          | constant name target =>
              cases target with
              | none => cases ends
              | some target => exact ih (carries.edge inside held List.mem_cons_self) ends
          | _ =>
              obtain rfl := Call.AliasEnd.value.inj (Option.some.inj ends)
              exact inside

theorem typeReference_corresponds (carries : project.Carries numbers within other)
    {receiver : NodeId} (inside : within receiver) :
    Inquiry.Corresponds numbers within Eq (Call.typeReference? project receiver)
      (Call.typeReference? other (numbers.node receiver)) := by
  unfold Call.typeReference?
  rw [carries.followAliases_eq Call.maxAliases inside]
  cases ends : Call.followAliases project.graph Call.maxAliases receiver with
  | none => exact .done rfl
  | some last =>
      cases last with
      | constant name => exact .done rfl
      | value last =>
          have lastInside := carries.followAliases_within inside ends
          simp only [Option.map_some, Call.AliasEnd.renumber]
          by_cases same : last = receiver
          · rw [if_pos same, if_pos (congrArg numbers.node same)]
            exact .done rfl
          · have apart : numbers.node last ≠ numbers.node receiver := fun equal =>
              same (carries.injective lastInside inside equal)
            rw [if_neg same, if_neg apart]
            refine Inquiry.corresponds_bind (Inquiry.corresponds_typeOf lastInside) ?_
            rintro type _ rfl
            cases type <;> exact .done rfl

section Site

variable {id : NodeId} {site : Call.Site}

theorem binding_corresponds (carries : project.Carries numbers within other) (inside : within id)
    (held : project.graph.kind? id = some (.call site.call)) (receiver : Option Ty) :
    Inquiry.Corresponds numbers within Eq (Call.binding site.call receiver)
      (Call.binding (site.call.renumber numbers) receiver) := by
  unfold Call.binding Call.renumber
  cases block : site.call.block with
  | none => exact .done rfl
  | some body =>
      simp only [Option.map_some, Block.renumber]
      cases result : body.result with
      | none =>
          rw [Option.map_none, List.isEmpty_map]
          exact .done rfl
      | some value =>
          have asked : within value := by
            apply carries.edge inside held
            simp [NodeKind.edges, block, result]
          refine Inquiry.corresponds_bind (Inquiry.corresponds_typeOf asked) ?_
          rintro type _ rfl
          exact .done rfl

theorem instantiate_corresponds (carries : project.Carries numbers within other)
    (inside : within id) (held : project.graph.kind? id = some (.call site.call))
    (receiver : Option Ty) (type : Ty) :
    Inquiry.Corresponds numbers within Eq (Call.instantiate site.call receiver type)
      (Call.instantiate (site.call.renumber numbers) receiver type) := by
  unfold Call.instantiate
  split
  · refine Inquiry.corresponds_bind (carries.binding_corresponds inside held receiver) ?_
    rintro bound _ rfl
    exact .done rfl
  · exact .done rfl

theorem byCatalogue_corresponds (carries : project.Carries numbers within other)
    (inside : within id) (held : project.graph.kind? id = some (.call site.call))
    (owner : String) (receiver : Option Ty) (typeLevel : Bool) :
    Inquiry.Corresponds numbers within (Inference.RenumberedTo numbers)
      (Call.byCatalogue site owner receiver typeLevel)
      (Call.byCatalogue (site.renumber numbers) owner receiver typeLevel) := by
  have declared (type : Ty) : Inquiry.Corresponds numbers within (Inference.RenumberedTo numbers)
      (do
        if type.isUnknown then return none
        let instantiated ← Call.instantiate site.call receiver type
        return some (Inference.mk instantiated (.catalogueMethod owner site.call.method)
          .catalogue))
      (do
        if type.isUnknown then return none
        let instantiated ← Call.instantiate (site.call.renumber numbers) receiver type
        return some (Inference.mk instantiated (.catalogueMethod owner site.call.method)
          .catalogue)) := by
    split
    · exact .done rfl
    · refine Inquiry.corresponds_bind (carries.instantiate_corresponds inside held receiver type) ?_
      rintro instantiated _ rfl
      exact .done rfl
  unfold Call.byCatalogue
  cases typeLevel with
  | true => exact .consult declared
  | false => exact .consult declared

theorem byDefinition_corresponds (carries : project.Carries numbers within other)
    {node otherNode : Option NodeId} (alike : FoundAlike numbers within node otherNode)
    (method : String) (typeLevel : Bool) (receiver : Ty) :
    Inquiry.Corresponds numbers within (Inference.RenumberedTo numbers)
      (Call.byDefinition? project node method typeLevel receiver)
      (Call.byDefinition? other otherNode method typeLevel receiver) := by
  obtain ⟨rfl, inside⟩ := alike
  cases node with
  | none => exact .done rfl
  | some node =>
      have owner : Call.ownerOf other (numbers.node node) receiver =
          Call.ownerOf project node receiver := by
        unfold Call.ownerOf
        rw [carries.kinds (inside node rfl)]
        cases project.graph.kind? node with
        | none => rfl
        | some kind => cases kind <;> rfl
      refine Inquiry.corresponds_bind ?_ fun found _ same => .done (congrArg some same)
      refine Inquiry.corresponds_bind (Inquiry.corresponds_inferNode (inside node rfl)) ?_
      rintro found _ rfl
      rw [Inference.renumber_isUnknown, Inference.renumber_type, owner]
      split <;> exact .done rfl

theorem isAnswer_renumber (found : Option Inference) :
    Call.isAnswer (found.map (·.renumber numbers)) = Call.isAnswer found := by
  cases found <;> rfl

theorem orElse_renumber (found otherwise : Option Inference) :
    (found <|> otherwise).map (·.renumber numbers) =
      (found.map (·.renumber numbers) <|> otherwise.map (·.renumber numbers)) := by
  cases found <;> rfl

theorem onInstance_corresponds (carries : project.Carries numbers within other)
    (inside : within id) (held : project.graph.kind? id = some (.call site.call))
    (name : String) (receiver : Ty) :
    Inquiry.Corresponds numbers within (Inference.RenumberedTo numbers)
      (Call.onInstance project site name receiver)
      (Call.onInstance other (site.renumber numbers) name receiver) := by
  have catalogue := carries.byCatalogue_corresponds inside held
  unfold Call.onInstance
  refine Inquiry.corresponds_bind (carries.findMethod_corresponds name _ false) ?_
  intro node otherNode alike
  refine Inquiry.corresponds_bind (carries.byDefinition_corresponds alike _ false receiver) ?_
  rintro defined _ rfl
  rw [isAnswer_renumber]
  split
  · exact .done rfl
  refine Inquiry.corresponds_bind (catalogue name (some receiver) false) ?_
  rintro known _ rfl
  rw [Option.isSome_map]
  split
  · exact .done rfl
  simp only [carries.settings]
  split
  · exact .done rfl
  refine Inquiry.corresponds_bind (catalogue _ (some receiver) false) ?_
  rintro inherited _ rfl
  exact .done (orElse_renumber inherited defined)

theorem typeMethod_corresponds (carries : project.Carries numbers within other)
    (name method : String) :
    Inquiry.Corresponds numbers within (FoundAlike numbers within)
      (Call.typeMethod? project name method) (Call.typeMethod? other name method) := by
  unfold Call.typeMethod?
  have asked : Inquiry.Corresponds numbers within Eq (Inquiry.typeMethodOwner? name method)
      (Inquiry.typeMethodOwner? name method) := .consult fun _ => .done rfl
  refine Inquiry.corresponds_bind asked ?_
  rintro owner _ rfl
  refine Inquiry.corresponds_bind (carries.findMethod_corresponds (owner.getD name) method true) ?_
  rintro found _ ⟨rfl, among⟩
  cases found with
  | some node => exact .done ⟨rfl, among⟩
  | none =>
      dsimp only [Option.map_none]
      split
      · exact .done ⟨rfl, among⟩
      · exact carries.findMethod_corresponds _ method false

theorem onType_corresponds (carries : project.Carries numbers within other)
    (inside : within id) (held : project.graph.kind? id = some (.call site.call))
    (name : String) :
    Inquiry.Corresponds numbers within (Inference.RenumberedTo numbers)
      (Call.onType project site name) (Call.onType other (site.renumber numbers) name) := by
  unfold Call.onType
  rw [carries.settings, Call.Site.renumber_method]
  split
  · exact .done rfl
  refine Inquiry.corresponds_bind (carries.typeMethod_corresponds name _) ?_
  intro node otherNode alike
  refine Inquiry.corresponds_bind (carries.byDefinition_corresponds alike _ true _) ?_
  rintro defined _ rfl
  rw [isAnswer_renumber]
  split
  · exact .done rfl
  refine Inquiry.corresponds_bind (carries.byCatalogue_corresponds inside held name _ true) ?_
  rintro known _ rfl
  exact .done (orElse_renumber known defined)

theorem onNominal_corresponds (carries : project.Carries numbers within other)
    (inside : within id) (held : project.graph.kind? id = some (.call site.call))
    (receiver : Ty) :
    Inquiry.Corresponds numbers within (Inference.RenumberedTo numbers)
      (Call.onNominal project site receiver)
      (Call.onNominal other (site.renumber numbers) receiver) := by
  unfold Call.onNominal
  cases receiver.nominalName? with
  | none => exact .done rfl
  | some name => exact carries.onInstance_corresponds inside held name receiver

theorem symbolArgument_eq (carries : project.Carries numbers within other) (inside : within id)
    (held : project.graph.kind? id = some (.call site.call)) :
    Call.symbolArgument? other (site.call.renumber numbers) =
      Call.symbolArgument? project site.call := by
  unfold Call.symbolArgument? Call.renumber
  cases arguments : site.call.arguments with
  | nil => rfl
  | cons argument rest =>
      have asked : within argument := by
        apply carries.edge inside held
        simp [NodeKind.edges, arguments]
      simp only [List.map_cons, List.head?_cons, Option.bind_eq_bind, Option.bind_some,
        carries.kinds asked]
      cases project.graph.kind? argument with
      | none => rfl
      | some kind =>
          cases kind with
          | literal type value => cases value <;> rfl
          | _ => rfl

theorem readsEntry_renumber (call : Call) :
    Call.readsEntry (call.renumber numbers) = Call.readsEntry call := by
  simp [Call.readsEntry, Call.renumber]

mutual

theorem onReceiver_corresponds (carries : project.Carries numbers within other)
    (inside : within id) (held : project.graph.kind? id = some (.call site.call))
    (receiver : Ty) :
    Inquiry.Corresponds numbers within (Inference.RenumberedTo numbers)
      (Call.onReceiver project site receiver)
      (Call.onReceiver other (site.renumber numbers) receiver) := by
  have nominal := carries.onNominal_corresponds inside held
  cases receiver with
  | union members =>
      unfold Call.onReceiver
      refine Inquiry.corresponds_bind (onMembers_corresponds carries inside held members) ?_
      rintro found _ rfl
      split <;> exact .done rfl
  | singleton name => exact carries.onType_corresponds inside held name
  | shape fields =>
      unfold Call.onReceiver
      have same : Call.readsEntry (site.renumber numbers).call = Call.readsEntry site.call :=
        readsEntry_renumber site.call
      have argument : Call.symbolArgument? other (site.renumber numbers).call =
          Call.symbolArgument? project site.call := carries.symbolArgument_eq inside held
      rw [same, argument]
      split
      · refine .done ?_
        unfold Call.ofShape
        split <;> rfl
      · exact nominal _
  | method params result =>
      unfold Call.onReceiver
      rw [Call.Site.renumber_method]
      split
      · exact .done rfl
      · exact nominal _
  | _ =>
      unfold Call.onReceiver
      exact nominal _
termination_by structural receiver

theorem onMembers_corresponds (carries : project.Carries numbers within other)
    (inside : within id) (held : project.graph.kind? id = some (.call site.call))
    (receivers : List Ty) :
    Inquiry.Corresponds numbers within Eq (Call.onMembers project site receivers)
      (Call.onMembers other (site.renumber numbers) receivers) := by
  cases receivers with
  | nil => exact .done rfl
  | cons receiver receivers =>
      have rest := onMembers_corresponds carries inside held receivers
      unfold Call.onMembers
      split
      · exact rest
      · refine Inquiry.corresponds_bind (onReceiver_corresponds carries inside held receiver) ?_
        rintro finding _ rfl
        refine Inquiry.corresponds_bind rest ?_
        rintro types _ rfl
        cases finding <;> exact .done rfl
termination_by structural receivers

end

theorem byFunction_corresponds (carries : project.Carries numbers within other)
    (method : String) :
    Inquiry.Corresponds numbers within (Inference.RenumberedTo numbers)
      (Call.byFunction? project method) (Call.byFunction? other method) := by
  unfold Call.byFunction? MethodRegistry.function?
  have lookup := carries.lookups .functions MethodRegistry.topLevel method
  simp only [Registries.table] at lookup
  rw [lookup]
  cases found : project.registries.methods.functions.get? MethodRegistry.topLevel method with
  | none => exact .done rfl
  | some node =>
      have held : (project.registries.table .functions).get? MethodRegistry.topLevel method =
          some node := found
      have asked : within node := carries.registered held
      refine Inquiry.corresponds_bind (Inquiry.corresponds_inferNode asked) ?_
      rintro inference _ rfl
      rw [Inference.renumber_isUnknown, Inference.renumber_type]
      split <;> exact .done rfl

theorem failure_renumber (method : String) (receiver : Option Ty) :
    (Call.failure method receiver).renumber numbers = Call.failure method receiver := by
  cases receiver with
  | none => rfl
  | some type =>
      simp only [Call.failure]
      split <;> rfl

theorem fallback_corresponds (carries : project.Carries numbers within other)
    (inside : within id) (held : project.graph.kind? id = some (.call site.call))
    (receiver : Option Ty) (triedCatchAll : Bool) (pending : Option Inference) :
    Inquiry.Corresponds numbers within (fun found other => found.renumber numbers = other)
      (Call.fallback project site receiver triedCatchAll pending)
      (Call.fallback other (site.renumber numbers) receiver triedCatchAll
        (pending.map (·.renumber numbers))) := by
  have otherwise : (pending.getD (.unknown (Call.failure site.call.method receiver))).renumber
      numbers = (pending.map (·.renumber numbers)).getD
        (.unknown (Call.failure site.call.method receiver)) := by
    cases pending with
    | none => simp [Inference.renumber, Inference.unknown, failure_renumber]
    | some found => rfl
  unfold Call.fallback
  refine Inquiry.corresponds_bind (carries.byFunction_corresponds _) ?_
  rintro function _ rfl
  cases function with
  | some found => exact .done rfl
  | none =>
      dsimp only [Option.map_none]
      split
      · exact .done otherwise
      · rw [carries.settings]
        refine Inquiry.corresponds_bind
          (carries.byCatalogue_corresponds inside held _ receiver false) ?_
        rintro found _ rfl
        cases found with
        | none => exact .done otherwise
        | some known => exact .done rfl

theorem onReference_corresponds (carries : project.Carries numbers within other)
    (inside : within id) (held : project.graph.kind? id = some (.call site.call))
    (name : String) :
    Inquiry.Corresponds numbers within (fun found other => found.renumber numbers = other)
      (Call.onReference project site name)
      (Call.onReference other (site.renumber numbers) name) := by
  unfold Call.onReference
  refine Inquiry.corresponds_bind (carries.onType_corresponds inside held name) ?_
  rintro pending _ rfl
  cases pending with
  | none => exact carries.fallback_corresponds inside held _ false none
  | some found =>
      dsimp only [Option.map_some]
      rw [Inference.renumber_isUnknown]
      split
      · exact .done rfl
      · exact carries.fallback_corresponds inside held _ false (some found)

theorem onValue_corresponds (carries : project.Carries numbers within other)
    (inside : within id) (held : project.graph.kind? id = some (.call site.call))
    {receiver : NodeId} (asked : within receiver) :
    Inquiry.Corresponds numbers within (fun found other => found.renumber numbers = other)
      (Call.onValue project site receiver)
      (Call.onValue other (site.renumber numbers) (numbers.node receiver)) := by
  have typed : Inquiry.Corresponds numbers within Eq
      (Call.receiverType project site.call.method receiver)
      (Call.receiverType other site.call.method (numbers.node receiver)) := by
    unfold Call.receiverType
    refine Inquiry.corresponds_bind (Inquiry.corresponds_typeOf asked) ?_
    rintro type _ rfl
    split
    · exact .done rfl
    · refine Inquiry.corresponds_bind (carries.guess_corresponds _) ?_
      rintro guess _ rfl
      exact .done rfl
  unfold Call.onValue
  refine Inquiry.corresponds_bind typed ?_
  rintro ⟨type, guessed⟩ _ rfl
  refine Inquiry.corresponds_bind (carries.onReceiver_corresponds inside held type) ?_
  rintro pending _ rfl
  cases pending with
  | none => exact carries.fallback_corresponds inside held _ _ none
  | some found =>
      dsimp only [Option.map_some]
      rw [Inference.renumber_isUnknown]
      split
      · refine .done ?_
        split <;> rfl
      · exact carries.fallback_corresponds inside held _ _ (some found)

end Site

theorem inquire_corresponds (carries : project.Carries numbers within other) {id : NodeId}
    {call : Call} (inside : within id) (held : project.graph.kind? id = some (.call call)) :
    Inquiry.Corresponds numbers within (fun found other => found.renumber numbers = other)
      (Call.inquire project call) (Call.inquire other (call.renumber numbers)) := by
  have arguments : ∀ target ∈ call.arguments, within target := by
    intro target member
    apply carries.edge inside held
    simp [NodeKind.edges, member]
  have sited (types : List Ty) : project.graph.kind? id =
      some (.call (Call.Site.mk call types).call) := held
  unfold Call.inquire
  rw [show (call.renumber numbers).receiver = call.receiver.map numbers.node from rfl]
  cases received : call.receiver with
  | none =>
      refine Inquiry.corresponds_bind (Inquiry.corresponds_typesOf arguments) ?_
      rintro types _ rfl
      exact carries.fallback_corresponds inside (sited types) none false none
  | some receiver =>
      have asked : within receiver := by
        apply carries.edge inside held
        simp [NodeKind.edges, received]
      refine Inquiry.corresponds_bind (carries.typeReference_corresponds asked) ?_
      rintro reference _ rfl
      refine Inquiry.corresponds_bind (Inquiry.corresponds_typesOf arguments) ?_
      rintro types _ rfl
      cases reference with
      | some name => exact carries.onReference_corresponds inside (sited types) name
      | none => exact carries.onValue_corresponds inside (sited types) asked

theorem blockParamOn_corresponds (carries : project.Carries numbers within other)
    (method : String) (index declared : Nat) (receiver : Ty) :
    Inquiry.Corresponds numbers within Eq
      (Call.blockParamOn project method index declared receiver)
      (Call.blockParamOn other method index declared receiver) := by
  have asked (owner : String) : Inquiry.Corresponds numbers within Eq
      (Inquiry.blockParams owner method) (Inquiry.blockParams owner method) :=
    .consult fun _ => .done rfl
  unfold Call.blockParamOn
  rw [carries.settings]
  cases receiver.nominalName? with
  | none => exact .done rfl
  | some name =>
      refine Inquiry.corresponds_bind (asked name) ?_
      rintro own _ rfl
      split
      · refine Inquiry.corresponds_bind (asked _) ?_
        rintro inherited _ rfl
        exact .done rfl
      · exact .done rfl

theorem inquireBlockParam_corresponds (carries : project.Carries numbers within other)
    (index : Nat) {call : Call} (asked : ∀ receiver ∈ call.receiver, within receiver) :
    Inquiry.Corresponds numbers within (fun found other => found.renumber numbers = other)
      (Call.inquireBlockParam project index call)
      (Call.inquireBlockParam other index (call.renumber numbers)) := by
  unfold Call.inquireBlockParam
  rw [show (call.renumber numbers).receiver = call.receiver.map numbers.node from rfl]
  cases received : call.receiver with
  | none => exact .done rfl
  | some receiver =>
      refine Inquiry.corresponds_bind (Inquiry.corresponds_typeOf (asked receiver received)) ?_
      rintro type _ rfl
      split
      · exact .done rfl
      have declared : ((call.renumber numbers).block.map fun block => block.params.length) =
          call.block.map fun block => block.params.length := by
        simp only [Call.renumber]
        cases call.block <;> simp [Block.renumber]
      rw [declared]
      have single : ∀ member ∈ type.members, Inquiry.Corresponds numbers within Eq
          (Call.blockParamOn project call.method index
            ((call.block.map fun block => block.params.length).getD 0) member)
          (Call.blockParamOn other call.method index
            ((call.block.map fun block => block.params.length).getD 0) (id member)) :=
        fun member _ => carries.blockParamOn_corresponds call.method index _ member
      have found := Inquiry.corresponds_eachSome single
      rw [List.map_id] at found
      refine Inquiry.corresponds_bind found ?_
      rintro parts _ rfl
      cases parts with
      | nil => exact .done rfl
      | cons part parts => exact .done rfl

end Project.Carries

end HeuristicTyping
