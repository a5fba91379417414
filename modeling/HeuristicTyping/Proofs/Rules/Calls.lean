import HeuristicTyping.Proofs.Rules.Dependence

/-!
# What calls ask for

One statement for each function that takes part in dispatching a call. At the site of a call only
nodes that `Env.Asks` lists are asked for, and the depth limit is handed on as a reason but never
given as a new one.
-/

set_option autoImplicit false

namespace HeuristicTyping

namespace Call

section Site

variable {env : Env} {id : NodeId} {site : Site} {good : Reason → Prop}

theorem binding_meets (call : env.project.graph.kind? id = some (.call site.call))
    (receiver : Option Ty) :
    (binding site.call receiver).Meets env.surroundings (env.Asks id) (good ·.reason)
      fun _ => True := by
  unfold binding
  cases block : site.call.block with
  | none => trivial
  | some body =>
      dsimp only
      cases result : body.result with
      | none => trivial
      | some value =>
          have asked : env.Asks id value := by
            apply Env.asks_edge call _ (fun _ _ => NodeKind.noConfusion)
            simp [NodeKind.edges, block, result]
          exact ⟨asked, fun _ _ => trivial⟩

theorem instantiate_meets (call : env.project.graph.kind? id = some (.call site.call))
    (receiver : Option Ty) (type : Ty) :
    (instantiate site.call receiver type).Meets env.surroundings (env.Asks id) (good ·.reason)
      fun _ => True := by
  unfold instantiate
  split
  · rw [Inquiry.meets_bind]
    exact Inquiry.meets_mono (binding_meets call receiver) fun _ _ => trivial
  · trivial

theorem byCatalogue_meets (call : env.project.graph.kind? id = some (.call site.call))
    (own : ∀ reason, reason ≠ .depthLimit → good reason)
    (owner : String) (receiver : Option Ty) (typeLevel : Bool) :
    (byCatalogue site owner receiver typeLevel).Meets env.surroundings (env.Asks id) (good ·.reason)
      fun found => ∀ inference ∈ found, good inference.reason := by
  unfold byCatalogue
  dsimp only
  -- Whichever table of signatures is asked, the same is done with the type that it answers.
  split
  all_goals
    simp only [Inquiry.meets_bind, Inquiry.typeLevelReturnType, Inquiry.returnType,
      Inquiry.meets_consult, Inquiry.meets_done]
    split
    · intro inference member
      cases member
    · rw [Inquiry.meets_bind]
      apply Inquiry.meets_mono (instantiate_meets call receiver _)
      intro type _ inference member
      obtain rfl := Option.mem_some_iff.mp member
      exact own _ Reason.noConfusion

/-- A method that is looked up is one that the call leads to. -/
theorem findMethod_meets (call : env.project.graph.kind? id = some (.call site.call))
    (owner : String) (typeLevel : Bool) :
    (env.project.findMethod owner site.call.method typeLevel).Meets env.surroundings
      (env.Asks id) (good ·.reason) fun found => ∀ node ∈ found, env.Asks id node := by
  apply Inquiry.meets_mono (find_meets _ owner site.call.method)
  intro found same node member
  rw [same] at member
  obtain ⟨heir, registration, registered, rfl⟩ := registered_of_lookup member
  exact Env.Asks.step (Env.LeadsTo.method typeLevel call registered)

theorem byDefinition_meets (own : ∀ reason, reason ≠ .depthLimit → good reason)
    {node : Option NodeId} (asked : ∀ target ∈ node, env.Asks id target) (method : String)
    (typeLevel : Bool) (receiver : Ty) :
    (byDefinition? env.project node method typeLevel receiver).Meets env.surroundings
      (env.Asks id) (good ·.reason) fun found => ∀ inference ∈ found, good inference.reason := by
  cases node with
  | none =>
      intro inference member
      cases member
  | some target =>
      simp only [byDefinition?, byDefinition, Inquiry.meets_bind, Inquiry.meets_inferNode,
        Inquiry.meets_pure]
      refine ⟨asked target rfl, ?_⟩
      intro found foundGood
      split
      · intro inference member
        obtain rfl := Option.mem_some_iff.mp member
        exact foundGood
      · intro inference member
        obtain rfl := Option.mem_some_iff.mp member
        exact own _ Reason.noConfusion

theorem onInstance_meets (call : env.project.graph.kind? id = some (.call site.call))
    (own : ∀ reason, reason ≠ .depthLimit → good reason)
    (name : String) (receiver : Ty) :
    (onInstance env.project site name receiver).Meets env.surroundings (env.Asks id) (good ·.reason)
      fun found => ∀ inference ∈ found, good inference.reason := by
  unfold onInstance
  rw [Inquiry.meets_bind]
  apply Inquiry.meets_mono (findMethod_meets call name false)
  intro node asked
  rw [Inquiry.meets_bind]
  apply Inquiry.meets_mono (byDefinition_meets own asked site.call.method false receiver)
  intro defined definedGood
  split
  · exact definedGood
  rw [Inquiry.meets_bind]
  apply Inquiry.meets_mono (byCatalogue_meets call own name (some receiver) false)
  intro known knownGood
  split
  · exact knownGood
  dsimp only
  split
  · exact definedGood
  rw [Inquiry.meets_bind]
  apply Inquiry.meets_mono
    (byCatalogue_meets call own env.project.settings.catchAllType (some receiver) false)
  intro inherited inheritedGood
  cases inherited with
  | none => exact definedGood
  | some found => exact inheritedGood

theorem typeMethod_meets (call : env.project.graph.kind? id = some (.call site.call))
    (name : String) :
    (typeMethod? env.project name site.call.method).Meets env.surroundings (env.Asks id)
      (good ·.reason) fun found => ∀ node ∈ found, env.Asks id node := by
  unfold typeMethod?
  simp only [Inquiry.meets_bind, Inquiry.typeMethodOwner?, Inquiry.meets_consult,
    Inquiry.meets_done]
  apply Inquiry.meets_mono (findMethod_meets call _ true)
  intro found asked
  cases found with
  | some node => exact asked
  | none =>
      dsimp only
      split
      · exact asked
      · exact findMethod_meets call _ false

theorem onType_meets (call : env.project.graph.kind? id = some (.call site.call))
    (own : ∀ reason, reason ≠ .depthLimit → good reason) (name : String) :
    (onType env.project site name).Meets env.surroundings (env.Asks id) (good ·.reason)
      fun found => ∀ inference ∈ found, good inference.reason := by
  unfold onType
  split
  · intro inference member
    obtain rfl := Option.mem_some_iff.mp member
    exact own _ Reason.noConfusion
  dsimp only
  rw [Inquiry.meets_bind]
  apply Inquiry.meets_mono (typeMethod_meets call name)
  intro node asked
  rw [Inquiry.meets_bind]
  apply Inquiry.meets_mono (byDefinition_meets own asked site.call.method true _)
  intro defined definedGood
  split
  · exact definedGood
  rw [Inquiry.meets_bind]
  apply Inquiry.meets_mono (byCatalogue_meets call own name _ true)
  intro known knownGood
  cases known with
  | none => exact definedGood
  | some found => exact knownGood

theorem onNominal_meets (call : env.project.graph.kind? id = some (.call site.call))
    (own : ∀ reason, reason ≠ .depthLimit → good reason) (receiver : Ty) :
    (onNominal env.project site receiver).Meets env.surroundings (env.Asks id) (good ·.reason)
      fun found => ∀ inference ∈ found, good inference.reason := by
  unfold onNominal
  cases receiver.nominalName? with
  | none =>
      intro inference member
      cases member
  | some name => exact onInstance_meets call own name receiver

mutual

theorem onReceiver_meets (call : env.project.graph.kind? id = some (.call site.call))
    (own : ∀ reason, reason ≠ .depthLimit → good reason) (receiver : Ty) :
    (onReceiver env.project site receiver).Meets env.surroundings (env.Asks id) (good ·.reason)
      fun found => ∀ inference ∈ found, good inference.reason := by
  cases receiver with
  | union members =>
      simp only [onReceiver, Inquiry.meets_bind]
      apply Inquiry.meets_mono (onMembers_meets call own members)
      intro found _
      split
      · intro inference member
        cases member
      · intro inference member
        obtain rfl := Option.mem_some_iff.mp member
        exact own _ Reason.noConfusion
  | singleton name => exact onType_meets call own name
  | shape fields =>
      unfold onReceiver
      split
      · rename_i key _ _
        intro inference member
        obtain rfl := Option.mem_some_iff.mp member
        apply own
        unfold ofShape
        split <;> exact Reason.noConfusion
      · exact onNominal_meets call own _
  | method params result =>
      unfold onReceiver
      split
      · intro inference member
        obtain rfl := Option.mem_some_iff.mp member
        exact own _ Reason.noConfusion
      · exact onNominal_meets call own _
  | _ =>
      unfold onReceiver
      exact onNominal_meets call own _
termination_by structural receiver

theorem onMembers_meets (call : env.project.graph.kind? id = some (.call site.call))
    (own : ∀ reason, reason ≠ .depthLimit → good reason) (receivers : List Ty) :
    (onMembers env.project site receivers).Meets env.surroundings (env.Asks id) (good ·.reason)
      fun _ => True := by
  cases receivers with
  | nil => trivial
  | cons receiver receivers =>
      have rest := onMembers_meets call own receivers
      unfold onMembers
      split
      · exact rest
      · simp only [Inquiry.meets_bind]
        apply Inquiry.meets_mono (onReceiver_meets call own receiver)
        intro finding _
        apply Inquiry.meets_mono rest
        intro types _
        cases finding with
        | none => trivial
        | some inference => trivial
termination_by structural receivers

end

theorem byFunction_meets (call : env.project.graph.kind? id = some (.call site.call))
    (own : ∀ reason, reason ≠ .depthLimit → good reason) :
    (byFunction? env.project site.call.method).Meets env.surroundings (env.Asks id) (good ·.reason)
      fun found => ∀ inference ∈ found, good inference.reason := by
  unfold byFunction?
  cases held : env.project.registries.methods.function? site.call.method with
  | none =>
      intro inference member
      cases member
  | some node =>
      obtain ⟨registration, registered, rfl⟩ := Env.registered_of_get held
      simp only [Inquiry.meets_bind, Inquiry.meets_inferNode]
      refine ⟨Env.Asks.step (Env.LeadsTo.function call registered), ?_⟩
      intro found foundGood
      split
      · intro inference member
        cases member
      · intro inference member
        obtain rfl := Option.mem_some_iff.mp member
        exact own _ Reason.noConfusion

theorem failure_ne_depthLimit (method : String) (receiver : Option Ty) :
    failure method receiver ≠ .depthLimit := by
  cases receiver with
  | none => exact Reason.noConfusion
  | some type =>
      simp only [failure]
      split <;> exact Reason.noConfusion

theorem fallback_meets (call : env.project.graph.kind? id = some (.call site.call))
    (own : ∀ reason, reason ≠ .depthLimit → good reason)
    (receiver : Option Ty) (triedCatchAll : Bool) {pending : Option Inference}
    (pendingGood : ∀ inference ∈ pending, good inference.reason) :
    (fallback env.project site receiver triedCatchAll pending).Meets env.surroundings
      (env.Asks id) (good ·.reason) (good ·.reason) := by
  have otherwise :
      good (pending.getD (.unknown (failure site.call.method receiver))).reason := by
    cases pending with
    | none => exact own _ (failure_ne_depthLimit site.call.method receiver)
    | some found => exact pendingGood found rfl
  unfold fallback
  rw [Inquiry.meets_bind]
  apply Inquiry.meets_mono (byFunction_meets call own)
  intro function functionGood
  cases function with
  | some found => exact functionGood found rfl
  | none =>
      dsimp only
      split
      · exact otherwise
      · rw [Inquiry.meets_bind]
        apply Inquiry.meets_mono
          (byCatalogue_meets call own env.project.settings.catchAllType receiver false)
        intro found foundGood
        cases found with
        | none => exact otherwise
        | some known => exact foundGood known rfl

theorem onReference_meets (call : env.project.graph.kind? id = some (.call site.call))
    (own : ∀ reason, reason ≠ .depthLimit → good reason) (name : String) :
    (onReference env.project site name).Meets env.surroundings (env.Asks id) (good ·.reason)
      (good ·.reason) := by
  unfold onReference
  rw [Inquiry.meets_bind]
  apply Inquiry.meets_mono (onType_meets call own name)
  intro pending pendingGood
  cases pending with
  | none => exact fallback_meets call own _ false pendingGood
  | some found =>
      dsimp only
      split
      · exact pendingGood found rfl
      · exact fallback_meets call own _ false pendingGood

theorem onValue_meets (call : env.project.graph.kind? id = some (.call site.call))
    (own : ∀ reason, reason ≠ .depthLimit → good reason) {receiver : NodeId}
    (asked : env.Asks id receiver) :
    (onValue env.project site receiver).Meets env.surroundings (env.Asks id) (good ·.reason)
      (good ·.reason) := by
  have typed : (receiverType env.project site.call.method receiver).Meets env.surroundings
      (env.Asks id) (good ·.reason) fun _ => True := by
    simp only [receiverType, Inquiry.typeOf, Inquiry.meets_bind, Inquiry.meets_inferNode,
      Inquiry.meets_pure]
    refine ⟨asked, ?_⟩
    intro inference _
    split
    · trivial
    · rw [Inquiry.meets_bind]
      exact Inquiry.meets_mono (guess_meets env.project _) fun _ _ => trivial
  unfold onValue
  rw [Inquiry.meets_bind]
  apply Inquiry.meets_mono typed
  rintro ⟨type, guessed⟩ _
  dsimp only
  rw [Inquiry.meets_bind]
  apply Inquiry.meets_mono (onReceiver_meets call own type)
  intro pending pendingGood
  cases pending with
  | none => exact fallback_meets call own _ _ pendingGood
  | some found =>
      dsimp only
      split
      · split <;> exact pendingGood found rfl
      · exact fallback_meets call own _ _ pendingGood

end Site

section Node

variable {env : Env} {id : NodeId} {call : Call} {good : Reason → Prop}

theorem typeReference_meets (held : env.project.graph.kind? id = some (.call call))
    {receiver : NodeId} (received : call.receiver = some receiver) :
    (typeReference? env.project receiver).Meets env.surroundings (env.Asks id) (good ·.reason)
      fun _ => True := by
  unfold typeReference?
  cases ends : followAliases env.project.graph maxAliases receiver with
  | none => trivial
  | some last =>
      cases last with
      | constant name => trivial
      | value target =>
          dsimp only
          split
          · trivial
          · simp only [Inquiry.typeOf, Inquiry.meets_bind, Inquiry.meets_inferNode,
              Inquiry.meets_pure]
            refine ⟨Env.Asks.aliased held received ends, ?_⟩
            intro inference _
            split <;> trivial

theorem typesOf_meets {granted : Inference → Prop} {surroundings : Surroundings}
    {may : NodeId → Prop} {ids : List NodeId} (asked : ∀ target ∈ ids, may target) :
    (Inquiry.typesOf ids).Meets surroundings may granted fun _ => True := by
  have single : ∀ target ∈ ids,
      (Inquiry.typeOf target).Meets surroundings may granted fun _ => True := by
    intro target member
    exact ⟨asked target member, fun _ _ => trivial⟩
  exact Inquiry.meets_mono (Inquiry.meets_each single) fun _ _ => trivial

theorem inquire_meets (held : env.project.graph.kind? id = some (.call call))
    (own : ∀ reason, reason ≠ .depthLimit → good reason) :
    (inquire env.project call).Meets env.surroundings (env.Asks id) (good ·.reason)
      (good ·.reason) := by
  have stored : ∀ target ∈ (NodeKind.call call).edges, env.Asks id target := fun target member =>
    Env.asks_edge held member fun _ _ => NodeKind.noConfusion
  have arguments : ∀ target ∈ call.arguments, env.Asks id target := by
    intro target member
    apply stored
    simp [NodeKind.edges, member]
  unfold inquire
  cases received : call.receiver with
  | none =>
      dsimp only
      rw [Inquiry.meets_bind]
      apply Inquiry.meets_mono (typesOf_meets arguments)
      intro types _
      exact fallback_meets held own none false (by simp)
  | some receiver =>
      have asked : env.Asks id receiver := by
        apply stored
        simp [NodeKind.edges, received]
      dsimp only
      rw [Inquiry.meets_bind]
      apply Inquiry.meets_mono (typeReference_meets held received)
      intro reference _
      rw [Inquiry.meets_bind]
      apply Inquiry.meets_mono (typesOf_meets arguments)
      intro types _
      cases reference with
      | some name => exact onReference_meets held own name
      | none => exact onValue_meets held own asked

theorem blockParamOn_meets {surroundings : Surroundings} {may : NodeId → Prop}
    {granted : Inference → Prop} (project : Project) (method : String) (index declared : Nat)
    (receiver : Ty) :
    (blockParamOn project method index declared receiver).Meets surroundings may granted
      fun _ => True := by
  unfold blockParamOn
  cases receiver.nominalName? with
  | none => trivial
  | some name =>
      simp only [Inquiry.meets_bind, Inquiry.blockParams, Inquiry.meets_consult,
        Inquiry.meets_done]
      split <;> trivial

theorem inquireBlockParam_meets {surroundings : Surroundings} {may : NodeId → Prop}
    (project : Project) (own : ∀ reason, reason ≠ .depthLimit → good reason) (index : Nat)
    (asked : ∀ receiver ∈ call.receiver, may receiver) :
    (inquireBlockParam project index call).Meets surroundings may (good ·.reason)
      (good ·.reason) := by
  unfold inquireBlockParam
  cases received : call.receiver with
  | none => exact own _ Reason.noConfusion
  | some receiver =>
      simp only [Inquiry.typeOf, Inquiry.meets_bind, Inquiry.meets_inferNode, Inquiry.meets_pure]
      refine ⟨asked receiver received, ?_⟩
      intro inference _
      split
      · exact own _ Reason.noConfusion
      · rw [Inquiry.meets_bind]
        have single : ∀ member ∈ inference.type.members,
            (blockParamOn project call.method index
              ((call.block.map fun block => block.params.length).getD 0) member).Meets
              surroundings may (good ·.reason) fun found => ∀ result ∈ found, True := by
          intro member _
          exact Inquiry.meets_mono (blockParamOn_meets project call.method index _ member)
            fun _ _ _ _ => trivial
        apply Inquiry.meets_mono (Inquiry.meets_eachSome single)
        intro found _
        split <;> exact own _ Reason.noConfusion

end Node

end Call

end HeuristicTyping
