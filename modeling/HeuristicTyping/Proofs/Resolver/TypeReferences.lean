import HeuristicTyping.Proofs.Resolver.UnionReceivers

/-!
# References to types

A call on a constant looks up the methods of the type that the constant names, without finding out
the type of the constant: aliases are followed in the graph, over a bounded number of them. A call
on any other receiver finds out its type first, and that may be a type as an object too. Both ways
lead to the same findings. Where the walk along the aliases ends early, the type of the receiver is
found as that of any value; where it comes to an end, the name that it yields is the one in the
type of the receiver, because every alias has the type of its target.
-/

set_option autoImplicit false

namespace HeuristicTyping

namespace Simplifier.IsStandard

theorem singleton {simplifier : Simplifier} (standard : simplifier.IsStandard) (name : String) :
    simplifier.simplify (.singleton name) = .singleton name := by
  rcases standard with rfl | ⟨index, rfl⟩ <;> rfl

theorem unknown {simplifier : Simplifier} (standard : simplifier.IsStandard) :
    simplifier.simplify .unknown = .unknown := by
  rcases standard with rfl | ⟨index, rfl⟩ <;> rfl

end Simplifier.IsStandard

namespace Call

variable {surroundings : Surroundings} {oracle : NodeId → Inference} {project : Project}

theorem onReference_answer (site : Site) (name : String) :
    (onReference project site name).answer surroundings oracle =
      let found := (onReceiver project site (.singleton name)).answer surroundings oracle
      if isAnswer found then found.getD default
      else (fallback project site (some (.singleton name)) false found).answer surroundings
        oracle := by
  have same : onReceiver project site (.singleton name) = onType project site name := rfl
  simp only [onReference, Inquiry.answer_bind, same]
  cases (onType project site name).answer surroundings oracle with
  | none => rfl
  | some inference => cases unknown : inference.isUnknown <;> simp [isAnswer, unknown]

/-- The type of a receiver decides a call on it as a constant of that name does. -/
theorem onValue_eq_onReference (site : Site) {receiver : NodeId} {name : String}
    (typed : (oracle receiver).type = .singleton name) :
    (onValue project site receiver).answer surroundings oracle =
      (onReference project site name).answer surroundings oracle := by
  rw [onValue_answer site typed rfl, onReference_answer]
  rfl

/-- A call whose receiver is a type, whether it is seen from the constant or found for the value. -/
theorem inquire_eq_onReference {call : Call} {receiver : NodeId} {name : String}
    (received : call.receiver = some receiver)
    (refers : (typeReference? project receiver).answer surroundings oracle = some name ∨
      (typeReference? project receiver).answer surroundings oracle = none ∧
        (oracle receiver).type = .singleton name) :
    (inquire project call).answer surroundings oracle =
      (onReference project
        { call, arguments := call.arguments.map fun id => (oracle id).type } name).answer
        surroundings oracle := by
  simp only [inquire, received, Inquiry.answer_bind, Inquiry.answer_typesOf]
  rcases refers with named | ⟨unnamed, typed⟩
  · rw [named]
  · rw [unnamed]
    exact onValue_eq_onReference _ typed

theorem typeReference_of_constant {receiver : NodeId} {name : String}
    (held : project.graph.kind? receiver = some (.constant name none)) :
    typeReference? project receiver = pure (some name) := by
  have ends : followAliases project.graph maxAliases receiver = some (.constant name) := by
    simp only [maxAliases, followAliases, held]
  simp only [typeReference?, ends]

end Call

namespace Env

section Ranked

variable {env : Env} {rank : NodeId → Nat}

/-! ### Chains of aliases -/

variable (ranked : env.Ranked rank) (standard : env.surroundings.simplifier.IsStandard)
include ranked

theorem type_of_alias {id target : NodeId} {name : String}
    (held : env.project.graph.kind? id = some (.constant name (some target)))
    (stable : env.surroundings.simplifier.simplify (env.fresh target).type =
      (env.fresh target).type) :
    (env.fresh id).type = (env.fresh target).type := by
  rw [fresh_of_kind ranked held]
  exact stable

include standard

/-- A chain of aliases that ends at a constant has the type of that name, if it has one. -/
theorem type_of_chain_to_constant {hops : Nat} {id : NodeId} {name : String}
    (ends : Call.followAliases env.project.graph hops id = some (.constant name)) :
    (env.fresh id).type = .singleton name ∨ (env.fresh id).type = .unknown := by
  induction hops generalizing id with
  | zero => cases ends
  | succ hops ih =>
      rw [Call.followAliases] at ends
      split at ends
      · -- The end of the chain: what the index knows of the constant decides.
        rename_i last held
        obtain rfl := Call.AliasEnd.constant.inj (Option.some.inj ends)
        rw [fresh_of_kind ranked held]
        simp only [Project.rule, Rule.constant, Inquiry.answer_bind, simplified]
        split
        · exact Or.inl (standard.singleton last)
        · exact Or.inr standard.unknown
      · rename_i target held
        rcases ih ends with typed | untyped
        · left
          rw [type_of_alias ranked held (typed ▸ standard.singleton name), typed]
        · right
          rw [type_of_alias ranked held (untyped ▸ standard.unknown), untyped]
      · cases ends
      · cases ends

/-- A chain of aliases that ends at a value which is a type has the type of that value. -/
theorem type_of_chain_to_value {hops : Nat} {id last : NodeId} {name : String}
    (ends : Call.followAliases env.project.graph hops id = some (.value last))
    (typed : (env.fresh last).type = .singleton name) :
    (env.fresh id).type = .singleton name := by
  induction hops generalizing id with
  | zero => cases ends
  | succ hops ih =>
      rw [Call.followAliases] at ends
      split at ends
      · cases ends
      · rename_i target held
        have rest := ih ends
        rw [type_of_alias ranked held (rest ▸ standard.singleton name), rest]
      · obtain rfl := Call.AliasEnd.value.inj (Option.some.inj ends)
        exact typed
      · cases ends

/-- If a receiver is a type, then the walk along its aliases yields the name of the type or
nothing. -/
theorem typeReference_answer {receiver : NodeId} {name : String}
    (typed : (env.fresh receiver).type = .singleton name) :
    (Call.typeReference? env.project receiver).answer env.surroundings env.fresh = some name ∨
      (Call.typeReference? env.project receiver).answer env.surroundings env.fresh = none := by
  unfold Call.typeReference?
  split
  · rename_i last ends
    have same : last = name := by
      rcases type_of_chain_to_constant ranked standard ends with own | unknown
      · exact Ty.singleton.inj (own.symm.trans typed)
      · cases unknown.symm.trans typed
    exact Or.inl (congrArg some same)
  · rename_i last ends
    split
    · exact Or.inr rfl
    · simp only [Inquiry.answer_bind, Inquiry.answer_typeOf]
      split
      · rename_i other found
        have own := type_of_chain_to_value ranked standard ends found
        exact Or.inl (congrArg some (Ty.singleton.inj (own.symm.trans typed)))
      · exact Or.inr rfl
  · exact Or.inr rfl

end Ranked

/-- A call on a receiver that is found to be a type is found as the same call on a constant that
names the type: whatever the receiver is, over however many aliases it goes, and whether the index
knows the constant or not. -/
theorem call_on_type_eq_call_on_constant (env : Env) {rank : NodeId → Nat}
    (ranked : env.Ranked rank) (standard : env.surroundings.simplifier.IsStandard)
    (call : Call) {id other receiver constant : NodeId} {name : String} {limit : Nat}
    (calls : env.project.graph.kind? id = some (.call { call with receiver := some receiver }))
    (refers : env.project.graph.kind? other =
      some (.call { call with receiver := some constant }))
    (names : env.project.graph.kind? constant = some (.constant name none))
    (typed : (env.find limit receiver {}).1.type = .singleton name)
    (uncutReceiver : (env.find limit receiver {}).2.cutoffs = 0)
    (uncut : (env.resolve (Inquiry.inferNode id) {}).2.cutoffs = 0)
    (uncutOther : (env.resolve (Inquiry.inferNode other) {}).2.cutoffs = 0) :
    (env.resolve (Inquiry.inferNode id) {}).1 = (env.resolve (Inquiry.inferNode other) {}).1 := by
  have type : (env.fresh receiver).type = .singleton name := by
    rw [← find_eq_fresh uncutReceiver, typed]
  have found : (Call.inquire env.project { call with receiver := some receiver }).answer
      env.surroundings env.fresh =
      (Call.onReference env.project (call.site env.fresh) name).answer env.surroundings env.fresh :=
    Call.inquire_eq_onReference rfl
      ((typeReference_answer ranked standard type).imp_right fun unnamed => ⟨unnamed, type⟩)
  have expected : (Call.inquire env.project { call with receiver := some constant }).answer
      env.surroundings env.fresh =
      (Call.onReference env.project (call.site env.fresh) name).answer env.surroundings env.fresh :=
    Call.inquire_eq_onReference rfl
      (Or.inl (congrArg (Inquiry.answer _ _) (Call.typeReference_of_constant names)))
  rw [resolve_eq_fresh uncut, resolve_eq_fresh uncutOther, fresh_of_kind ranked calls,
    fresh_of_kind ranked refers, Project.rule, Project.rule, found, expected]

/-- Widgets are built by a method of their type, called on a variable that an alias of the type was
assigned to, and on the type itself. -/
def workshop : Env :=
  { ofKinds [.constant "Widget" none, .constant "Gadget" (some 0), .localWrite "made" 0 (some 1),
      .localRead "made" 0 (some 2), .call { method := "build", receiver := some 3 },
      .call { method := "build", receiver := some 0 }] {} with
    surroundings := {
      index := { TypeIndex.none with
        constantKind? := fun name => if name = "Widget" then some .type else none }
      signatures := { SignatureSource.none with
        typeLevelReturnType := fun _ method _ =>
          if method = "build" then .instanceOf "Widget" else .unknown }
      simplifier := .none } }

theorem workshop_ranked : workshop.Ranked id := by
  intro node target leads _
  cases leads with
  | dependency stored =>
      match node, stored with
      | 0, stored | _ + 6, stored => cases stored
      | 1, stored | 2, stored | 3, stored | 4, stored | 5, stored =>
          obtain rfl := List.mem_singleton.mp stored
          decide
  | writer read registered =>
      match node, read with
      | 0, read | 1, read | 2, read | 3, read | 4, read | 5, read | _ + 6, read => cases read
  | method typeLevel call registered => cases typeLevel <;> cases registered
  | function call registered => cases registered

/-- The variable is found to be the type, and both calls build a widget. -/
theorem workshop_calls_agree :
    (workshop.resolve (Inquiry.inferNode 3) {}).1.type = .singleton "Widget" ∧
      (workshop.resolve (Inquiry.inferNode 4) {}).1.type = .instanceOf "Widget" ∧
      (workshop.resolve (Inquiry.inferNode 4) {}).1 =
        (workshop.resolve (Inquiry.inferNode 5) {}).1 := by
  have typed : (workshop.find workshop.project.settings.maxDepth 3 {}).1.type =
    .singleton "Widget" := rfl
  have agree := call_on_type_eq_call_on_constant workshop workshop_ranked (Or.inl rfl)
    { method := "build" } (show workshop.project.graph.kind? 4 = _ from rfl)
    (show workshop.project.graph.kind? 5 = _ from rfl)
    (show workshop.project.graph.kind? 0 = _ from rfl) typed rfl rfl rfl
  exact ⟨typed, rfl, agree⟩

end Env

end HeuristicTyping
