import HeuristicTyping.Proofs.Rules.Kinds

/-!
# What the rules may find

`Env.Finds` lists, once and for all rules, what can be found if the questions that a rule asks get
answers of a given kind: where the type comes from, how it is put together, and what reason and
provenance go with it where these matter. `rule_finds` walks through the rules; whatever is to be
shown of all findings is then shown of the cases of the list.
-/

set_option autoImplicit false

namespace HeuristicTyping

/-- The declared result of a method, of instances or of the type as an object. -/
def SignatureSource.result (source : SignatureSource) (typeLevel : Bool) (owner method : String)
    (arguments : List Ty) : Ty :=
  if typeLevel then source.typeLevelReturnType owner method arguments
  else source.returnType owner method arguments

/-- A type that a rule gives without an answer. -/
inductive Ty.Fixed : Ty → Prop where
  | nil : Fixed .nil
  | self : Fixed .self
  | param {kind : ParamKind} {type : Ty} (fixes : Rule.fixedType? kind = some type) : Fixed type
  | owner (name : String) (typeLevel : Bool) : Fixed (.ofOwner name typeLevel)
  | constructed (name : String) : Fixed (Call.constructed name)

/-- Whether a reason goes with a type that may turn out not to be known although a signature, a
field or a callable was found: what stands there for the element, the field or the result decides.
-/
def Reason.isLate : Reason → Bool
  | .catalogueMethod _ _ | .blockParam _ _ _ | .shapeField _ | .callableResult => true
  | _ => false

section Given

variable (given : Inference → Prop)

/-- The type of an answer. -/
def Ty.Typed (type : Ty) : Prop := ∃ inference, given inference ∧ inference.type = type

/-- A type that a call may be dispatched on. -/
inductive Ty.Received : Ty → Prop where
  | typed {type : Ty} (typed : type.Typed given) : Received type
  | guessed (names : List String) : Received (.join (names.map .instanceOf))
  | named (name : String) : Received (.singleton name)
  | member {members : List Ty} {member : Ty} (received : Received (.union members))
      (listed : member ∈ members) : Received member

/-- What the receiver and the block of a call may bind. -/
inductive Binding.Bound : Binding → Prop where
  | nothing : Bound {}
  | receiver {type : Ty} (received : type.Received given) : Bound (.forReceiver type)
  | block {binding : Binding} {type : Ty} (bound : Bound binding) (typed : type.Typed given) :
      Bound (binding.bind TypeVar.blockResult type)
  | emptyBlock {binding : Binding} (bound : Bound binding) :
      Bound (binding.bind TypeVar.blockResult .nil)

/-- A declared type as a call makes use of it: without placeholders from the start, or with what
the call binds in their place and the rest erased. -/
inductive Ty.Instantiates (declared : Ty) : Ty → Prop where
  | plain (bare : declared.hasPlaceholders = false) : Instantiates declared declared
  | bound {binding : Binding} (bound : binding.Bound given) :
      Instantiates declared (declared.substitute binding).erase

namespace Env

/-- What a rule may find if what it asks for is answered by what is `given`. -/
inductive Finds (env : Env) : Inference → Prop where
  | handed {inference : Inference} (answer : given inference) : Finds env inference
  | unknown (reason : Reason) (early : reason.isLate = false) : Finds env (.unknown reason)
  | stored {id : NodeId} {type : Ty} {value : LiteralValue}
      (held : env.project.graph.kind? id = some (.literal type value)) :
      Finds env (.literal type)
  | tuple {elements : List Ty} (typed : ∀ element ∈ elements, element.Typed given) :
      Finds env (.literal (.tupleOf elements))
  | shape {fields : List (String × Ty)} (typed : ∀ field ∈ fields, field.2.Typed given) :
      Finds env (.literal (.shapeOf fields))
  | hash {keys values : List Ty} (keysTyped : ∀ key ∈ keys, key = .symbol ∨ key.Typed given)
      (valuesTyped : ∀ value ∈ values, value.Typed given) :
      Finds env (.literal (.hash (.join keys) (.join values)))
  | fixed {type : Ty} (fixed : type.Fixed) (reason : Reason) :
      Finds env { type, reason, provenance := .project }
  | guessed {names : List String} (some : names ≠ []) (reason : Reason) :
      Finds env { type := .join (names.map .instanceOf), reason, provenance := .heuristic }
  | merged {found : List Inference} (answers : ∀ inference ∈ found, given inference)
      (branches : Nat) :
      Finds env {
        type := .join (found.map Inference.type)
        reason := .branchJoin branches
        provenance := Rule.commonProvenance found }
  | defined {inference : Inference} {receiver : Ty} (answer : given inference)
      (known : inference.isUnknown = false) (received : receiver.Received given)
      (told : receiver.isUnknown = false) (reason : Reason) :
      Finds env {
        type := inference.type.substitute (Binding.bindSelf {} receiver)
        reason
        provenance := .project }
  | function {inference : Inference} (answer : given inference)
      (known : inference.isUnknown = false) (reason : Reason) :
      Finds env { type := inference.type, reason, provenance := .project }
  | declared {typeLevel : Bool} {owner method : String} {arguments : List Ty} {type : Ty}
      (known : (env.surroundings.signatures.result typeLevel owner method arguments).isUnknown =
        false)
      (instantiates : (env.surroundings.signatures.result typeLevel owner method
        arguments).Instantiates given type) :
      Finds env { type, reason := .catalogueMethod owner method, provenance := .catalogue }
  | yielded {types : List Ty} (some : types ≠ [])
      (each : ∀ type ∈ types, ∃ receiver owner method index declared,
        receiver.Received given ∧
          Call.yielded? receiver (env.surroundings.signatures.blockParams owner method) index
            declared = Option.some type)
      (owner method : String) (index : Nat) :
      Finds env {
        type := .join types
        reason := .blockParam owner method index
        provenance := .catalogue }
  | entry {fields : List (String × Ty)} (received : (Ty.shape fields).Received given)
      (key : String) : Finds env (Call.ofShape fields key)
  | callable {params : List (ParamOf Ty)} {result : Ty}
      (received : (Ty.method params result).Received given) :
      Finds env { type := result, reason := .callableResult, provenance := .heuristic }
  | joined {found : List Inference} (some : found ≠ [])
      (each : ∀ inference ∈ found, Finds env inference)
      (known : ∀ inference ∈ found, inference.isUnknown = false) (reason : Reason) :
      Finds env {
        type := .join (found.map Inference.type)
        reason
        provenance := .heuristic }
  | retagged {inference : Inference} (found : Finds env inference)
      (known : inference.isUnknown = false) :
      Finds env { inference with provenance := .heuristic }

end Env

end Given

/-! ### Guesses -/

section Rules

variable {env : Env} {given : Inference → Prop}

theorem guess_finds (project : Project) (calls : List CalledMethod) :
    (Duck.guess project calls).Meets env.surroundings (fun _ => True) given fun guess =>
      (∃ reason : Reason, reason.isLate = false ∧ guess = .unknown reason) ∨
        ∃ names reason, names ≠ [] ∧ guess =
          { type := .join (names.map .instanceOf), reason, provenance := .heuristic } := by
  unfold Duck.guess
  split
  · exact Or.inl ⟨_, rfl, rfl⟩
  · simp only [Inquiry.meets_bind, Inquiry.meets_pure]
    apply Inquiry.meets_mono (Inquiry.meets_unrestricted _)
    intro types _
    apply Inquiry.meets_mono (Inquiry.meets_unrestricted _)
    intro remaining _
    unfold Duck.verdict
    split_ifs with none many
    · exact Or.inl ⟨_, rfl, rfl⟩
    · exact Or.inl ⟨_, rfl, rfl⟩
    · exact Or.inr ⟨remaining, _, by simpa using none, rfl⟩

theorem Env.Finds.of_guess {guess : Inference}
    (how : (∃ reason : Reason, reason.isLate = false ∧ guess = .unknown reason) ∨
      ∃ names reason, names ≠ [] ∧ guess =
        { type := .join (names.map .instanceOf), reason, provenance := .heuristic }) :
    env.Finds given guess := by
  rcases how with ⟨reason, early, rfl⟩ | ⟨names, reason, some, rfl⟩
  · exact .unknown reason early
  · exact .guessed some reason

theorem Inquiry.typesOf_typed {surroundings : Surroundings} (ids : List NodeId) :
    (Inquiry.typesOf ids).Meets surroundings (fun _ => True) given fun types =>
      ∀ type ∈ types, type.Typed given :=
  Inquiry.meets_each fun _ _ => ⟨trivial, fun inference answer => ⟨inference, answer, rfl⟩⟩

/-! ### Calls -/

namespace Call

theorem binding_bound (call : Call) {receiver : Option Ty}
    (received : ∀ type ∈ receiver, type.Received given) :
    (binding call receiver).Meets env.surroundings (fun _ => True) given
      (Binding.Bound given) := by
  unfold binding
  extract_lets ofReceiver
  have base : Binding.Bound given ofReceiver := by
    unfold ofReceiver
    cases receiver with
    | none => exact .nothing
    | some type =>
        dsimp only
        split
        · exact .nothing
        · exact .receiver (received type rfl)
  cases call.block with
  | none => exact base
  | some block =>
      dsimp only
      cases block.result with
      | some result =>
          exact ⟨trivial, fun inference answer => base.block ⟨inference, answer, rfl⟩⟩
      | none =>
          dsimp only
          split
          · exact base.emptyBlock
          · exact base

theorem instantiate_instantiates (call : Call) {receiver : Option Ty}
    (received : ∀ type ∈ receiver, type.Received given) (declared : Ty) :
    (instantiate call receiver declared).Meets env.surroundings (fun _ => True) given
      (declared.Instantiates given) := by
  unfold instantiate
  split
  · rw [Inquiry.meets_bind]
    exact Inquiry.meets_mono (binding_bound call received) fun _ => .bound
  · rename_i bare
    exact .plain (by simpa using bare)

theorem byCatalogue_finds (site : Site) (owner : String) {receiver : Option Ty}
    (received : ∀ type ∈ receiver, type.Received given) (typeLevel : Bool) :
    (byCatalogue site owner receiver typeLevel).Meets env.surroundings (fun _ => True) given
      fun found => ∀ inference ∈ found, env.Finds given inference := by
  have answered (declared : Ty) : declared =
        env.surroundings.signatures.result typeLevel owner site.call.method site.arguments →
      (if declared.isUnknown then return none
        else do
          let type ← instantiate site.call receiver declared
          return some
            { type
              reason := .catalogueMethod owner site.call.method
              provenance := .catalogue } : Inquiry (Option Inference)).Meets env.surroundings
        (fun _ => True) given fun found => ∀ inference ∈ found, env.Finds given inference := by
    rintro rfl
    split
    · intro inference member
      cases member
    · rename_i known
      rw [Inquiry.meets_bind]
      apply Inquiry.meets_mono (instantiate_instantiates site.call received _)
      intro type instantiates inference member
      obtain rfl := Option.mem_some_iff.mp member
      exact .declared (by simpa using known) instantiates
  cases typeLevel with
  | true => exact answered _ rfl
  | false => exact answered _ rfl

theorem byDefinition_finds (project : Project) (node : Option NodeId) (method : String)
    (typeLevel : Bool) {receiver : Ty} (received : receiver.Received given)
    (told : receiver.isUnknown = false) :
    (byDefinition? project node method typeLevel receiver).Meets env.surroundings
      (fun _ => True) given fun found => ∀ inference ∈ found, env.Finds given inference := by
  cases node with
  | none =>
      intro inference member
      cases member
  | some target =>
      simp only [byDefinition?, byDefinition, Inquiry.meets_bind, Inquiry.meets_inferNode,
        Inquiry.meets_pure]
      refine ⟨trivial, ?_⟩
      intro found answer
      split
      · intro inference member
        obtain rfl := Option.mem_some_iff.mp member
        exact .handed answer
      · rename_i known
        intro inference member
        obtain rfl := Option.mem_some_iff.mp member
        exact .defined answer (by simpa using known) received told _

theorem onInstance_finds (project : Project) (site : Site) (name : String) {receiver : Ty}
    (received : receiver.Received given) (told : receiver.isUnknown = false) :
    (onInstance project site name receiver).Meets env.surroundings (fun _ => True) given
      fun found => ∀ inference ∈ found, env.Finds given inference := by
  have own : ∀ type ∈ some receiver, type.Received given := by simpa using received
  unfold onInstance
  rw [Inquiry.meets_bind]
  apply Inquiry.meets_mono (Inquiry.meets_unrestricted _)
  intro node _
  rw [Inquiry.meets_bind]
  apply Inquiry.meets_mono (byDefinition_finds project node site.call.method false received told)
  intro defined definedFound
  split
  · exact definedFound
  rw [Inquiry.meets_bind]
  apply Inquiry.meets_mono (byCatalogue_finds site name own false)
  intro known knownFound
  split
  · exact knownFound
  dsimp only
  split
  · exact definedFound
  rw [Inquiry.meets_bind]
  apply Inquiry.meets_mono (byCatalogue_finds site project.settings.catchAllType own false)
  intro inherited inheritedFound
  cases inherited with
  | none => exact definedFound
  | some found => exact inheritedFound

theorem onType_finds (project : Project) (site : Site) (name : String) :
    (onType project site name).Meets env.surroundings (fun _ => True) given
      fun found => ∀ inference ∈ found, env.Finds given inference := by
  have received : (Ty.singleton name).Received given := .named name
  unfold onType
  split
  · intro inference member
    obtain rfl := Option.mem_some_iff.mp member
    exact .fixed (.constructed name) _
  dsimp only
  rw [Inquiry.meets_bind]
  apply Inquiry.meets_mono (Inquiry.meets_unrestricted _)
  intro node _
  rw [Inquiry.meets_bind]
  apply Inquiry.meets_mono (byDefinition_finds project node site.call.method true received rfl)
  intro defined definedFound
  split
  · exact definedFound
  rw [Inquiry.meets_bind]
  apply Inquiry.meets_mono (byCatalogue_finds site name (by simpa using received) true)
  intro known knownFound
  cases known with
  | none => exact definedFound
  | some found => exact knownFound

theorem onNominal_finds (project : Project) (site : Site) {receiver : Ty}
    (received : receiver.Received given) :
    (onNominal project site receiver).Meets env.surroundings (fun _ => True) given
      fun found => ∀ inference ∈ found, env.Finds given inference := by
  unfold onNominal
  cases named : receiver.nominalName? with
  | none =>
      intro inference member
      cases member
  | some name =>
      have told : receiver.isUnknown = false := by
        cases receiver with
        | unknown => cases named
        | _ => rfl
      exact onInstance_finds project site name received told

mutual

theorem onReceiver_finds (project : Project) (site : Site) (receiver : Ty)
    (received : receiver.Received given) :
    (onReceiver project site receiver).Meets env.surroundings (fun _ => True) given
      fun found => ∀ inference ∈ found, env.Finds given inference := by
  cases receiver with
  | union members =>
      simp only [onReceiver, Inquiry.meets_bind]
      apply Inquiry.meets_mono (onMembers_finds project site members fun member listed =>
        received.member listed)
      rintro types ⟨found, rfl, each, known⟩
      split
      · intro inference member
        cases member
      · rename_i some
        intro inference member
        obtain rfl := Option.mem_some_iff.mp member
        exact .joined (by simpa using some) each known _
  | singleton name => exact onType_finds project site name
  | shape fields =>
      unfold onReceiver
      split
      · rename_i key _ _
        intro inference member
        obtain rfl := Option.mem_some_iff.mp member
        exact .entry received key
      · exact onNominal_finds project site received
  | method params result =>
      unfold onReceiver
      split
      · intro inference member
        obtain rfl := Option.mem_some_iff.mp member
        exact .callable received
      · exact onNominal_finds project site received
  | _ =>
      unfold onReceiver
      exact onNominal_finds project site received
termination_by structural receiver

theorem onMembers_finds (project : Project) (site : Site) (receivers : List Ty)
    (received : ∀ receiver ∈ receivers, receiver.Received given) :
    (onMembers project site receivers).Meets env.surroundings (fun _ => True) given
      fun types => ∃ found : List Inference, types = found.map Inference.type ∧
        (∀ inference ∈ found, env.Finds given inference) ∧
        ∀ inference ∈ found, inference.isUnknown = false := by
  cases receivers with
  | nil => exact ⟨[], rfl, by simp, by simp⟩
  | cons receiver receivers =>
      have first := onReceiver_finds project site receiver (received receiver List.mem_cons_self)
      have rest := onMembers_finds project site receivers fun other listed =>
        received other (List.mem_cons_of_mem receiver listed)
      unfold onMembers
      split
      · exact rest
      · simp only [Inquiry.meets_bind]
        apply Inquiry.meets_mono first
        intro finding findingFound
        apply Inquiry.meets_mono rest
        rintro types ⟨found, rfl, each, known⟩
        cases finding with
        | none => exact ⟨found, rfl, each, known⟩
        | some inference =>
            dsimp only
            split
            · exact ⟨found, rfl, each, known⟩
            · rename_i answer
              refine ⟨inference :: found, rfl, ?_, ?_⟩
              · exact List.forall_mem_cons.mpr ⟨findingFound inference rfl, each⟩
              · exact List.forall_mem_cons.mpr ⟨by simpa using answer, known⟩
termination_by structural receivers

end

theorem byFunction_finds (project : Project) (method : String) :
    (byFunction? project method).Meets env.surroundings (fun _ => True) given
      fun found => ∀ inference ∈ found, env.Finds given inference := by
  unfold byFunction?
  cases project.registries.methods.function? method with
  | none =>
      intro inference member
      cases member
  | some node =>
      simp only [Inquiry.meets_bind, Inquiry.meets_inferNode]
      refine ⟨trivial, ?_⟩
      intro found answer
      split
      · intro inference member
        cases member
      · rename_i known
        intro inference member
        obtain rfl := Option.mem_some_iff.mp member
        exact .function answer (by simpa using known) _

theorem failure_isLate (method : String) (receiver : Option Ty) :
    (failure method receiver).isLate = false := by
  unfold failure
  split
  · split <;> rfl
  · rfl

theorem fallback_finds (project : Project) (site : Site) {receiver : Option Ty}
    (received : ∀ type ∈ receiver, type.Received given) (triedCatchAll : Bool)
    {pending : Option Inference} (pendingFound : ∀ inference ∈ pending, env.Finds given inference) :
    (fallback project site receiver triedCatchAll pending).Meets env.surroundings
      (fun _ => True) given (env.Finds given) := by
  have otherwise :
      env.Finds given (pending.getD (.unknown (failure site.call.method receiver))) := by
    cases pending with
    | none => exact .unknown _ (failure_isLate _ _)
    | some found => exact pendingFound found rfl
  unfold fallback
  rw [Inquiry.meets_bind]
  apply Inquiry.meets_mono (byFunction_finds project site.call.method)
  intro function functionFound
  cases function with
  | some found => exact functionFound found rfl
  | none =>
      dsimp only
      split
      · exact otherwise
      · rw [Inquiry.meets_bind]
        apply Inquiry.meets_mono
          (byCatalogue_finds site project.settings.catchAllType received false)
        intro found foundFound
        cases found with
        | none => exact otherwise
        | some known => exact foundFound known rfl

theorem onReference_finds (project : Project) (site : Site) (name : String) :
    (onReference project site name).Meets env.surroundings (fun _ => True) given
      (env.Finds given) := by
  have received : ∀ type ∈ some (Ty.singleton name), type.Received given := by
    simpa using Ty.Received.named name
  unfold onReference
  rw [Inquiry.meets_bind]
  apply Inquiry.meets_mono (onType_finds project site name)
  intro pending pendingFound
  cases pending with
  | none => exact fallback_finds project site received false pendingFound
  | some found =>
      dsimp only
      split
      · exact pendingFound found rfl
      · exact fallback_finds project site received false pendingFound

theorem receiverType_received (project : Project) (method : String) (receiver : NodeId) :
    (receiverType project method receiver).Meets env.surroundings (fun _ => True) given
      fun typed => typed.1.Received given := by
  simp only [receiverType, Inquiry.typeOf, Inquiry.meets_bind, Inquiry.meets_inferNode,
    Inquiry.meets_pure]
  refine ⟨trivial, ?_⟩
  intro inference answer
  have typed : inference.type.Received given := .typed ⟨inference, answer, rfl⟩
  split
  · exact typed
  · rw [Inquiry.meets_bind]
    apply Inquiry.meets_mono (guess_finds project _)
    intro guess how
    rw [Inquiry.meets_pure]
    split
    · exact typed
    · rename_i known
      rcases how with ⟨reason, _, rfl⟩ | ⟨names, reason, some, rfl⟩
      · exact absurd rfl known
      · exact .guessed names

theorem onValue_finds (project : Project) (site : Site) (receiver : NodeId) :
    (onValue project site receiver).Meets env.surroundings (fun _ => True) given
      (env.Finds given) := by
  unfold onValue
  rw [Inquiry.meets_bind]
  apply Inquiry.meets_mono (receiverType_received project site.call.method receiver)
  rintro ⟨type, guessed⟩ received
  have own : ∀ other ∈ some type, other.Received given := by simpa using received
  dsimp only
  rw [Inquiry.meets_bind]
  apply Inquiry.meets_mono (onReceiver_finds project site type received)
  intro pending pendingFound
  cases pending with
  | none => exact fallback_finds project site own _ pendingFound
  | some found =>
      dsimp only
      split
      · rename_i known
        split
        · exact .retagged (pendingFound found rfl) (by simpa using known)
        · exact pendingFound found rfl
      · exact fallback_finds project site own _ pendingFound

theorem inquire_finds (project : Project) (call : Call) :
    (inquire project call).Meets env.surroundings (fun _ => True) given (env.Finds given) := by
  unfold inquire
  cases call.receiver with
  | none =>
      dsimp only
      rw [Inquiry.meets_bind]
      apply Inquiry.meets_mono (Inquiry.meets_unrestricted _)
      intro types _
      exact fallback_finds project _ (by simp) false (by simp)
  | some receiver =>
      dsimp only
      rw [Inquiry.meets_bind]
      apply Inquiry.meets_mono (Inquiry.meets_unrestricted _)
      intro reference _
      rw [Inquiry.meets_bind]
      apply Inquiry.meets_mono (Inquiry.meets_unrestricted _)
      intro types _
      cases reference with
      | some name => exact onReference_finds project _ name
      | none => exact onValue_finds project _ receiver

/-! ### Block parameters -/

theorem received_of_members {type member : Ty} (typed : type.Typed given)
    (listed : member ∈ type.members) : member.Received given := by
  have received : type.Received given := .typed typed
  cases type with
  | union members => exact received.member listed
  | _ =>
      obtain rfl := List.mem_singleton.mp listed
      exact received

theorem blockParamOn_yields (project : Project) (method : String) (index declared : Nat)
    {receiver : Ty} :
    (blockParamOn project method index declared receiver).Meets env.surroundings
      (fun _ => True) given fun found => ∀ result ∈ found, ∃ owner,
        yielded? receiver (env.surroundings.signatures.blockParams owner method) index declared =
          some result.2 := by
  unfold blockParamOn
  cases receiver.nominalName? with
  | none =>
      intro result member
      cases member
  | some name =>
      simp only [Inquiry.meets_bind, Inquiry.blockParams, Inquiry.meets_consult,
        Inquiry.meets_done]
      split
      · intro result member
        obtain ⟨type, same, rfl⟩ := Option.map_eq_some_iff.mp member
        exact ⟨_, same⟩
      · intro result member
        obtain ⟨type, same, rfl⟩ := Option.map_eq_some_iff.mp member
        exact ⟨_, same⟩

theorem inquireBlockParam_finds (project : Project) (index : Nat) (call : Call) :
    (inquireBlockParam project index call).Meets env.surroundings (fun _ => True) given
      (env.Finds given) := by
  unfold inquireBlockParam
  cases call.receiver with
  | none => exact .unknown _ rfl
  | some receiver =>
      simp only [Inquiry.typeOf, Inquiry.meets_bind, Inquiry.meets_inferNode, Inquiry.meets_pure]
      refine ⟨trivial, ?_⟩
      intro inference answer
      split
      · exact .unknown _ rfl
      · rw [Inquiry.meets_bind]
        generalize (call.block.map fun block => block.params.length).getD 0 = declared
        have single : ∀ member ∈ inference.type.members,
            (blockParamOn project call.method index declared member).Meets env.surroundings
              (fun _ => True) given fun found => ∀ result ∈ found, ∃ receiver owner,
                receiver.Received given ∧
                  yielded? receiver (env.surroundings.signatures.blockParams owner call.method)
                    index declared = some result.2 := by
          intro member listed
          apply Inquiry.meets_mono (blockParamOn_yields project call.method index declared)
          intro found yields result same
          obtain ⟨owner, yields⟩ := yields result same
          exact ⟨member, owner, received_of_members ⟨inference, answer, rfl⟩ listed, yields⟩
        apply Inquiry.meets_mono (Inquiry.meets_eachSome single)
        intro found each
        split
        · exact .unknown _ rfl
        · refine .yielded (by simp) ?_ _ _ _
          intro type listed
          obtain ⟨result, among, rfl⟩ := List.mem_map.mp listed
          obtain ⟨receiver, owner, received, yields⟩ := each result among
          exact ⟨receiver, owner, call.method, index, declared, received, yields⟩

end Call

/-! ### Rules -/

namespace Rule

theorem follow_finds (target : Option NodeId) {otherwise : Reason}
    (early : otherwise.isLate = false) :
    (follow target otherwise).Meets env.surroundings (fun _ => True) given
      (env.Finds given) := by
  cases target with
  | none => exact .unknown otherwise early
  | some node => exact ⟨trivial, fun _ => .handed⟩

theorem hash_finds (entries : List (HashKey × NodeId)) :
    (hash entries).Meets env.surroundings (fun _ => True) given fun type =>
      env.Finds given (.literal type) := by
  unfold hash
  cases symbolEntries? entries with
  | some named =>
      dsimp only
      rw [Inquiry.meets_bind]
      have single : ∀ entry ∈ named, (field entry).Meets env.surroundings (fun _ => True) given
          fun field => field.2.Typed given :=
        fun _ _ => ⟨trivial, fun inference answer => ⟨inference, answer, rfl⟩⟩
      apply Inquiry.meets_mono (Inquiry.meets_each single)
      intro fields typed
      exact .shape typed
  | none =>
      dsimp only
      rw [Inquiry.meets_bind]
      have single : ∀ pair ∈ entries, (entry pair).Meets env.surroundings (fun _ => True) given
          fun types => (types.1 = .symbol ∨ types.1.Typed given) ∧ types.2.Typed given := by
        rintro ⟨key, value⟩ _
        cases key with
        | symbol name =>
            exact ⟨trivial, fun inference answer => ⟨Or.inl rfl, inference, answer, rfl⟩⟩
        | expression node =>
            exact ⟨trivial, fun key keyAnswer => ⟨trivial, fun value valueAnswer =>
              ⟨Or.inr ⟨key, keyAnswer, rfl⟩, value, valueAnswer, rfl⟩⟩⟩
      apply Inquiry.meets_mono (Inquiry.meets_each single)
      intro types typed
      apply Env.Finds.hash
      · intro key listed
        obtain ⟨pair, among, rfl⟩ := List.mem_map.mp listed
        exact (typed pair among).1
      · intro value listed
        obtain ⟨pair, among, rfl⟩ := List.mem_map.mp listed
        exact (typed pair among).2

theorem literal_finds {id : NodeId} {type : Ty} {value : LiteralValue}
    (held : env.project.graph.kind? id = some (.literal type value)) :
    (literal type value).Meets env.surroundings (fun _ => True) given (env.Finds given) := by
  unfold literal
  split
  · rw [Inquiry.meets_bind]
    exact Inquiry.meets_mono (Inquiry.typesOf_typed _) fun _ typed => .tuple typed
  · rw [Inquiry.meets_bind]
    exact Inquiry.meets_mono (hash_finds _) fun _ found => found
  · exact .stored held

theorem guessed_finds (project : Project) (calls : List CalledMethod) {found : Inference}
    (finds : env.Finds given found) (keep : Inference → Bool) :
    (do
      let guess ← Duck.guess project calls
      return if keep guess then found else guess : Inquiry Inference).Meets env.surroundings
      (fun _ => True) given (env.Finds given) := by
  rw [Inquiry.meets_bind]
  apply Inquiry.meets_mono (guess_finds project calls)
  intro guess how
  rw [Inquiry.meets_pure]
  split
  · exact finds
  · exact .of_guess how

theorem localRead_finds (project : Project) (name : String) (var : VarId)
    (write : Option NodeId) :
    (localRead project name var write).Meets env.surroundings (fun _ => True) given
      (env.Finds given) := by
  unfold localRead
  rw [Inquiry.meets_bind]
  apply Inquiry.meets_mono (follow_finds write rfl)
  intro written writtenFound
  dsimp only
  split
  · exact writtenFound
  · exact guessed_finds project _ writtenFound Inference.isUnknown

theorem openParam_finds (project : Project) (name : String) (default : Option NodeId)
    (var : VarId) :
    (openParam project name default var).Meets env.surroundings (fun _ => True) given
      (env.Finds given) := by
  have defaulted : (defaultValue default).Meets env.surroundings (fun _ => True) given
      fun found => env.Finds given (found.getD (.unknown (.untypedParam name))) := by
    cases default with
    | none => exact .unknown _ rfl
    | some node => exact ⟨trivial, fun _ => .handed⟩
  unfold openParam
  rw [Inquiry.meets_bind]
  apply Inquiry.meets_mono defaulted
  intro found foundFound
  dsimp only
  split
  · exact foundFound
  · exact guessed_finds project _ foundFound fun guess => guess.isUnknown && found.isSome

theorem merge_finds (branches : List NodeId) :
    (merge branches).Meets env.surroundings (fun _ => True) given (env.Finds given) := by
  unfold merge
  split
  · exact .unknown _ rfl
  · exact ⟨trivial, fun _ => .handed⟩
  · rw [Inquiry.meets_bind]
    have single : ∀ target ∈ branches, (Inquiry.inferNode target).Meets env.surroundings
        (fun _ => True) given given := fun _ _ => ⟨trivial, fun _ answer => answer⟩
    exact Inquiry.meets_mono (Inquiry.meets_each single) fun _ answers => .merged answers _

end Rule

/-- What a rule finds is listed, whoever answers what it asks for. -/
theorem rule_finds {id : NodeId} {kind : NodeKind}
    (held : env.project.graph.kind? id = some kind) :
    (env.project.rule kind).Meets env.surroundings (fun _ => True) given (env.Finds given) := by
  cases kind with
  | literal type value => exact Rule.literal_finds held
  | localWrite name var value => exact Rule.follow_finds value rfl
  | localRead name var write => exact Rule.localRead_finds env.project name var write
  | fieldWrite scope owner name value => exact Rule.follow_finds value rfl
  | fieldRead scope owner name write =>
      cases write with
      | some writer => exact ⟨trivial, fun _ => .handed⟩
      | none =>
          simp only [Project.rule, Rule.fieldRead, Inquiry.meets_bind]
          apply Inquiry.meets_mono (find_meets _ owner name)
          intro writer _
          exact Rule.follow_finds writer rfl
  | param name paramKind default var =>
      simp only [Project.rule, Rule.param]
      split
      · rename_i type fixes
        exact .fixed (.param fixes) _
      · exact Rule.openParam_finds env.project name default var
  | constant name target =>
      cases target with
      | some target => exact ⟨trivial, fun _ => .handed⟩
      | none =>
          simp only [Project.rule, Rule.constant, Inquiry.constantKind?, Inquiry.meets_bind,
            Inquiry.meets_consult, Inquiry.meets_done, Inquiry.meets_pure]
          split
          · exact .fixed (.owner name true) _
          · exact .unknown _ rfl
  | call site => exact Call.inquire_finds env.project site
  | blockParam index site =>
      simp only [Project.rule, Rule.blockParam]
      split
      · exact Call.inquireBlockParam_finds env.project index _
      · exact .unknown _ rfl
  | merge branches => exact Rule.merge_finds branches
  | definition method =>
      simp only [Project.rule, Rule.definition]
      split
      · exact .fixed .self _
      split
      · exact .fixed .nil _
      · exact Rule.follow_finds method.result rfl
  | selfReference owner typeLevel => exact .fixed (.owner owner typeLevel) _
  | explicitReturn value =>
      cases value with
      | none => exact .fixed .nil _
      | some node => exact ⟨trivial, fun _ => .handed⟩

end Rules

end HeuristicTyping
