import HeuristicTyping.Proofs.Resolver.Fresh
import HeuristicTyping.Proofs.Resolver.WellFormed

/-!
# Calls on unions

A call on a union is dispatched member by member, and what the members answer is joined. So it has
the union of the types of the single calls, as long as these get their types from their receivers.
What nobody answers falls to a last resort, which is tried once for the whole call; there the single
calls may get more than the call on the union does. The calls also have to find the same for the
nodes that they ask for, which they do if they enter no cycle at two different nodes.
-/

set_option autoImplicit false

namespace HeuristicTyping

namespace Call

/-! ### Dispatch does not look at the node of the receiver -/

mutual

theorem onReceiver_moved (project : Project) (call : Call) (receiver : Option NodeId)
    (arguments : List Ty) (type : Ty) :
    onReceiver project { call := { call with receiver }, arguments } type =
      onReceiver project { call, arguments } type := by
  cases type with
  | union members =>
      unfold onReceiver
      rw [onMembers_moved project call receiver arguments members]
  | _ => rfl
termination_by structural type

theorem onMembers_moved (project : Project) (call : Call) (receiver : Option NodeId)
    (arguments : List Ty) (types : List Ty) :
    onMembers project { call := { call with receiver }, arguments } types =
      onMembers project { call, arguments } types := by
  cases types with
  | nil => rfl
  | cons type types =>
      unfold onMembers
      rw [onReceiver_moved project call receiver arguments type,
        onMembers_moved project call receiver arguments types]
termination_by structural types

end

/-! ### What an oracle makes of a call -/

/-- The type that a finding tells, if it tells one. -/
def toldType? (found : Option Inference) : Option Ty :=
  (found.filter fun inference => !inference.isUnknown).map Inference.type

theorem isAnswer_eq (found : Option Inference) : isAnswer found = (toldType? found).isSome := by
  cases found with
  | none => rfl
  | some inference => cases unknown : inference.isUnknown <;> simp [isAnswer, toldType?, unknown]

theorem toldType_of_silent {found : Option Inference} (silent : isAnswer found = false) :
    toldType? found = none := by
  cases found with
  | none => rfl
  | some inference => simpa [toldType?, isAnswer] using silent

theorem toldType_of_answer {found : Option Inference} (answer : isAnswer found = true) :
    ∃ inference, found = some inference ∧ toldType? found = some inference.type := by
  cases found with
  | none => cases answer
  | some inference =>
      have known : inference.isUnknown = false := by simpa [isAnswer] using answer
      exact ⟨inference, rfl, by simp [toldType?, known]⟩

section Answer

variable {surroundings : Surroundings} {oracle : NodeId → Inference} {project : Project}

theorem onMembers_answer (site : Site) {members : List Ty}
    (known : ∀ member ∈ members, member.isUnknown = false) :
    (onMembers project site members).answer surroundings oracle =
      members.filterMap fun member =>
        toldType? ((onReceiver project site member).answer surroundings oracle) := by
  induction members with
  | nil => rfl
  | cons member members ih =>
      have rest := ih fun other listed => known other (List.mem_cons_of_mem member listed)
      have own : member.isUnknown = false := known member List.mem_cons_self
      unfold onMembers
      simp only [own, Bool.false_eq_true, if_false, Inquiry.answer_bind, rest]
      cases found : (onReceiver project site member).answer surroundings oracle with
      | none => simp [found, toldType?]
      | some inference =>
          cases unknown : inference.isUnknown <;> simp [found, toldType?, unknown]

/-- A known result of a top-level function is found for that reason. -/
theorem byFunction_answer {method : String} {found : Inference}
    (answered : (byFunction? project method).answer surroundings oracle = some found) :
    found.isUnknown = false ∧ found.reason = .topLevelFunction method ∧
      ∃ node, found.type = (oracle node).type := by
  unfold byFunction? at answered
  cases registered : project.registries.methods.function? method with
  | none =>
      rw [registered] at answered
      cases answered
  | some node =>
      rw [registered] at answered
      simp only [Inquiry.answer_bind] at answered
      generalize same : (Inquiry.inferNode node).answer surroundings oracle = inference at answered
      cases known : inference.isUnknown with
      | true =>
          rw [known, if_pos rfl] at answered
          cases answered
      | false =>
          rw [known, if_neg Bool.false_ne_true] at answered
          obtain rfl := Option.some.inj answered
          have told : inference.type = (oracle node).type := congrArg Inference.type same.symm
          exact ⟨known, rfl, node, told⟩

theorem byCatalogue_reason {site : Site} {owner : String} {receiver : Option Ty}
    {found : Inference}
    (answered : (byCatalogue site owner receiver false).answer surroundings oracle =
      some found) :
    found.reason = .catalogueMethod owner site.call.method := by
  simp only [byCatalogue, Bool.false_eq_true, if_false, Inquiry.answer_bind] at answered
  generalize (Inquiry.returnType owner site.call.method site.arguments).answer surroundings
    oracle = declared at answered
  cases known : declared.isUnknown with
  | true =>
      rw [known, if_pos rfl] at answered
      cases answered
  | false =>
      rw [known, if_neg Bool.false_ne_true] at answered
      simp only [Inquiry.answer_bind, Inquiry.answer_pure] at answered
      obtain rfl := Option.some.inj answered
      rfl

/-- The last resort starts with the top-level function. -/
theorem fallback_of_function {site : Site} {receiver : Option Ty} {triedCatchAll : Bool}
    {pending : Option Inference} {found : Inference}
    (answered : (byFunction? project site.call.method).answer surroundings oracle = some found) :
    (fallback project site receiver triedCatchAll pending).answer surroundings oracle =
      found := by
  simp only [fallback, Inquiry.answer_bind, answered, Inquiry.answer_pure]

theorem fallback_without_function {site : Site} {receiver : Option Ty} {triedCatchAll : Bool}
    {pending : Option Inference} (silent : isAnswer pending = false)
    (unanswered : (byFunction? project site.call.method).answer surroundings oracle = none) :
    let found := (fallback project site receiver triedCatchAll pending).answer surroundings oracle
    (triedCatchAll = true → found.isUnknown = true) ∧
      (found.isUnknown = false → found.reason ≠ .topLevelFunction site.call.method) := by
  have otherwise : (pending.getD (.unknown (failure site.call.method receiver))).isUnknown =
      true := by
    cases pending with
    | none => rfl
    | some inference => simpa [isAnswer] using silent
  simp only [fallback, Inquiry.answer_bind, unanswered]
  cases triedCatchAll with
  | true => simp [otherwise]
  | false =>
      simp only [Bool.false_eq_true, if_false, Inquiry.answer_bind, Inquiry.answer_pure,
        false_implies, true_and]
      cases answered : (byCatalogue site project.settings.catchAllType receiver false).answer
        surroundings oracle with
      | none => simp [otherwise]
      | some found =>
          intro _ same
          have reason := byCatalogue_reason answered
          rw [Option.getD_some, reason] at same
          cases same

theorem typeReference_of_literal {receiver : NodeId} {stored : Ty} {value : LiteralValue}
    (held : project.graph.kind? receiver = some (.literal stored value)) :
    typeReference? project receiver = pure none := by
  have ends : followAliases project.graph maxAliases receiver = some (.value receiver) := by
    simp only [maxAliases, followAliases, held]
  simp only [typeReference?, ends, if_pos]

/-- A call on a receiver of known type: dispatch, and the last resort if that answers nothing. -/
theorem onValue_answer (site : Site) {receiver : NodeId} {type : Ty}
    (typed : (oracle receiver).type = type) (known : type.isUnknown = false) :
    (onValue project site receiver).answer surroundings oracle =
      let found := (onReceiver project site type).answer surroundings oracle
      if isAnswer found then found.getD default
      else (fallback project site (some type) (asksCatchAll type) found).answer surroundings
        oracle := by
  have receives : (receiverType project site.call.method receiver).answer surroundings oracle =
      (type, false) := by
    simp only [receiverType, Inquiry.answer_bind]
    generalize same : (Inquiry.typeOf receiver).answer surroundings oracle = found
    obtain rfl : found = type := same.symm.trans typed
    simp [known]
  simp only [onValue, Inquiry.answer_bind, receives]
  cases (onReceiver project site type).answer surroundings oracle with
  | none => rfl
  | some inference => cases unknown : inference.isUnknown <;> simp [isAnswer, unknown]

/-- A call with the types that the oracle tells of its arguments. -/
def site (call : Call) (oracle : NodeId → Inference) : Site where
  call := call
  arguments := call.arguments.map fun id => (oracle id).type

theorem inquire_answer {call : Call} {receiver : NodeId} {stored type : Ty} {value : LiteralValue}
    (held : project.graph.kind? receiver = some (.literal stored value))
    (typed : (oracle receiver).type = type) (known : type.isUnknown = false) :
    (inquire project { call with receiver := some receiver }).answer surroundings oracle =
      let site : Site :=
        { call, arguments := call.arguments.map fun id => (oracle id).type }
      let found := (onReceiver project site type).answer surroundings oracle
      if isAnswer found then found.getD default
      else (fallback project site (some type) (asksCatchAll type) found).answer surroundings
        oracle := by
  simp only [inquire, typeReference_of_literal held, Inquiry.answer_bind, Inquiry.answer_pure,
    Inquiry.answer_typesOf, onValue_answer _ typed known, onReceiver_moved]
  rfl

end Answer

end Call

namespace Env

/-! ### Single calls -/

/-- What a receiver of the type answers to a call by itself: by definitions in the project and by
known signatures, without the last resort. The oracle answers for nodes. -/
def dispatched (env : Env) (oracle : NodeId → Inference) (call : Call) (type : Ty) :
    Option Inference :=
  (Call.onReceiver env.project (call.site oracle) type).answer env.surroundings oracle

/-- The node is the call on a literal receiver, of which the oracle tells the type. -/
inductive CallsOn (env : Env) (oracle : NodeId → Inference) (call : Call) (type : Ty)
    (id : NodeId) : Prop where
  | literal {receiver : NodeId} {stored : Ty} {value : LiteralValue}
      (held : env.project.graph.kind? id = some (.call { call with receiver := some receiver }))
      (received : env.project.graph.kind? receiver = some (.literal stored value))
      (typed : (oracle receiver).type = type) : CallsOn env oracle call type id

/-- The receiver of the call answered nothing, and yet the call has a type. -/
def ByLastResort (env : Env) (oracle : NodeId → Inference) (call : Call) (type : Ty)
    (id : NodeId) : Prop :=
  Call.isAnswer (env.dispatched oracle call type) = false ∧ (env.fresh id).isUnknown = false

section Single

variable {env : Env} {call : Call} {type : Ty} {id : NodeId} {starts : List NodeId}
  (plain : env.surroundings.simplifier = .none) (undisturbed : env.Undisturbed starts)
  (among : id ∈ starts) (calls : env.CallsOn (env.told starts) call type id)
  (known : type.isUnknown = false)
include plain undisturbed among calls known

theorem fresh_call :
    env.fresh id = if Call.isAnswer (env.dispatched (env.told starts) call type) then
        (env.dispatched (env.told starts) call type).getD default
      else (Call.fallback env.project (call.site (env.told starts)) (some type)
        (Call.asksCatchAll type) (env.dispatched (env.told starts) call type)).answer
          env.surroundings (env.told starts) := by
  obtain ⟨held, received, typed⟩ := calls
  obtain ⟨node, live, same⟩ := Option.map_eq_some_iff.mp held
  have unchanged (found : Inference) : env.simplified found = found := by
    unfold simplified
    rw [plain]
    rfl
  rw [fresh_eq_answer undisturbed among live, unchanged, same]
  exact Call.inquire_answer received typed known

/-- Without the last resort, a call has the type that its receiver answers, if it answers one. -/
theorem fresh_of_own (own : ¬ env.ByLastResort (env.told starts) call type id) :
    (env.fresh id).type =
      (Call.toldType? (env.dispatched (env.told starts) call type)).getD .unknown := by
  cases answers : Call.isAnswer (env.dispatched (env.told starts) call type) with
  | true =>
      obtain ⟨inference, same, told⟩ := Call.toldType_of_answer answers
      rw [fresh_call plain undisturbed among calls known, if_pos answers, told, same]
      rfl
  | false =>
      have unknown : (env.fresh id).isUnknown = true := by
        by_contra told
        exact own ⟨answers, by simpa using told⟩
      rw [Call.toldType_of_silent answers]
      exact Ty.eq_unknown unknown

/-- A known top-level function answers for every receiver that does not. -/
theorem fresh_of_function
    (silent : Call.isAnswer (env.dispatched (env.told starts) call type) = false)
    {found : Inference}
    (answered : (Call.byFunction? env.project call.method).answer env.surroundings
      (env.told starts) = some found) :
    env.fresh id = found := by
  rw [fresh_call plain undisturbed among calls known, silent, if_neg Bool.false_ne_true]
  exact Call.fallback_of_function answered

theorem fresh_without_function
    (silent : Call.isAnswer (env.dispatched (env.told starts) call type) = false)
    (unanswered : (Call.byFunction? env.project call.method).answer env.surroundings
      (env.told starts) = none) :
    (Call.asksCatchAll type = true → (env.fresh id).isUnknown = true) ∧
      ((env.fresh id).isUnknown = false →
        (env.fresh id).reason ≠ .topLevelFunction call.method) := by
  rw [fresh_call plain undisturbed among calls known, silent, if_neg Bool.false_ne_true]
  exact Call.fallback_without_function silent unanswered

end Single

/-! ### Unions -/

section Union

variable {env : Env} {call : Call}

theorem told_proper (built : env.Supplies Ty.IsProper)
    (standard : env.surroundings.simplifier.IsStandard) (starts : List NodeId) (id : NodeId) :
    (env.told starts id).type.All Ty.IsProper := by
  have closed := closed_all Ty.robust_isProper trivial built standard
  rcases @memo_of_told env starts id with ⟨start, _, done⟩ | ⟨_, same⟩
  · exact (closed.find env.project.graph.size start (Progress.remembers_empty _)).1 id _ done
  · rw [same]
    exact (closed.find env.project.graph.size id (Progress.remembers_empty _)).2

theorem CallsOn.received {oracle : NodeId → Inference} {type : Ty} {id : NodeId}
    (calls : env.CallsOn oracle call type id)
    (proper : ∀ node, (oracle node).type.All Ty.IsProper) :
    type.Received fun inference => inference.type.All Ty.IsProper := by
  obtain ⟨_, _, typed⟩ := calls
  exact .typed ⟨_, proper _, typed⟩

section Members

variable {oracle : NodeId → Inference} (built : env.Supplies Ty.IsProper)
  (proper : ∀ node, (oracle node).type.All Ty.IsProper)
include built proper

theorem dispatched_proper {type told : Ty}
    (received : type.Received fun inference => inference.type.All Ty.IsProper)
    (tells : Call.toldType? (env.dispatched oracle call type) = some told) :
    told.IsProper ∧ told.isUnknown = false := by
  obtain ⟨inference, kept, rfl⟩ := Option.map_eq_some_iff.mp tells
  obtain ⟨found, tells⟩ := Option.filter_eq_some_iff.mp kept
  have known : inference.isUnknown = false := by simpa using tells
  have finds : env.Finds (fun inference => inference.type.All Ty.IsProper) inference :=
    Inquiry.post_answer (Call.onReceiver_finds env.project (call.site oracle) type received)
      proper inference found
  have all := finds.all Ty.robust_isProper trivial built fun _ all => all
  exact ⟨all.own, known⟩

/-- A union tells the join of what its members tell. -/
theorem told_union {members told : List Ty}
    (known : ∀ member ∈ members, member.isUnknown = false)
    (received : (Ty.union members).Received fun inference => inference.type.All Ty.IsProper)
    (answers : (members.filterMap fun member =>
      Call.toldType? (env.dispatched oracle call member)) = told) :
    Call.toldType? (env.dispatched oracle call (.union members)) =
      if told.isEmpty then none else some (.join told) := by
  have found : (Call.onMembers env.project (call.site oracle) members).answer env.surroundings
      oracle = told := (Call.onMembers_answer (call.site oracle) known).trans answers
  rw [dispatched, Call.onReceiver, Inquiry.answer_bind, found]
  cases told with
  | nil => rfl
  | cons first rest =>
      have among : first ∈ members.filterMap fun member =>
          Call.toldType? (env.dispatched oracle call member) := answers ▸ List.mem_cons_self
      obtain ⟨member, listed, tells⟩ := List.mem_filterMap.mp among
      obtain ⟨own, simple⟩ := dispatched_proper built proper (received.member listed) tells
      have joined : (Ty.join (first :: rest)).isUnknown = false :=
        Ty.join_isUnknown List.mem_cons_self own simple
      simp [Call.toldType?, Inference.isUnknown, joined]

theorem silent_union_iff {members : List Ty}
    (known : ∀ member ∈ members, member.isUnknown = false)
    (received : (Ty.union members).Received fun inference => inference.type.All Ty.IsProper) :
    Call.isAnswer (env.dispatched oracle call (.union members)) = false ↔
      ∀ member ∈ members, Call.isAnswer (env.dispatched oracle call member) = false := by
  generalize answers : (members.filterMap fun member =>
    Call.toldType? (env.dispatched oracle call member)) = told
  simp only [Call.isAnswer_eq, told_union built proper known received answers]
  cases told with
  | nil => simpa using List.filterMap_eq_nil_iff.mp answers
  | cons first rest =>
      have among : first ∈ members.filterMap fun member =>
          Call.toldType? (env.dispatched oracle call member) := answers ▸ List.mem_cons_self
      obtain ⟨member, listed, tells⟩ := List.mem_filterMap.mp among
      refine iff_of_false (by simp) fun silent => ?_
      have none := silent member listed
      rw [tells] at none
      cases none

end Members

/-- What the inferences of a call on a union and of the single calls have found for nodes. -/
abbrev toldOf (env : Env) (whole : NodeId) (singles : List (Ty × NodeId)) : NodeId → Inference :=
  env.told (whole :: singles.map Prod.snd)

/-- A call on a receiver whose type is a union in normal form, and for each member the same call on
a receiver of that type alone. No two of these calls disturb each other. -/
structure SplitCall (env : Env) (call : Call) (whole : NodeId) (singles : List (Ty × NodeId)) :
    Prop where
  normal : (Ty.union (singles.map Prod.fst)).IsNormal
  undisturbed : env.Undisturbed (whole :: singles.map Prod.snd)
  calls : env.CallsOn (env.toldOf whole singles) call (.union (singles.map Prod.fst)) whole
  each : ∀ single ∈ singles, env.CallsOn (env.toldOf whole singles) call single.1 single.2

namespace SplitCall

variable {whole : NodeId} {singles : List (Ty × NodeId)}

theorem known (split : env.SplitCall call whole singles) :
    ∀ member ∈ singles.map Prod.fst, member.isUnknown = false :=
  fun member listed => (split.normal.own.simple member listed).2

theorem knownEach (split : env.SplitCall call whole singles) :
    ∀ single ∈ singles, single.1.isUnknown = false :=
  fun _ listed => split.known _ (List.mem_map_of_mem listed)

theorem among_singles {single : Ty × NodeId} (listed : single ∈ singles) :
    single.2 ∈ whole :: singles.map Prod.snd :=
  List.mem_cons_of_mem whole (List.mem_map_of_mem listed)

theorem exists_single (split : env.SplitCall call whole singles) : ∃ single, single ∈ singles := by
  apply List.exists_mem_of_length_pos
  have several := split.normal.own.several
  rw [List.length_map] at several
  omega

variable (split : env.SplitCall call whole singles)
  (plain : env.surroundings.simplifier = .none) (built : env.Supplies Ty.IsProper)
include split plain built

theorem silent_iff :
    Call.isAnswer (env.dispatched (env.toldOf whole singles) call
        (.union (singles.map Prod.fst))) = false ↔
      ∀ single ∈ singles,
        Call.isAnswer (env.dispatched (env.toldOf whole singles) call single.1) = false := by
  have proper := env.told_proper built (Or.inl plain) (whole :: singles.map Prod.snd)
  rw [silent_union_iff built proper split.known (split.calls.received proper),
    List.forall_mem_map]

/-- A call on the union that got its type from the last resort got it from a top-level function, and
so would each single call. -/
theorem not_byLastResort_whole
    (own : ∀ single ∈ singles,
      ¬ env.ByLastResort (env.toldOf whole singles) call single.1 single.2) :
    ¬ env.ByLastResort (env.toldOf whole singles) call (.union (singles.map Prod.fst)) whole := by
  rintro ⟨silent, told⟩
  cases answered : (Call.byFunction? env.project call.method).answer env.surroundings
    (env.toldOf whole singles) with
  | none =>
      have unknown := (fresh_without_function plain split.undisturbed List.mem_cons_self
        split.calls rfl silent answered).1 rfl
      rw [unknown] at told
      cases told
  | some found =>
      obtain ⟨single, listed⟩ := split.exists_single
      have silentSingle := (split.silent_iff plain built).mp silent single listed
      have same := fresh_of_function plain split.undisturbed (among_singles listed)
        (split.each single listed) (split.knownEach single listed) silentSingle answered
      refine own single listed ⟨silentSingle, ?_⟩
      rw [same]
      exact (Call.byFunction_answer answered).1

/-- Where the members answer for themselves, the call on the union joins what they answer. -/
theorem fresh_of_own
    (own : ∀ single ∈ singles,
      ¬ env.ByLastResort (env.toldOf whole singles) call single.1 single.2) :
    (env.fresh whole).type = Ty.join (singles.map fun single => (env.fresh single.2).type) := by
  have proper := env.told_proper built (Or.inl plain) (whole :: singles.map Prod.snd)
  have received := split.calls.received proper
  have told : ∀ single ∈ singles, (env.fresh single.2).type =
      (Call.toldType? (env.dispatched (env.toldOf whole singles) call single.1)).getD .unknown :=
    fun single listed => Env.fresh_of_own plain split.undisturbed (among_singles listed)
      (split.each single listed) (split.knownEach single listed) (own single listed)
  have tellsKnown : ∀ single ∈ singles, ∀ type,
      Call.toldType? (env.dispatched (env.toldOf whole singles) call single.1) = some type →
        type.isUnknown = false := by
    intro single listed type tells
    exact (dispatched_proper built proper
      (received.member (List.mem_map_of_mem listed)) tells).2
  have answers : (singles.map Prod.fst).filterMap (fun member =>
      Call.toldType? (env.dispatched (env.toldOf whole singles) call member)) =
      singles.filterMap fun single =>
        Call.toldType? (env.dispatched (env.toldOf whole singles) call single.1) :=
    List.filterMap_map
  rw [List.map_congr_left told, Ty.join_getD tellsKnown,
    Env.fresh_of_own plain split.undisturbed List.mem_cons_self split.calls rfl
      (split.not_byLastResort_whole plain built own),
    told_union built proper split.known received answers]
  generalize (singles.filterMap fun single =>
    Call.toldType? (env.dispatched (env.toldOf whole singles) call single.1)) = types
  cases types <;> rfl

/-- Where a top-level function answers for each member, it answers for the union too. -/
theorem fresh_of_function
    (last : ∀ single ∈ singles,
      env.ByLastResort (env.toldOf whole singles) call single.1 single.2 ∧
        (env.fresh single.2).reason = .topLevelFunction call.method) :
    (env.fresh whole).type = Ty.join (singles.map fun single => (env.fresh single.2).type) := by
  have silent := (split.silent_iff plain built).mpr fun single listed => (last single listed).1.1
  cases answered : (Call.byFunction? env.project call.method).answer env.surroundings
    (env.toldOf whole singles) with
  | none =>
      obtain ⟨single, listed⟩ := split.exists_single
      obtain ⟨⟨silentSingle, told⟩, reason⟩ := last single listed
      exact absurd reason ((fresh_without_function plain split.undisturbed (among_singles listed)
        (split.each single listed) (split.knownEach single listed) silentSingle answered).2 told)
  | some found =>
      have union := Env.fresh_of_function plain split.undisturbed List.mem_cons_self split.calls
        rfl silent answered
      have same : ∀ single ∈ singles, (env.fresh single.2).type = found.type := by
        intro single listed
        rw [Env.fresh_of_function plain split.undisturbed (among_singles listed)
          (split.each single listed) (split.knownEach single listed) (last single listed).1.1
          answered]
      obtain ⟨_, _, node, type⟩ := Call.byFunction_answer answered
      have proper : found.type.IsProper :=
        type ▸ (env.told_proper built (Or.inl plain) _ node).own
      have several := split.normal.own.several
      rw [List.length_map] at several
      rw [union, List.map_congr_left same, List.map_const',
        ← Nat.sub_add_cancel (Nat.le_of_succ_le several), Ty.join_replicate proper]

end SplitCall

end Union

/-- Calls distribute over unions. A call on a literal receiver whose type is a union has the union
of the types of the same call on literal receivers of the single members, if none of the single
calls gets its type from the last resort, or all of them get it from a top-level function. All
unions that are brought in have to be ones that `Ty.join` builds. -/
theorem union_call_joins_single_calls (env : Env)
    (plain : env.surroundings.simplifier = .none) (built : env.Supplies Ty.IsProper)
    {call : Call} {whole : NodeId} {singles : List (Ty × NodeId)}
    (split : env.SplitCall call whole singles)
    (resort : (∀ single ∈ singles,
        ¬ env.ByLastResort (env.toldOf whole singles) call single.1 single.2) ∨
      ∀ single ∈ singles,
        env.ByLastResort (env.toldOf whole singles) call single.1 single.2 ∧
          (env.fresh single.2).reason = .topLevelFunction call.method) :
    (env.resolve (Inquiry.inferNode whole) {}).1.type =
      Ty.join (singles.map fun single =>
        (env.resolve (Inquiry.inferNode single.2) {}).1.type) := by
  have alone : ∀ single ∈ singles, (env.resolve (Inquiry.inferNode single.2) {}).1.type =
      (env.fresh single.2).type := fun single listed =>
    congrArg Inference.type
      (resolve_eq_fresh (split.undisturbed.uncut single.2 (SplitCall.among_singles listed)))
  rw [resolve_eq_fresh (split.undisturbed.uncut whole List.mem_cons_self),
    List.map_congr_left alone]
  rcases resort with own | last
  · exact split.fresh_of_own plain built own
  · exact split.fresh_of_function plain built last

/-- Desks and offices are named after a person and a company. Each of the four has a method for it,
and those of desks and offices call those of persons and companies, in turn. The name of a company
is what two joins yield that go round in a loop. -/
def signage : Env :=
  let nodes := ofKinds [.literal .string .plain,
    .definition { name := "name", owner := "Person", result := some 0, body := [0] },
    .literal (.instanceOf "Person") .plain,
    .call { method := "name", receiver := some 2 },
    .definition { name := "name", owner := "Desk", result := some 3, body := [3] },
    .literal .integer .plain, .merge [5, 7], .merge [6], .merge [6, 7],
    .definition { name := "name", owner := "Company", result := some 8, body := [8] },
    .literal (.instanceOf "Company") .plain,
    .call { method := "name", receiver := some 10 },
    .definition { name := "name", owner := "Office", result := some 11, body := [11] },
    .literal (.union [.instanceOf "Desk", .instanceOf "Office"]) .plain,
    .literal (.instanceOf "Desk") .plain, .literal (.instanceOf "Office") .plain,
    .call { method := "name", receiver := some 13 },
    .call { method := "name", receiver := some 14 },
    .call { method := "name", receiver := some 15 }] {}
  let methods := MethodRegistry.register {} "Person" "name" false 1
  let methods := methods.register "Desk" "name" false 4
  let methods := methods.register "Company" "name" false 9
  { nodes with project := { nodes.project with
      registries := { methods := methods.register "Office" "name" false 12 } } }

/-- The loop is one cluster, and all other requests go from a node to an earlier one. -/
theorem signage_undisturbed : signage.Undisturbed [16, 17, 18] where
  uncut := by decide
  alike first among second otherAmong _ :=
    ⟨_, @entersAlike_of_clusters signage (fun id => if id = 7 then 6 else id) id [16, 17, 18]
      (by decide) (by decide) first second among otherAmong⟩
  forward := by decide

theorem signage_supplies : signage.Supplies Ty.IsProper where
  stored node type value held := by
    match node, held with
    | 0, held | 2, held | 5, held | 10, held | 13, held | 14, held | 15, held =>
        obtain ⟨rfl, -⟩ := NodeKind.literal.inj (Option.some.inj held)
        decide
    | 1, held | 3, held | 4, held | 6, held | 7, held | 8, held | 9, held | 11, held
    | 12, held | 16, held | 17, held | 18, held | _ + 19, held => cases held
  declared typeLevel owner method arguments := by
    have unknown : Ty.unknown.All Ty.IsProper := by decide
    cases typeLevel <;> exact unknown
  yielded _ _ _ listed := absurd listed List.not_mem_nil

theorem signage_split : signage.SplitCall { method := "name" } 16
    [(.instanceOf "Desk", 17), (.instanceOf "Office", 18)] where
  normal := by decide
  undisturbed := signage_undisturbed
  calls := ⟨rfl, rfl, rfl⟩
  each := by
    simp only [List.forall_mem_cons]
    exact ⟨⟨rfl, rfl, rfl⟩, ⟨rfl, rfl, rfl⟩, fun _ listed => absurd listed List.not_mem_nil⟩

/-- What is a desk or an office is named as the one or as the other. -/
theorem signage_distributes :
    signage.SplitCall { method := "name" } 16
        [(.instanceOf "Desk", 17), (.instanceOf "Office", 18)] ∧
      (signage.resolve (Inquiry.inferNode 16) {}).1.type = .union [.string, .integer] ∧
      (signage.resolve (Inquiry.inferNode 16) {}).1.type =
        .join [(signage.resolve (Inquiry.inferNode 17) {}).1.type,
          (signage.resolve (Inquiry.inferNode 18) {}).1.type] := by
  refine ⟨signage_split, rfl, union_call_joins_single_calls signage rfl signage_supplies
    signage_split (Or.inl ?_)⟩
  simp only [List.forall_mem_cons]
  exact ⟨fun last => Bool.noConfusion last.1, fun last => Bool.noConfusion last.1,
    fun _ listed => absurd listed List.not_mem_nil⟩

/-- Cats have a method of their own to speak, and a function of that name stands in for the rest. -/
def menagerie : Env :=
  let nodes := ofKinds [.literal .string .plain,
    .definition { name := "speak", owner := "Cat", result := some 0, body := [0] },
    .literal .integer .plain,
    .definition { name := "speak", owner := "", result := some 2, body := [2] },
    .literal (.union [.instanceOf "Cat", .instanceOf "Dog"]) .plain,
    .literal (.instanceOf "Cat") .plain, .literal (.instanceOf "Dog") .plain,
    .call { method := "speak", receiver := some 4 },
    .call { method := "speak", receiver := some 5 },
    .call { method := "speak", receiver := some 6 }] {}
  let methods := MethodRegistry.register {} "Cat" "speak" false 1
  { nodes with project := { nodes.project with
      registries := { methods := methods.registerFunction "speak" 3 } } }

/-- A dog alone speaks by the function. Beside a cat it does not: the cat answers the call. -/
theorem union_call_may_leave_out_a_function :
    ¬ ∀ (env : Env) (call : Call) (whole : NodeId) (singles : List (Ty × NodeId)),
      env.surroundings.simplifier = .none →
      env.Supplies Ty.IsProper →
      (Ty.union (singles.map Prod.fst)).IsNormal →
      env.CallsOn env.fresh call (.union (singles.map Prod.fst)) whole →
      (∀ single ∈ singles, env.CallsOn env.fresh call single.1 single.2) →
      (∀ argument ∈ call.arguments, ∃ type value,
        env.project.graph.kind? argument = some (.literal type value)) →
      (∀ block ∈ call.block, ∀ result ∈ block.result, ∃ type value,
        env.project.graph.kind? result = some (.literal type value)) →
      (∀ id ∈ whole :: singles.map Prod.snd,
        (env.resolve (Inquiry.inferNode id) {}).2.cutoffs = 0) →
      ((env.resolve (Inquiry.inferNode whole) {}).1.type.same
        (.join (singles.map fun single =>
          (env.resolve (Inquiry.inferNode single.2) {}).1.type))) = true := by
  intro distributes
  have supplies : menagerie.Supplies Ty.IsProper := by
    refine ⟨?_, ?_, fun _ _ _ listed => absurd listed List.not_mem_nil⟩
    · intro node type value held
      match node, held with
      | 0, held | 2, held | 4, held | 5, held | 6, held =>
          obtain ⟨rfl, -⟩ := NodeKind.literal.inj (Option.some.inj held)
          decide
      | 1, held | 3, held | 7, held | 8, held | 9, held | _ + 10, held => cases held
    · intro typeLevel owner method arguments
      have unknown : Ty.unknown.All Ty.IsProper := by decide
      cases typeLevel <;> exact unknown
  have same := distributes menagerie { method := "speak" } 7
    [(.instanceOf "Cat", 8), (.instanceOf "Dog", 9)] rfl supplies (by decide) ⟨rfl, rfl, rfl⟩
    (by
      simp only [List.forall_mem_cons]
      exact ⟨⟨rfl, rfl, rfl⟩, ⟨rfl, rfl, rfl⟩, fun _ listed => absurd listed List.not_mem_nil⟩)
    (fun _ listed => absurd listed List.not_mem_nil) (fun _ held => absurd held (by simp))
    (by decide)
  revert same
  decide

end Env

end HeuristicTyping
