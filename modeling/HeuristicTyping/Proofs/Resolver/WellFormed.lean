import HeuristicTyping.Proofs.Resolver.Limits
import HeuristicTyping.Proofs.Rules.Findings
import HeuristicTyping.Proofs.Ty.NormalForm

/-!
# The form of what is found

A kind of findings is closed if whatever a rule may find from answers of the kind is, once it was
simplified, of the kind as well. Every memo that a history of queries fills then holds findings of
that kind only, and no reply hands out any other. Two kinds are shown to be closed: findings whose
types are in normal form, and findings that show no placeholder if a known signature gave them.
-/

set_option autoImplicit false

namespace HeuristicTyping

/-- All that is remembered is of a kind. -/
def Progress.Remembers (progress : Progress) (good : Inference → Prop) : Prop :=
  ∀ id inference, progress.memo.slot id = .done inference → good inference

theorem Progress.remembers_empty (good : Inference → Prop) : ({} : Progress).Remembers good :=
  fun _ _ => Slot.noConfusion

namespace Env

/-- A kind of findings that the rules do not lead out of. -/
structure Closed (env : Env) (good : Inference → Prop) : Prop where
  unknown : ∀ reason : Reason, reason.isLate = false → good (.unknown reason)
  found : ∀ inference, env.Finds good inference → good (env.simplified inference)

namespace Closed

variable {env : Env} {good : Inference → Prop}

theorem find (closed : env.Closed good) (depth : Nat) (id : NodeId) {progress : Progress}
    (remembers : progress.Remembers good) :
    (env.find depth id progress).2.Remembers good ∧ good (env.find depth id progress).1 := by
  revert remembers
  apply env.find_induct fun _ _ before result => before.Remembers good →
    result.2.Remembers good ∧ good result.1
  · intro _ id _ inference held remembers
    exact ⟨remembers, remembers id inference held⟩
  · intro _ _ _ _ remembers
    exact ⟨remembers, closed.unknown _ rfl⟩
  · intro _ _ _ _ _ remembers
    exact ⟨remembers, closed.unknown _ rfl⟩
  · intro _ _ _ _ _ remembers
    exact ⟨remembers, closed.unknown _ rfl⟩
  · intro depth id before node held live inner remembers
    have opened : (before.set id .inProgress).Remembers good := done_of_opened remembers
    obtain ⟨later, finds⟩ := Inquiry.run_meets (fun now => now.Remembers good)
      (rule_finds (kind_of_live live)) (fun _ _ held => held)
      (fun target now _ held => inner target now held) opened
    have own := closed.found _ finds
    exact ⟨done_of_settled later fun _ => own, own⟩

/-- What an inquiry makes of findings of the kind, the resolver replies. -/
theorem resolve {α : Type} {inquiry : Inquiry α} {post : α → Prop} (closed : env.Closed good)
    (meets : inquiry.Meets env.surroundings (fun _ => True) good post) {progress : Progress}
    (remembers : progress.Remembers good) :
    (env.resolve inquiry progress).2.Remembers good ∧ post (env.resolve inquiry progress).1 :=
  Inquiry.run_meets (fun now => now.Remembers good) meets (fun _ _ held => held)
    (fun id _ _ held => closed.find _ id held) remembers

theorem after (closed : env.Closed good) (acts : List Act) {start : Progress}
    (remembers : start.Remembers good) : (env.after acts start).Remembers good :=
  after_keeps (fun now => now.Remembers good)
    (fun query _ held => (closed.resolve (query.inquiry_meets env.project) held).1)
    (fun _ held => held) acts remembers

end Closed

end Env

/-! ### Parts of what is found -/

/-- The simplifiers that leave types alone or drop members of unions. -/
def Simplifier.IsStandard (simplifier : Simplifier) : Prop :=
  simplifier = .none ∨ ∃ index, simplifier = .ancestral index

section Parts

variable {env : Env} {given : Inference → Prop} {property : Ty → Prop}

theorem Ty.all_simplify (robust : Robust property) {simplifier : Simplifier}
    (standard : simplifier.IsStandard) {type : Ty} (all : type.All property) :
    (simplifier.simplify type).All property := by
  rcases standard with rfl | ⟨index, rfl⟩
  · exact all
  · exact all_collapse robust index.ancestors all

theorem Ty.Typed.all (answers : ∀ inference, given inference → inference.type.All property)
    {type : Ty} (typed : type.Typed given) : type.All property := by
  obtain ⟨inference, answer, rfl⟩ := typed
  exact answers inference answer

theorem Ty.all_instances (robust : Robust property) (names : List String) :
    (join (names.map .instanceOf)).All property := by
  apply all_join robust
  intro type listed
  obtain ⟨name, _, rfl⟩ := List.mem_map.mp listed
  exact all_of_childless (robust _ trivial rfl) rfl

theorem Ty.Received.all (robust : Robust property)
    (answers : ∀ inference, given inference → inference.type.All property) {type : Ty}
    (received : type.Received given) : type.All property := by
  induction received with
  | typed typed => exact typed.all answers
  | guessed names => exact all_instances robust names
  | named name => exact all_of_childless (robust _ trivial rfl) rfl
  | member received listed ih => exact ih.child listed

theorem Binding.Bound.all (robust : Ty.Robust property)
    (answers : ∀ inference, given inference → inference.type.All property) {binding : Binding}
    (bound : binding.Bound given) : binding.All property := by
  induction bound with
  | nothing => exact all_empty
  | receiver received => exact Ty.all_forReceiver robust (received.all robust answers)
  | block bound typed ih => exact ih.bind _ (typed.all answers)
  | emptyBlock bound ih => exact ih.bind _ (Ty.all_of_childless (robust _ trivial rfl) rfl)

theorem Ty.Fixed.all (robust : Robust property) (own : property .self) {type : Ty}
    (fixed : type.Fixed) : type.All property := by
  -- Robust properties hold of all parts of a normal type that has no placeholder among them.
  have plain {type : Ty} (normal : type.IsNormal)
      (bare : type.All fun part => part.isPlaceholder = false) : type.All property :=
    fun part inside => robust part (normal part inside) (bare part inside)
  have named (name : String) : (Ty.instanceOf name).All property :=
    all_of_childless (robust _ trivial rfl) rfl
  cases fixed with
  | nil => exact named _
  | self => exact all_of_childless own rfl
  | owner name typeLevel =>
      cases typeLevel with
      | false => exact named name
      | true => exact all_of_childless (robust _ trivial rfl) rfl
  | @param kind _ fixes => cases kind <;> cases fixes <;> exact plain (by decide) (by decide)
  | constructed name =>
      unfold Call.constructed
      split_ifs
      · exact plain (by decide) (by decide)
      · exact plain (by decide) (by decide)
      · exact plain (by decide) (by decide)
      · exact named name

theorem Call.spread_all (robust : Ty.Robust property) {type : Ty} (all : type.All property)
    (index : Nat) : (spread type index).All property := by
  have missing : Ty.nil.All property := Ty.all_of_childless (robust _ trivial rfl) rfl
  cases type with
  | tuple elements =>
      simp only [spread]
      cases held : elements[index]? with
      | none => exact missing
      | some element => exact all.child (List.mem_of_getElem? held)
  | array element => exact all.child List.mem_cons_self
  | _ =>
      simp only [spread]
      split
      · exact all
      · exact missing

/-- What a method yields to its block are its templates with the receiver in place, or a part of
one of them. -/
theorem Call.yielded_all (robust : Ty.Robust property) {receiver : Ty} {templates : List Ty}
    {index declared : Nat} {type : Ty}
    (each : ∀ template ∈ templates,
      (template.substitute (Binding.forReceiver receiver)).erase.All property)
    (yields : yielded? receiver templates index declared = some type) : type.All property := by
  unfold yielded? at yields
  dsimp only at yields
  split at yields
  · cases yields
  · split_ifs at yields with shared first
    · obtain rfl := Option.some.inj yields
      exact spread_all robust (each _ List.mem_cons_self) index
    · obtain rfl := Option.some.inj yields
      exact each _ List.mem_cons_self
  · obtain ⟨template, held, rfl⟩ := Option.map_eq_some_iff.mp yields
    exact each template (List.mem_of_getElem? held)

theorem Ty.Instantiates.all (robust : Robust property)
    (answers : ∀ inference, given inference → inference.type.All property) {declared type : Ty}
    (all : declared.All property) (instantiates : declared.Instantiates given type) :
    type.All property := by
  cases instantiates with
  | plain bare => exact all
  | bound bound =>
      have replaced := all_substitute robust all (bound.all robust answers)
      exact all_erase robust (replaced.mono fun _ held _ => held)

namespace Env

/-- What the graph and the known signatures bring in satisfies the property in all parts. -/
structure Supplies (env : Env) (property : Ty → Prop) : Prop where
  stored : ∀ id type value, env.project.graph.kind? id = some (.literal type value) →
    type.All property
  declared : ∀ typeLevel owner method arguments,
    (env.surroundings.signatures.result typeLevel owner method arguments).All property
  yielded : ∀ owner method, ∀ template ∈ env.surroundings.signatures.blockParams owner method,
    template.All property

theorem Finds.all (robust : Ty.Robust property) (own : property .self)
    (supplies : env.Supplies property)
    (answers : ∀ inference, given inference → inference.type.All property)
    {inference : Inference} (finds : env.Finds given inference) :
    inference.type.All property := by
  have childless {type : Ty} (regular : type.IsRegular) (plain : type.isPlaceholder = false)
      (bare : type.children = []) : type.All property :=
    Ty.all_of_childless (robust type regular plain) bare
  induction finds with
  | handed answer => exact answers _ answer
  | unknown reason early => exact childless trivial rfl rfl
  | stored held => exact supplies.stored _ _ _ held
  | tuple typed =>
      exact Ty.all_tupleOf robust fun element listed => (typed element listed).all answers
  | shape typed => exact Ty.all_shapeOf robust fun field listed => (typed field listed).all answers
  | hash keysTyped valuesTyped =>
      refine Ty.all_iff.mpr ⟨robust _ trivial rfl, ?_⟩
      intro child held
      simp only [Inference.literal, Ty.children, List.mem_cons, List.not_mem_nil, or_false] at held
      rcases held with rfl | rfl
      · apply Ty.all_join robust
        intro key listed
        rcases keysTyped key listed with rfl | typed
        · exact childless trivial rfl rfl
        · exact typed.all answers
      · exact Ty.all_join robust fun value listed => (valuesTyped value listed).all answers
  | fixed fixed reason => exact fixed.all robust own
  | guessed some reason => exact Ty.all_instances robust _
  | merged found branches =>
      exact Ty.all_join robust (List.forall_mem_map.mpr fun inference listed =>
        answers inference (found inference listed))
  | defined answer known received told reason =>
      exact Ty.all_substitute robust (answers _ answer)
        (Binding.all_empty.bindSelf (received.all robust answers))
  | @function inference answer known reason => exact answers inference answer
  | declared known instantiates =>
      exact instantiates.all robust answers (supplies.declared _ _ _ _)
  | yielded some each owner method index =>
      apply Ty.all_join robust
      intro type listed
      obtain ⟨receiver, owner, method, index, declared, received, yields⟩ := each type listed
      refine Call.yielded_all robust ?_ yields
      intro template among
      have replaced := Ty.all_substitute robust (supplies.yielded owner method template among)
        (Ty.all_forReceiver robust (received.all robust answers))
      exact Ty.all_erase robust (replaced.mono fun _ held _ => held)
  | @entry fields received key =>
      have all := received.all robust answers
      unfold Call.ofShape
      cases found : fields.lookup key with
      | none => exact childless trivial rfl rfl
      | some type =>
          obtain ⟨before, after, split, _⟩ := List.lookup_eq_some_iff.mp found
          exact all.child (List.mem_map.mpr ⟨(key, type), by simp [split], rfl⟩)
  | callable received =>
      exact (received.all robust answers).child (by simp [Ty.children])
  | joined some each known reason ih => exact Ty.all_join robust (List.forall_mem_map.mpr ih)
  | retagged found known ih => exact ih

theorem closed_all (robust : Ty.Robust property) (own : property .self)
    (supplies : env.Supplies property) (standard : env.surroundings.simplifier.IsStandard) :
    env.Closed fun inference => inference.type.All property where
  unknown _ _ := Ty.all_of_childless (robust _ trivial rfl) rfl
  found _ finds := Ty.all_simplify robust standard (finds.all robust own supplies fun _ all => all)

end Env

end Parts

/-! ### Normal forms -/

/-- The types of the parameters and of the result. -/
def MethodSig.types (signature : MethodSig) : List Ty :=
  signature.params.map ParamOf.type ++ [signature.result]

/-- The types that a reply shows. -/
def Reply.types : Reply → List Ty
  | .finding inference => [inference.type]
  | .signature found => found.toList.flatMap MethodSig.types
  | .dump graph => graph.nodes.map fun node => node.found.type

theorem Project.signatureOf_all {property : Ty → Prop} (robust : Ty.Robust property)
    (project : Project) (id : NodeId) {surroundings : Surroundings} :
    (project.signatureOf id).Meets surroundings (fun _ => True)
      (fun inference => inference.type.All property)
      fun found => ∀ signature ∈ found, ∀ type ∈ signature.types, type.All property := by
  have params (ids : List NodeId) : (Inquiry.eachSome project.signatureParam ids).Meets
      surroundings (fun _ => True) (fun inference => inference.type.All property)
      fun params => ∀ param ∈ params, param.type.All property := by
    apply Inquiry.meets_eachSome
    intro param _
    unfold signatureParam
    split
    · refine ⟨trivial, fun inference all result same => ?_⟩
      obtain rfl := Option.mem_some_iff.mp same
      exact all
    · intro result same
      cases same
  unfold signatureOf
  split
  · rename_i method _
    simp only [Inquiry.meets_bind, Inquiry.typeOf, Inquiry.meets_inferNode, Inquiry.meets_pure]
    apply Inquiry.meets_mono (params method.params)
    intro listed typed
    refine ⟨trivial, fun inference all signature same type shown => ?_⟩
    obtain rfl := Option.mem_some_iff.mp same
    have owner : (Ty.ofOwner method.owner method.typeLevel).All property := by
      cases method.typeLevel <;> exact Ty.all_of_childless (robust _ trivial rfl) rfl
    rcases List.mem_append.mp shown with ofParam | ofResult
    · obtain ⟨param, among, rfl⟩ := List.mem_map.mp ofParam
      exact typed param among
    · obtain rfl := List.mem_singleton.mp ofResult
      exact Ty.all_substitute robust all (Binding.all_empty.bindSelf owner)
  · intro signature same
    cases same

theorem Query.inquiry_all {property : Ty → Prop} (robust : Ty.Robust property)
    (project : Project) (query : Query) {surroundings : Surroundings} :
    (query.inquiry project).Meets surroundings (fun _ => True)
      (fun inference => inference.type.All property)
      fun reply => ∀ type ∈ reply.types, type.All property := by
  have found : (query.inquiry project).Meets surroundings (fun _ => True)
      (fun inference => inference.type.All property)
      fun reply => ∀ inference ∈ reply.findings, inference.type.All property :=
    query.inquiry_meets project
  cases query with
  | infer id =>
      simp only [Query.inquiry, Inquiry.meets_bind, Inquiry.meets_pure] at found ⊢
      apply Inquiry.meets_mono found
      intro inference all type shown
      obtain rfl := List.mem_singleton.mp shown
      exact all inference List.mem_cons_self
  | signature id =>
      simp only [Query.inquiry, Inquiry.meets_bind, Inquiry.meets_pure]
      apply Inquiry.meets_mono (project.signatureOf_all robust id)
      intro signature all type shown
      obtain ⟨some, same, among⟩ := List.mem_flatMap.mp shown
      exact all some (Option.mem_toList.mp same) type among
  | dump ids =>
      simp only [Query.inquiry, Inquiry.meets_bind, Inquiry.meets_pure] at found ⊢
      apply Inquiry.meets_mono found
      intro graph all type shown
      obtain ⟨node, listed, rfl⟩ := List.mem_map.mp shown
      exact all node.found (List.mem_map.mpr ⟨node, listed, rfl⟩)

namespace Env

/-- Inference never builds a type that is not in normal form. If the stored types of literals and
all that the known signatures declare are normal, then so is every type that a history of queries
leaves in the memo and every type that a reply shows, on a graph with cycles as well. -/
theorem findings_are_normal (env : Env) (standard : env.surroundings.simplifier.IsStandard)
    (supplies : env.Supplies Ty.IsRegular) (acts : List Act) :
    (∀ id inference, (env.after acts {}).memo.slot id = .done inference →
      inference.type.IsNormal) ∧
    ∀ query, ∀ type ∈ (env.serve query (env.after acts {})).1.types, type.IsNormal := by
  have closed := closed_all Ty.robust_isRegular trivial supplies standard
  have remembers := closed.after acts (Progress.remembers_empty _)
  refine ⟨remembers, ?_⟩
  intro query
  exact (closed.resolve (query.inquiry_all Ty.robust_isRegular env.project) remembers).2

/-- A call of `first`, by its known signature, on an array of two kinds of elements. -/
def firstOfMixed : Env where
  project := {
    graph := [NodeKind.literal (.array (.join [.string, .integer])) .plain,
      .call { method := "first", receiver := some 0 }].foldl
        (fun graph kind => (graph.add kind).2) {} }
  surroundings := {
    index := .none
    signatures := { SignatureSource.none with
      returnType := fun _ method _ =>
        if method = "first" then .join [.var TypeVar.element, .nil] else .unknown }
    simplifier := .ancestral .none }

theorem firstOfMixed_supplies : firstOfMixed.Supplies Ty.IsRegular where
  stored id type value held := by
    match id, held with
    | 0, held =>
        obtain ⟨rfl, -⟩ := NodeKind.literal.inj (Option.some.inj held)
        decide
    | 1, held => cases held
    | _ + 2, held => cases held
  declared typeLevel owner method arguments := by
    have unknown : Ty.unknown.IsNormal := by decide
    cases typeLevel with
    | true => exact unknown
    | false =>
        change Ty.IsNormal (if method = "first" then .join [.var TypeVar.element, .nil]
          else .unknown)
        split_ifs
        · decide
        · exact unknown
  yielded _ _ _ listed := absurd listed List.not_mem_nil

theorem firstOfMixed_is_normal :
    firstOfMixed.Supplies Ty.IsRegular ∧
      (firstOfMixed.resolve (Inquiry.inferNode 1) {}).1.type =
        .union [.string, .integer, .nil] ∧
      (firstOfMixed.resolve (Inquiry.inferNode 1) {}).1.type.IsNormal :=
  ⟨firstOfMixed_supplies, rfl,
    (findings_are_normal firstOfMixed (Or.inr ⟨.none, rfl⟩) firstOfMixed_supplies []).2 (.infer 1) _
      List.mem_cons_self⟩

/-! ### Placeholders -/

theorem commonProvenance_all {found : List Inference} {provenance : Provenance}
    (common : Rule.commonProvenance found = provenance) (tagged : provenance ≠ .heuristic) :
    ∀ inference ∈ found, inference.provenance = provenance := by
  cases found with
  | nil => exact absurd common.symm tagged
  | cons first rest =>
      simp only [Rule.commonProvenance] at common
      split at common
      · rename_i same
        subst common
        intro inference listed
        rcases List.mem_cons.mp listed with rfl | later
        · rfl
        · simpa using List.all_eq_true.mp same inference later
      · exact absurd common.symm tagged

/-- A finding that a known signature gave shows no placeholder. -/
def Concrete (inference : Inference) : Prop :=
  inference.provenance = .catalogue → inference.type.hasPlaceholders = false

theorem Finds.concrete {env : Env} {inference : Inference} (finds : env.Finds Concrete inference) :
    Concrete inference := by
  intro tagged
  cases finds with
  | handed answer => exact answer tagged
  | merged answers branches =>
      have same := commonProvenance_all tagged Provenance.noConfusion
      apply Ty.hasPlaceholders_eq_false_iff.mpr
      apply Ty.all_join Ty.robust_isPlaceholder
      intro type listed
      obtain ⟨branch, among, rfl⟩ := List.mem_map.mp listed
      exact Ty.hasPlaceholders_eq_false_iff.mp (answers branch among (same branch among))
  | declared known instantiates =>
      cases instantiates with
      | plain bare => exact bare
      | bound bound => exact Ty.erase_hasPlaceholders _
  | yielded some each owner method index =>
      apply Ty.hasPlaceholders_eq_false_iff.mpr
      apply Ty.all_join Ty.robust_isPlaceholder
      intro type listed
      obtain ⟨receiver, owner, method, index, declared, received, yields⟩ := each type listed
      refine Call.yielded_all Ty.robust_isPlaceholder ?_ yields
      intro template _
      exact Ty.hasPlaceholders_eq_false_iff.mp (Ty.erase_hasPlaceholders _)
  | @entry fields received key =>
      unfold Call.ofShape at tagged
      split at tagged <;> cases tagged
  | _ => cases tagged

theorem closed_concrete {env : Env} (standard : env.surroundings.simplifier.IsStandard) :
    env.Closed Concrete where
  unknown _ _ tagged := by cases tagged
  found _ finds tagged := by
    have bare := Ty.hasPlaceholders_eq_false_iff.mp (finds.concrete tagged)
    exact Ty.hasPlaceholders_eq_false_iff.mpr
      (Ty.all_simplify Ty.robust_isPlaceholder standard bare)

/-- No placeholder of a known signature ever shows. Whatever the signatures declare, and whatever a
history of queries asked for, what is remembered or replied with the provenance of a known
signature has a type without type variables and without the receiver. -/
theorem catalogue_findings_show_no_placeholder (env : Env)
    (standard : env.surroundings.simplifier.IsStandard) (acts : List Act) :
    (∀ id inference, (env.after acts {}).memo.slot id = .done inference →
      inference.provenance = .catalogue → inference.type.hasPlaceholders = false) ∧
    ∀ query, ∀ inference ∈ (env.serve query (env.after acts {})).1.findings,
      inference.provenance = .catalogue → inference.type.hasPlaceholders = false := by
  have closed := closed_concrete standard
  have remembers := closed.after acts (Progress.remembers_empty _)
  refine ⟨remembers, ?_⟩
  intro query
  exact (closed.resolve (query.inquiry_meets env.project) remembers).2

/-- The signature of `first` mentions the element; what is found for a call of it does not. -/
theorem firstOfMixed_shows_no_placeholder :
    (firstOfMixed.surroundings.signatures.result false "Array" "first" []).hasPlaceholders = true ∧
      (firstOfMixed.resolve (Inquiry.inferNode 1) {}).1.provenance = .catalogue ∧
      (firstOfMixed.resolve (Inquiry.inferNode 1) {}).1.type.hasPlaceholders = false :=
  ⟨rfl, rfl, (catalogue_findings_show_no_placeholder firstOfMixed (Or.inr ⟨.none, rfl⟩) []).2
    (.infer 1) _ List.mem_cons_self rfl⟩

end Env

end HeuristicTyping
