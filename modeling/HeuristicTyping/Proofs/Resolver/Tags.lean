import HeuristicTyping.Proofs.Resolver.WellFormed
import HeuristicTyping.Proofs.Ty.Known

/-!
# Tags of what is not known

A finding that is tagged as unknown has no type. A finding without a type is tagged as unknown as
well, with one exception. Four rules choose the tag when they have found a signature, the yielded
types, a field or a callable, and only then put in what these stand for; if that is not known, the
finding has no type and keeps the tag. Such a finding can be told by its reason, as long as it is
not joined with others, and a join of branches is tagged by the tags of the branches.
-/

set_option autoImplicit false

namespace HeuristicTyping

/-- The tag of a finding agrees with its type, unless the reason is a late one or the finding joins
branches. -/
structure Inference.Tagged (inference : Inference) : Prop where
  unknown : inference.provenance = .unknown →
    inference.isUnknown = true ∧ inference.reason.isLate = false
  untyped : inference.isUnknown = true → inference.provenance = .unknown ∨
    inference.reason.isLate = true ∨ ∃ branches, inference.reason = .branchJoin branches

namespace Inference.Tagged

variable {inference : Inference}

theorem of_unknown {reason : Reason} (early : reason.isLate = false) :
    (Inference.unknown reason).Tagged where
  unknown _ := ⟨rfl, early⟩
  untyped _ := Or.inl rfl

theorem of_known (known : inference.isUnknown = false) (tag : inference.provenance ≠ .unknown) :
    inference.Tagged where
  unknown tagged := absurd tagged tag
  untyped unknown := by
    rw [known] at unknown
    cases unknown

theorem of_late (late : inference.reason.isLate = true) (tag : inference.provenance ≠ .unknown) :
    inference.Tagged where
  unknown tagged := absurd tagged tag
  untyped _ := Or.inr (Or.inl late)

/-- A join of branches is tagged as unknown only if all branches are. -/
theorem merged {found : List Inference} (proper : ∀ branch ∈ found, branch.type.IsProper)
    (tagged : ∀ branch ∈ found, branch.Tagged) (branches : Nat) :
    Inference.Tagged {
      type := .join (found.map Inference.type)
      reason := .branchJoin branches
      provenance := Rule.commonProvenance found } where
  unknown common := by
    have same := Env.commonProvenance_all common Provenance.noConfusion
    refine ⟨?_, rfl⟩
    apply (Ty.join_isUnknown_iff (List.forall_mem_map.mpr proper)).mpr
    intro type among
    obtain ⟨branch, listed, rfl⟩ := List.mem_map.mp among
    exact ((tagged branch listed).unknown (same branch listed)).1
  untyped _ := Or.inr (Or.inr ⟨branches, rfl⟩)

theorem simplified {env : Env} (keeps : env.surroundings.simplifier.KeepsKnown)
    (all : inference.type.All Ty.IsProper) (tagged : inference.Tagged) :
    (env.simplified inference).Tagged := by
  have same : (env.simplified inference).isUnknown = inference.isUnknown :=
    keeps.known inference.type all
  constructor
  · intro tag
    rw [same]
    exact tagged.unknown tag
  · rw [same]
    exact tagged.untyped

end Inference.Tagged

theorem Ty.Fixed.known {type : Ty} (fixed : type.Fixed) : type.isUnknown = false := by
  cases fixed with
  | nil | self => rfl
  | @param kind _ fixes => cases kind <;> cases fixes <;> rfl
  | owner name typeLevel => cases typeLevel <;> rfl
  | constructed name =>
      unfold Call.constructed
      split_ifs <;> rfl

namespace Env

/-- All literal nodes are stored with a type that is known. -/
def KnownLiterals (env : Env) : Prop :=
  ∀ id type value, env.project.graph.kind? id = some (.literal type value) →
    type.isUnknown = false

/-- What every rule finds is tagged by its type, up to late reasons and joins of branches. -/
theorem Finds.tagged {env : Env} (built : env.Supplies Ty.IsProper) (literals : env.KnownLiterals)
    {inference : Inference}
    (finds : env.Finds (fun answer => answer.type.All Ty.IsProper ∧ answer.Tagged) inference) :
    inference.Tagged := by
  have answers : ∀ answer : Inference, answer.type.All Ty.IsProper ∧ answer.Tagged →
      answer.type.All Ty.IsProper := fun _ => And.left
  have proper {found : Inference}
      (finds : env.Finds (fun answer => answer.type.All Ty.IsProper ∧ answer.Tagged) found) :
      found.type.IsProper := (finds.all Ty.robust_isProper trivial built answers).own
  cases finds with
  | handed answer => exact answer.2
  | unknown reason early => exact .of_unknown early
  | stored held => exact .of_known (literals _ _ _ held) Provenance.noConfusion
  | tuple typed => exact .of_known (Ty.tupleOf_isUnknown _) Provenance.noConfusion
  | shape typed => exact .of_known (Ty.shapeOf_isUnknown _) Provenance.noConfusion
  | hash keysTyped valuesTyped => exact .of_known rfl Provenance.noConfusion
  | fixed fixed reason => exact .of_known fixed.known Provenance.noConfusion
  | @guessed names some reason =>
      obtain ⟨name, listed⟩ := List.exists_mem_of_ne_nil names some
      have among : Ty.instanceOf name ∈ names.map .instanceOf := List.mem_map_of_mem listed
      exact .of_known (Ty.join_isUnknown among trivial rfl) Provenance.noConfusion
  | merged found branches =>
      exact .merged (fun branch listed => (found branch listed).1.own)
        (fun branch listed => (found branch listed).2) branches
  | defined answer known received told reason =>
      have receiver := received.all Ty.robust_isProper answers
      exact .of_known (Ty.substitute_self_isUnknown answer.1 known receiver told)
        Provenance.noConfusion
  | function answer known reason => exact .of_known known Provenance.noConfusion
  | declared known instantiates => exact .of_late rfl Provenance.noConfusion
  | yielded some each owner method index => exact .of_late rfl Provenance.noConfusion
  | @entry fields received key =>
      unfold Call.ofShape
      cases fields.lookup key with
      | none => exact .of_known rfl Provenance.noConfusion
      | some type => exact .of_late rfl Provenance.noConfusion
  | callable received => exact .of_late rfl Provenance.noConfusion
  | @joined found some each known reason =>
      obtain ⟨first, listed⟩ := List.exists_mem_of_ne_nil found some
      have told := Ty.join_isUnknown (List.mem_map_of_mem listed) (proper (each first listed))
        (known first listed)
      exact .of_known told Provenance.noConfusion
  | retagged found known => exact .of_known known Provenance.noConfusion

theorem closed_tagged {env : Env} (built : env.Supplies Ty.IsProper)
    (literals : env.KnownLiterals) (keeps : env.surroundings.simplifier.KeepsKnown) :
    env.Closed fun inference => inference.type.All Ty.IsProper ∧ inference.Tagged where
  unknown _ early := ⟨Ty.all_of_childless trivial rfl, .of_unknown early⟩
  found inference finds := by
    have all := finds.all Ty.robust_isProper trivial built fun _ => And.left
    exact ⟨keeps.proper _ all, (finds.tagged built literals).simplified keeps all⟩

/-- A finding is tagged as unknown exactly if it has no type, up to findings whose tag was chosen
before their type was complete and joins of these with others. This holds of all that a history of
queries leaves in the memo and of all that is replied. -/
theorem unknown_is_tagged_unless_late (env : Env) (built : env.Supplies Ty.IsProper)
    (literals : env.KnownLiterals) (keeps : env.surroundings.simplifier.KeepsKnown)
    (acts : List Act) :
    (∀ id inference, (env.after acts {}).memo.slot id = .done inference → inference.Tagged) ∧
      ∀ query, ∀ inference ∈ (env.serve query (env.after acts {})).1.findings,
        inference.Tagged := by
  have closed := closed_tagged built literals keeps
  have remembers := closed.after acts (Progress.remembers_empty _)
  refine ⟨fun id inference held => (remembers id inference held).2, ?_⟩
  intro query inference replied
  exact ((closed.resolve (query.inquiry_meets env.project) remembers).2 inference replied).2

/-- Four ways to a type that is not known: an element of an array of unknown elements, by the
signature of `sample` and as yielded by `each`; a field that was never assigned; and the result of a
callable of which nothing is known. -/
def halfKnown (simplifier : Simplifier) : Env :=
  { ofKinds [.literal (.array .unknown) .plain, .call { method := "sample", receiver := some 0 },
      .call { method := "each", receiver := some 0, block := some { params := [3] } },
      .blockParam 0 2, .localRead "name" 0 none,
      .literal (.hash .unknown .unknown) (.hash [(.symbol "name", 4)]), .symbol "name",
      .call { method := "[]", receiver := some 5, arguments := [6] },
      .literal (.method [] .unknown) .plain, .call { method := "call", receiver := some 8 }] {} with
    surroundings := {
      index := .none
      signatures := { SignatureSource.none with
        returnType := fun _ method _ =>
          if method = "sample" then .var TypeVar.element else .unknown
        blockParams := fun _ method => if method = "each" then [.var TypeVar.element] else [] }
      simplifier } }

section HalfKnown

variable {simplifier : Simplifier}

theorem halfKnown_stored {id : NodeId} {type : Ty} {value : LiteralValue}
    (held : (halfKnown simplifier).project.graph.kind? id = some (.literal type value)) :
    type.All Ty.IsProper ∧ type.isUnknown = false := by
  match id, held with
  | 0, held | 5, held | 6, held | 8, held =>
      obtain ⟨rfl, -⟩ := NodeKind.literal.inj (Option.some.inj held)
      decide
  | 1, held | 2, held | 3, held | 4, held | 7, held | 9, held | _ + 10, held => cases held

theorem halfKnown_literals : (halfKnown simplifier).KnownLiterals :=
  fun _ _ _ held => (halfKnown_stored held).2

theorem halfKnown_supplies : (halfKnown simplifier).Supplies Ty.IsProper where
  stored _ _ _ held := (halfKnown_stored held).1
  declared typeLevel owner method arguments := by
    have unknown : Ty.unknown.All Ty.IsProper := by decide
    cases typeLevel with
    | true => exact unknown
    | false =>
        change Ty.All Ty.IsProper (if method = "sample" then .var TypeVar.element else .unknown)
        split_ifs
        · decide
        · exact unknown
  yielded owner method template among := by
    have listed : template ∈ if method = "each" then [Ty.var TypeVar.element] else [] := among
    split_ifs at listed
    · obtain rfl := List.mem_singleton.mp listed
      decide
    · cases listed

end HalfKnown

/-- All four findings are tagged otherwise, and all four can be told by their reasons. Neither
simplifier changes that. -/
theorem halfKnown_is_tagged_by_reason :
    ([1, 3, 7, 9].map fun id => ((halfKnown .none).resolve (Inquiry.inferNode id) {}).1) =
        [{ type := .unknown, reason := .catalogueMethod "Array" "sample",
           provenance := .catalogue },
         { type := .unknown, reason := .blockParam "Array" "each" 0, provenance := .catalogue },
         { type := .unknown, reason := .shapeField "name", provenance := .literal },
         { type := .unknown, reason := .callableResult, provenance := .heuristic }] ∧
      ((halfKnown .none).resolve (Inquiry.inferNode 1) {}).1.Tagged ∧
      ((halfKnown (.ancestral .none)).resolve (Inquiry.inferNode 1) {}).1.Tagged := by
  have transitive : ∀ {name other third : String}, other ∈ TypeIndex.none.ancestors name →
      third ∈ TypeIndex.none.ancestors other → third ∈ TypeIndex.none.ancestors name :=
    fun none => absurd none List.not_mem_nil
  have plain := (unknown_is_tagged_unless_late (halfKnown .none) halfKnown_supplies
    halfKnown_literals Simplifier.keepsKnown_none []).2 (.infer 1)
  have pruned := (unknown_is_tagged_unless_late (halfKnown (.ancestral .none)) halfKnown_supplies
    halfKnown_literals (Simplifier.keepsKnown_ancestral transitive) []).2 (.infer 1)
  exact ⟨rfl, plain _ List.mem_cons_self, pruned _ List.mem_cons_self⟩

/-- So the type and the tag of a finding do not always agree. -/
theorem unknown_may_be_tagged_otherwise :
    ¬ ∀ (env : Env), env.KnownLiterals → ∀ (acts : List Act) (id : NodeId),
      let found := (env.resolve (Inquiry.inferNode id) (env.after acts {})).1
      found.type = .unknown ↔ found.provenance = .unknown := by
  intro agree
  have tag := (agree (halfKnown .none) halfKnown_literals [] 1).mp rfl
  cases tag

end Env

end HeuristicTyping
