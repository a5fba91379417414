import HeuristicTyping.Proofs.Resolver.History
import HeuristicTyping.Proofs.Rules.Dependence
import HeuristicTyping.Proofs.Ty.Alternatives
import Mathlib.Data.List.Induction

/-!
# Guesses from use

Which types are guessed can be said without the order of questions in which they are found. A type
fits if it takes every call; of the types that fit, those are left that have no ancestor among the
others. If ancestors are transitive and form no loops, then every type that fits is left or has an
ancestor that is, so nothing is lost by naming only the most general ones.
-/

set_option autoImplicit false

namespace HeuristicTyping

/-! ### Names, each once -/

theorem distinctNames_concat (names : List String) (name : String) :
    distinctNames (names ++ [name]) = addName (distinctNames names) name := by
  simp [distinctNames]

theorem distinctNames_eq_eraseDups (names : List String) :
    distinctNames names = names.eraseDups := by
  induction names using List.reverseRecOn with
  | nil => rfl
  | append_singleton names name ih =>
      rw [distinctNames_concat, ih, addName, List.eraseDups_append]
      by_cases listed : name ∈ names
      · simp [List.removeAll, listed]
      · have new : [name].removeAll names = [name] := by simp [List.removeAll, listed]
        rw [new, if_neg (by simpa using listed)]
        rfl

theorem eraseDups_nodup (names : List String) : names.eraseDups.Nodup := by
  rw [← distinctNames_eq_eraseDups]
  induction names using List.reverseRecOn with
  | nil => exact List.nodup_nil
  | append_singleton names name ih =>
      rw [distinctNames_concat, addName]
      split_ifs with listed
      · exact ih
      · rw [← List.concat_eq_append]
        exact ih.concat listed

namespace Ty

theorem instances_apart {names : List String} (distinct : names.Nodup) :
    (names.map Ty.instanceOf).Pairwise fun first second => (first == second) = false := by
  rw [List.pairwise_map]
  apply distinct.imp
  intro name other apart
  cases equal : (Ty.instanceOf name == Ty.instanceOf other) with
  | false => rfl
  | true => exact absurd (Ty.instanceOf.inj (eq_of_beq_instanceOf equal)) apart

theorem instances_simple {names : List String} :
    ∀ type ∈ names.map Ty.instanceOf, type.isUnion = false ∧ type.isUnknown = false :=
  List.forall_mem_map.mpr fun _ _ => ⟨rfl, rfl⟩

theorem join_instances {names : List String} (distinct : names.Nodup) :
    join (names.map .instanceOf) = ofAlternatives ((names.take unionCap).map .instanceOf) := by
  rw [join_eq, knownAlternatives_of_simple instances_simple,
    distinct_of_pairwise (instances_apart distinct), List.map_take]

end Ty

/-! ### The types that fit -/

/-- Whether a count of arguments is accepted: by the arity of the definition in the project; where
there is none, by one of the known overloads, or by all means if none is known. -/
def Duck.Accepted (defined : Option Arity) (overloads : List MethodSig) (count : Nat) : Prop :=
  match defined with
  | some arity => arity.accepts count = true
  | none =>
      overloads = [] ∨ ∃ signature ∈ overloads, signature.arity.accepts count = true

instance (defined : Option Arity) (overloads : List MethodSig) (count : Nat) :
    Decidable (Duck.Accepted defined overloads count) :=
  match defined with
  | some arity => inferInstanceAs (Decidable (arity.accepts count = true))
  | none => inferInstanceAs (Decidable
      (overloads = [] ∨ ∃ signature ∈ overloads, signature.arity.accepts count = true))

namespace Env

/-- The arity of a method by its definition in the project, on the type or on the nearest ancestor
for which one is registered. -/
def definedArity? (env : Env) (type method : String) : Option Arity :=
  (env.project.registries.methods.lookup? type method false
    (some env.surroundings.index)).bind env.project.definitionArity?

/-- A type takes a call if the call fixes no count of arguments or the count is accepted. -/
def Takes (env : Env) (type : String) (call : CalledMethod) : Prop :=
  ∀ count ∈ call.count, Duck.Accepted (env.definedArity? type call.name)
    (env.surroundings.signatures.overloads type call.name) count

instance (env : Env) (type : String) (call : CalledMethod) : Decidable (env.Takes type call) :=
  inferInstanceAs (Decidable (∀ count ∈ call.count, Duck.Accepted _ _ count))

/-- The types that the index proposes for the calls, each once, as far as they take all calls. -/
def fitting (env : Env) (calls : List CalledMethod) : List String :=
  (env.surroundings.index.typesDefining calls).eraseDups.filter fun type =>
    decide (∀ call ∈ calls, env.Takes type call)

end Env

namespace Duck

/-- The names without another of them among their ancestors. -/
def mostGeneral (ancestors : String → List String) (names : List String) : List String :=
  names.filter fun name => decide (∀ other ∈ names, other ≠ name → other ∉ ancestors name)

section Runs

variable {may : NodeId → Prop} {granted : Inference → Prop}

theorem accepts_meets_iff (env : Env) (type : String) (call : CalledMethod) :
    (accepts env.project type call).Meets env.surroundings may granted fun passes =>
      passes = true ↔ env.Takes type call := by
  unfold accepts Env.Takes
  cases call.count with
  | none => simp
  | some count =>
      simp only [Inquiry.meets_bind]
      apply Inquiry.meets_mono (find_meets _ _ _)
      rintro node known
      have defined : node.bind env.project.definitionArity? = env.definedArity? type call.name :=
        congrArg (·.bind env.project.definitionArity?) known
      rw [defined]
      cases env.definedArity? type call.name with
      | some arity => simp [Accepted]
      | none =>
          simp only [Inquiry.meets_bind, Inquiry.overloads, Inquiry.meets_consult,
            Inquiry.meets_done, Inquiry.meets_pure]
          simp [Accepted, Surroundings.answer]

theorem candidates_meets_eq (env : Env) (calls : List CalledMethod) :
    (candidates env.project calls).Meets env.surroundings may granted fun types =>
      types = env.fitting calls := by
  unfold candidates
  rw [Inquiry.meets_bind, Env.fitting, ← distinctNames_eq_eraseDups]
  apply Inquiry.meets_keep_eq
  intro type _
  have each : ∀ call ∈ calls, (accepts env.project type call).Meets env.surroundings may granted
      fun passes => passes = decide (env.Takes type call) := by
    intro call _
    apply Inquiry.meets_mono (accepts_meets_iff env type call)
    intro passes takes
    rw [Bool.eq_iff_iff, decide_eq_true_iff, takes]
  apply Inquiry.meets_mono (Inquiry.meets_all_eq each)
  rintro _ rfl
  rw [Bool.eq_iff_iff, decide_eq_true_iff, List.all_eq_true]
  simp only [decide_eq_true_iff]

theorem isMostGeneral_iff {types ancestors : List String} {type : String} :
    isMostGeneral types type ancestors = true ↔
      ∀ other ∈ types, other ≠ type → other ∉ ancestors := by
  simp only [isMostGeneral, Bool.not_eq_true', List.any_eq_false, Bool.and_eq_true, bne_iff_ne,
    List.contains_iff_mem, not_and]
  exact ⟨fun free other listed apart above => free other above apart listed,
    fun free other above apart listed => free other listed apart above⟩

theorem dropDescendants_meets_eq (surroundings : Surroundings) (types : List String) :
    (dropDescendants types).Meets surroundings may granted fun left =>
      left = mostGeneral surroundings.index.ancestors types := by
  unfold dropDescendants
  split_ifs with few
  · -- A single name has no others beside it.
    rw [Inquiry.meets_pure, eq_comm, mostGeneral, List.filter_eq_self]
    intro name listed
    match types, few, listed with
    | [only], _, listed =>
        obtain rfl := List.mem_singleton.mp listed
        simp
  · apply Inquiry.meets_keep_eq
    intro type _
    simp only [Inquiry.meets_bind, Inquiry.ancestors, Inquiry.meets_consult, Inquiry.meets_done,
      Inquiry.meets_pure]
    rw [Bool.eq_iff_iff, isMostGeneral_iff, decide_eq_true_iff]
    rfl

end Runs

/-! ### The most general types -/

theorem mem_mostGeneral {ancestors : String → List String} {names : List String} {name : String} :
    name ∈ mostGeneral ancestors names ↔
      name ∈ names ∧ ∀ other ∈ names, other ≠ name → other ∉ ancestors name := by
  rw [mostGeneral, List.mem_filter, decide_eq_true_iff]

theorem mostGeneral_sublist (ancestors : String → List String) (names : List String) :
    (mostGeneral ancestors names).Sublist names :=
  List.filter_sublist

/-- Where ancestors form no loops, a name with another one above it is covered by it. -/
theorem exists_mostGeneral_above {ancestors : String → List String}
    (transitive : Ancestry.IsTransitive ancestors) (loopFree : Ancestry.IsLoopFree ancestors)
    {names : List String} {name : String} (listed : name ∈ names) :
    ∃ top ∈ mostGeneral ancestors names, top = name ∨ top ∈ ancestors name := by
  obtain ⟨top, held, above, free⟩ :=
    Simplifier.exists_uncovered_above transitive names.finite_toSet listed
  refine ⟨top, mem_mostGeneral.mpr ⟨held, ?_⟩, above.imp_right fun covers => covers.2.1⟩
  intro other among apart higher
  exact free other among ⟨apart, higher, fun back => apart (loopFree top other higher back)⟩

theorem mostGeneral_ne_nil {ancestors : String → List String}
    (transitive : Ancestry.IsTransitive ancestors) (loopFree : Ancestry.IsLoopFree ancestors)
    {names : List String} (some : names ≠ []) : mostGeneral ancestors names ≠ [] := by
  obtain ⟨name, listed⟩ := List.exists_mem_of_ne_nil names some
  obtain ⟨top, held, _⟩ := exists_mostGeneral_above transitive loopFree listed
  exact List.ne_nil_of_mem held

theorem verdict_ambiguous_iff (settings : Settings) (methods types : List String) :
    (∃ names count, (verdict settings methods types).reason = .ambiguousDuckType names count) ↔
      settings.duckMaxCandidates < types.length := by
  unfold verdict
  split_ifs with empty many
  · rw [List.isEmpty_iff.mp empty]
    simp [Inference.unknown]
  · exact ⟨fun _ => many, fun _ => ⟨methods, types.length, rfl⟩⟩
  · simp [many]

theorem verdict_type {settings : Settings} {types : List String}
    (few : types.length ≤ settings.duckMaxCandidates) (methods : List String) :
    (verdict settings methods types).type = .join (types.map .instanceOf) := by
  unfold verdict
  split_ifs with empty many
  · rw [List.isEmpty_iff.mp empty]
    rfl
  · exact absurd many (Nat.not_lt.mpr few)
  · rfl

end Duck

namespace Env

theorem resolve_bind {α β : Type} (env : Env) (inquiry : Inquiry α) (next : α → Inquiry β)
    (progress : Progress) :
    env.resolve (inquiry >>= next) progress =
      env.resolve (next (env.resolve inquiry progress).1) (env.resolve inquiry progress).2 :=
  Inquiry.run_bind env.surroundings _ inquiry next progress

theorem resolve_dropDescendants (env : Env) (types : List String) (progress : Progress) :
    (env.resolve (Duck.dropDescendants types) progress).1 =
      Duck.mostGeneral env.surroundings.index.ancestors types :=
  Inquiry.run_of_meets (Duck.dropDescendants_meets_eq env.surroundings types) _ progress

theorem resolve_candidates (env : Env) (calls : List CalledMethod) (progress : Progress) :
    (env.resolve (Duck.candidates env.project calls) progress).1 = env.fitting calls :=
  Inquiry.run_of_meets (Duck.candidates_meets_eq env calls) _ progress

theorem resolve_guess (env : Env) {calls : List CalledMethod} (called : calls ≠ [])
    (progress : Progress) :
    (env.resolve (Duck.guess env.project calls) progress).1 =
      Duck.verdict env.project.settings (calls.map CalledMethod.name)
        (Duck.mostGeneral env.surroundings.index.ancestors (env.fitting calls)) := by
  unfold Duck.guess
  rw [if_neg (by simpa using called)]
  simp only [resolve_bind, resolve_candidates, resolve_dropDescendants]
  rfl

/-- A guess names the most general types that fit. Where ancestors are transitive and form no loops,
what is left of the fitting types are those without another one of them among their ancestors, and
every fitting type is left or has an ancestor that is. The guess is ambiguous exactly if more are
left than the settings allow, and else has the first ten as its alternatives, in order. -/
theorem guess_names_the_most_general (env : Env)
    (transitive : Ancestry.IsTransitive env.surroundings.index.ancestors)
    (loopFree : Ancestry.IsLoopFree env.surroundings.index.ancestors)
    {calls : List CalledMethod} (called : calls ≠ []) (progress : Progress) :
    let fitting := env.fitting calls
    let left :=
      (env.resolve (Duck.candidates env.project calls >>= Duck.dropDescendants) progress).1
    let guess := (env.resolve (Duck.guess env.project calls) progress).1
    left = fitting.filter (fun name =>
        decide (∀ other ∈ fitting, other ≠ name → other ∉ env.surroundings.index.ancestors name)) ∧
      (∀ name ∈ fitting, name ∈ left ∨
        ∃ ancestor ∈ left, ancestor ∈ env.surroundings.index.ancestors name) ∧
      ((∃ methods count, guess.reason = .ambiguousDuckType methods count) ↔
        env.project.settings.duckMaxCandidates < left.length) ∧
      (left.length ≤ env.project.settings.duckMaxCandidates → fitting ≠ [] →
        guess.type = .join ((left.take 10).map .instanceOf) ∧
          guess.type.members = (left.take 10).map .instanceOf) := by
  intro fitting left guess
  have remaining : left = Duck.mostGeneral env.surroundings.index.ancestors fitting := by
    simp only [left, resolve_bind, resolve_dropDescendants, resolve_candidates, fitting]
  have guessed : guess = Duck.verdict env.project.settings (calls.map CalledMethod.name) left := by
    rw [remaining]
    exact resolve_guess env called progress
  refine ⟨remaining, ?_, ?_, ?_⟩
  · intro name listed
    obtain ⟨top, held, itself | above⟩ :=
      Duck.exists_mostGeneral_above transitive loopFree listed
    · exact Or.inl (remaining ▸ itself ▸ held)
    · exact Or.inr ⟨top, remaining ▸ held, above⟩
  · rw [guessed]
    exact Duck.verdict_ambiguous_iff _ _ left
  · intro few some
    have distinct : left.Nodup := by
      rw [remaining]
      exact (eraseDups_nodup _).filter _ |>.filter _
    have first : left.take 10 ≠ [] := by
      rw [Ne, List.take_eq_nil_iff, not_or, remaining]
      exact ⟨by decide, Duck.mostGeneral_ne_nil transitive loopFree some⟩
    have named : Ty.join (left.map .instanceOf) =
        .ofAlternatives ((left.take 10).map .instanceOf) := Ty.join_instances distinct
    rw [guessed, Duck.verdict_type few, named]
    constructor
    · rw [Ty.join_instances (distinct.sublist (List.take_sublist 10 left)), List.take_take]
      rfl
    · apply Ty.members_ofAlternatives
      · simpa using first
      · exact fun type listed => (Ty.instances_simple type listed).1

/-- Types that are fed. A dog takes what any animal takes, a bowl is fed without a meal, and what a
trough takes is known from elsewhere. -/
def stable : Env :=
  let nodes := ofKinds [.param "meal" .required none 0,
    .definition { name := "feed", owner := "Animal", params := [0] },
    .definition { name := "feed", owner := "Bowl" }] {}
  let methods := MethodRegistry.register {} "Animal" "feed" false 1
  let hierarchy := Hierarchy.ofDefs [.ofClass "Dog" (some "Animal"), .ofClass "Animal" none,
    .ofClass "Bowl" none, .ofClass "Trough" none, .method "Animal" "feed" none,
    .method "Bowl" "feed" none, .method "Trough" "feed" none]
  { project := { nodes.project with
      registries := { methods := methods.register "Bowl" "feed" false 2 } }
    surroundings := {
      index := hierarchy.index
      signatures := { SignatureSource.none with
        overloads := fun owner _ =>
          if owner = "Trough" then [{ params := [⟨"meals", .rest, .unknown⟩], result := .self }]
          else [] }
      simplifier := .none } }

theorem stable_names_animals_and_troughs :
    Ancestry.IsTransitive stable.surroundings.index.ancestors ∧
      Ancestry.IsLoopFree stable.surroundings.index.ancestors ∧
      stable.surroundings.index.typesDefining [⟨"feed", some 1⟩] =
        ["Dog", "Animal", "Bowl", "Trough"] ∧
      stable.fitting [⟨"feed", some 1⟩] = ["Dog", "Animal", "Trough"] ∧
      (stable.resolve (Duck.guess stable.project [⟨"feed", some 1⟩]) {}).1.type.members =
        [.instanceOf "Animal", .instanceOf "Trough"] := by
  have transitive : Ancestry.IsTransitive stable.surroundings.index.ancestors :=
    Hierarchy.isTransitive_iff.mpr (by decide)
  have loopFree : Ancestry.IsLoopFree stable.surroundings.index.ancestors :=
    Hierarchy.isLoopFree_iff.mpr (by decide)
  have fitting : stable.fitting [⟨"feed", some 1⟩] = ["Dog", "Animal", "Trough"] := by decide
  have left : (stable.resolve (Duck.candidates stable.project [⟨"feed", some 1⟩] >>=
      Duck.dropDescendants) {}).1 = ["Animal", "Trough"] := by decide
  obtain ⟨_, _, _, named⟩ := guess_names_the_most_general stable transitive loopFree
    (List.cons_ne_nil ⟨"feed", some 1⟩ []) {}
  rw [left, fitting] at named
  exact ⟨transitive, loopFree, by decide, fitting, (named (by decide) (by decide)).2⟩

end Env

end HeuristicTyping
