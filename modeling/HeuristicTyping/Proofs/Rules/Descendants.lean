import HeuristicTyping.Proofs.Rules.DuckTyping

/-!
# Two ways to drop descendants

A guess from use and the simplification of a union both drop a type with an ancestor among the
others. The guess looks at the ancestors of the type only. Simplification keeps a type that is an
ancestor of its ancestor in turn. So the two agree unless some type has others above it and is above
each of them itself: the guess drops it, and simplification keeps it. Along a loop a guess may drop
every type there was.
-/

set_option autoImplicit false

namespace HeuristicTyping

namespace Ty

theorem properMembers_instances {names : List String} (distinct : names.Nodup)
    (several : 2 ≤ names.length) (few : names.length ≤ unionCap) :
    ProperMembers (names.map .instanceOf) where
  several := by simpa using several
  bounded := by simpa using few
  distinct := instances_apart distinct
  simple := instances_simple

theorem isUnknown_of_beq {type other : Ty} (equal : (type == other) = true) :
    type.isUnknown = other.isUnknown := by
  cases known : other.isUnknown with
  | true =>
      obtain rfl := eq_unknown known
      cases type with
      | unknown => rfl
      | _ => cases equal
  | false =>
      cases type with
      | unknown =>
          rw [beq_unknown_left known] at equal
          cases equal
      | _ => rfl

theorem length_members_of_beq {type other : Ty} (equal : (type == other) = true) :
    type.members.length = other.members.length := by
  have length_of_single {type : Ty} (single : type.isUnion = false) : type.members.length = 1 := by
    cases type with
    | union members => cases single
    | _ => rfl
  cases single : type.isUnion with
  | true =>
      cases type with
      | union members =>
          obtain ⟨others, rfl, count, _⟩ := same_union_iff.mp equal
          exact count
      | _ => cases single
  | false =>
      have alike := ((same_iff single).mp equal).1
      rw [length_of_single single, length_of_single ((isUnion_of_shell alike).trans single)]

theorem ofAlternatives_isUnknown_iff {kept : List Ty}
    (known : ∀ type ∈ kept, type.isUnknown = false) :
    (ofAlternatives kept).isUnknown = true ↔ kept = [] := by
  rcases kept with _ | ⟨first, _ | ⟨second, rest⟩⟩
  · exact iff_of_true rfl rfl
  · have told := known first List.mem_cons_self
    simp [ofAlternatives, told]
  · simp [ofAlternatives, isUnknown]

/-- Types with unequally many alternatives are not equal. -/
theorem length_of_beq_ofAlternatives {kept others : List Ty}
    (simple : ∀ type ∈ kept, type.isUnion = false ∧ type.isUnknown = false)
    (otherSimple : ∀ type ∈ others, type.isUnion = false ∧ type.isUnknown = false)
    (equal : (ofAlternatives kept == ofAlternatives others) = true) :
    kept.length = others.length := by
  have emptied : kept = [] ↔ others = [] := by
    rw [← ofAlternatives_isUnknown_iff fun type listed => (simple type listed).2,
      ← ofAlternatives_isUnknown_iff fun type listed => (otherSimple type listed).2,
      isUnknown_of_beq equal]
  by_cases none : kept = []
  · rw [none, emptied.mp none]
  · have count := length_members_of_beq equal
    rwa [members_ofAlternatives none fun type listed => (simple type listed).1,
      members_ofAlternatives (none ∘ emptied.mpr) fun type listed => (otherSimple type listed).1]
      at count

end Ty

namespace Ancestry

/-- Both are among the names, and the second is another one and above the first. -/
def Below (ancestors : String → List String) (names : List String) (name other : String) : Prop :=
  name ∈ names ∧ other ∈ names ∧ other ≠ name ∧ other ∈ ancestors name

theorem acyclic_of_rank {below : String → String → Prop} (rank : String → Nat)
    (falls : ∀ name other, below name other → rank other < rank name) (name : String) :
    ¬ Relation.TransGen below name name := by
  intro loop
  have lower : ∀ {top}, Relation.TransGen below name top → rank top < rank name := by
    intro top path
    induction path with
    | single step => exact falls _ _ step
    | tail _ step ih => exact (falls _ _ step).trans ih
  exact Nat.lt_irrefl _ (lower loop)

end Ancestry

namespace Simplifier

/-- The names that no other one of them covers. -/
def uncovered (ancestors : String → List String) (names : List String) : List String :=
  names.filter fun name => decide (∀ other ∈ names, ¬ Covers ancestors name other)

variable {ancestors : String → List String} {names : List String}

theorem mem_uncovered {name : String} :
    name ∈ uncovered ancestors names ↔
      name ∈ names ∧ ∀ other ∈ names, ¬ Covers ancestors name other := by
  rw [uncovered, List.mem_filter, decide_eq_true_iff]

theorem uncovered_sublist (ancestors : String → List String) (names : List String) :
    (uncovered ancestors names).Sublist names :=
  List.filter_sublist

theorem prune_instances (ancestors : String → List String) (names : List String) :
    prune ancestors (names.map .instanceOf) = (uncovered ancestors names).map .instanceOf := by
  rw [prune, List.filter_map, uncovered]
  congr 1
  apply List.filter_congr
  intro name _
  rw [Bool.eq_iff_iff, decide_eq_true_iff, Function.comp_apply, Bool.not_eq_true',
    ← Bool.not_eq_true, isRedundant_iff]
  constructor
  · exact fun free other listed covers =>
      free ⟨name, other, rfl, List.mem_map_of_mem listed, covers⟩
  · rintro free ⟨own, other, same, listed, covers⟩
    obtain rfl := Ty.instanceOf.inj same
    obtain ⟨found, held, named⟩ := List.mem_map.mp listed
    obtain rfl := Ty.instanceOf.inj named
    exact free found held covers

/-- Simplifying a union of a few types leaves the uncovered ones. -/
theorem collapse_instances (ancestors : String → List String) (distinct : names.Nodup)
    (few : names.length ≤ Ty.unionCap) :
    collapse ancestors (.join (names.map .instanceOf)) =
      .join ((uncovered ancestors names).map .instanceOf) := by
  match names with
  | [] => rfl
  | [only] =>
      have kept : uncovered ancestors [only] = [only] := by simp [uncovered, Covers]
      rw [kept]
      rfl
  | first :: second :: rest =>
      have proper := Ty.properMembers_instances distinct (by simp) few
      have unchanged (names : List String) :
          (names.map Ty.instanceOf).map (collapse ancestors) = names.map .instanceOf := by
        simp [collapse]
      rw [Ty.join_of_proper proper, collapse, Ty.collapseAll_eq, unchanged, prune_instances]

end Simplifier

namespace Duck

variable {ancestors : String → List String} {names : List String}

theorem mostGeneral_sublist_uncovered (ancestors : String → List String) (names : List String) :
    (mostGeneral ancestors names).Sublist (Simplifier.uncovered ancestors names) := by
  apply List.monotone_filter_right
  intro name free
  rw [decide_eq_true_iff] at free ⊢
  exact fun other listed covers => free other listed covers.1 covers.2.1

theorem mostGeneral_eq_uncovered_iff :
    mostGeneral ancestors names = Simplifier.uncovered ancestors names ↔
      ∀ name ∈ names, ∀ other ∈ names, other ≠ name → other ∈ ancestors name →
        ∃ cover ∈ names, Simplifier.Covers ancestors name cover := by
  constructor
  · intro same name listed other among apart above
    by_contra none
    have kept : name ∈ mostGeneral ancestors names := by
      rw [same, Simplifier.mem_uncovered]
      exact ⟨listed, fun cover held covers => none ⟨cover, held, covers⟩⟩
    exact (mem_mostGeneral.mp kept).2 other among apart above
  · intro covered
    apply List.filter_congr
    intro name listed
    rw [decide_eq_decide]
    constructor
    · exact fun free other among covers => free other among covers.1 covers.2.1
    · intro free other among apart above
      obtain ⟨cover, held, covers⟩ := covered name listed other among apart above
      exact free cover held covers

/-- Unions of a few types are equal only if the types are: the one list is a part of the other, so
the lists are equal if they are equally long. -/
theorem join_mostGeneral_iff (distinct : names.Nodup) (few : names.length ≤ Ty.unionCap) :
    (Ty.join ((mostGeneral ancestors names).map .instanceOf) ==
        .join ((Simplifier.uncovered ancestors names).map .instanceOf)) = true ↔
      mostGeneral ancestors names = Simplifier.uncovered ancestors names := by
  have joined {part : List String} (kept : part.Sublist names) :
      Ty.join (part.map .instanceOf) = .ofAlternatives (part.map .instanceOf) := by
    rw [Ty.join_instances (distinct.sublist kept),
      List.take_of_length_le (kept.length_le.trans few)]
  constructor
  · intro equal
    rw [joined (mostGeneral_sublist ancestors names),
      joined (Simplifier.uncovered_sublist ancestors names)] at equal
    have count := Ty.length_of_beq_ofAlternatives Ty.instances_simple Ty.instances_simple equal
    rw [List.length_map, List.length_map] at count
    exact (mostGeneral_sublist_uncovered ancestors names).eq_of_length count
  · intro same
    rw [same]
    exact Ty.same_refl _

section Acyclic

variable (acyclic : ∀ name, ¬ Relation.TransGen (Ancestry.Below ancestors names) name name)
include acyclic

theorem covers_of_acyclic {name other : String} (listed : name ∈ names) (among : other ∈ names)
    (apart : other ≠ name) (above : other ∈ ancestors name) :
    Simplifier.Covers ancestors name other := by
  refine ⟨apart, above, fun back => ?_⟩
  have up : Ancestry.Below ancestors names name other := ⟨listed, among, apart, above⟩
  have down : Ancestry.Below ancestors names other name := ⟨among, listed, apart.symm, back⟩
  exact acyclic name (.tail (.single up) down)

theorem mostGeneral_ne_nil_of_acyclic (some : names ≠ []) : mostGeneral ancestors names ≠ [] := by
  obtain ⟨name, listed⟩ := List.exists_mem_of_ne_nil names some
  obtain ⟨top, held, _, free⟩ := Ancestry.exists_top acyclic names.finite_toSet listed
  have kept : top ∈ mostGeneral ancestors names :=
    mem_mostGeneral.mpr ⟨held, fun other among apart above =>
      free other among ⟨held, among, apart, above⟩⟩
  exact List.ne_nil_of_mem kept

end Acyclic

end Duck

namespace Env

/-- A union of a few types with descendants dropped is what simplification makes of it exactly if
each of the types that has another one above it is covered by one of them. That is so if the types
form no loop, and then some type is left. -/
theorem droppings_agree_iff_covered (env : Env) {types : List String} (distinct : types.Nodup)
    (few : types.length ≤ 10) (progress : Progress) :
    let ancestors := env.surroundings.index.ancestors
    let left := (env.resolve (Duck.dropDescendants types) progress).1
    let simplified :=
      (Simplifier.ancestral env.surroundings.index).simplify (.join (types.map .instanceOf))
    ((Ty.join (left.map .instanceOf) == simplified) = true ↔
        ∀ name ∈ types, ∀ other ∈ types, other ≠ name → other ∈ ancestors name →
          ∃ cover ∈ types, cover ≠ name ∧ cover ∈ ancestors name ∧ name ∉ ancestors cover) ∧
      ((∀ name, ¬ Relation.TransGen (Ancestry.Below ancestors types) name name) →
        Ty.join (left.map .instanceOf) = simplified ∧ (types ≠ [] → left ≠ [])) := by
  intro ancestors left simplified
  have remaining : left = Duck.mostGeneral ancestors types :=
    resolve_dropDescendants env types progress
  have collapsed :
      simplified = .join ((Simplifier.uncovered ancestors types).map .instanceOf) :=
    Simplifier.collapse_instances ancestors distinct few
  rw [remaining, collapsed]
  constructor
  · rw [Duck.join_mostGeneral_iff distinct few]
    exact Duck.mostGeneral_eq_uncovered_iff
  · intro acyclic
    refine ⟨?_, Duck.mostGeneral_ne_nil_of_acyclic acyclic⟩
    rw [Duck.mostGeneral_eq_uncovered_iff.mpr]
    intro name listed other among apart above
    exact ⟨other, among, Duck.covers_of_acyclic acyclic listed among apart above⟩

/-- Nothing but a hierarchy of types. -/
def ofHierarchy (hierarchy : Hierarchy) : Env :=
  { ofKinds [] {} with
    surroundings := { index := hierarchy.index, signatures := .none, simplifier := .none } }

/-- Not all of the farm's classes that form a loop are among these. -/
theorem farm_drops_alike :
    let types := ["Puppy", "Animal", "Chick", "Egg"]
    let left := ((ofHierarchy Simplifier.farm).resolve (Duck.dropDescendants types) {}).1
    types.Nodup ∧
      (∀ name, ¬ Relation.TransGen
        (Ancestry.Below Simplifier.farm.index.ancestors types) name name) ∧
      left = ["Animal", "Egg"] ∧
      Ty.join (left.map .instanceOf) =
        (Simplifier.ancestral Simplifier.farm.index).simplify (.join (types.map .instanceOf)) := by
  intro types left
  have distinct : types.Nodup := by decide
  have fewer : ∀ name ∈ types, ∀ other ∈ types, other ≠ name →
      other ∈ Simplifier.farm.ancestors name →
        (Simplifier.farm.ancestors other).length < (Simplifier.farm.ancestors name).length := by
    decide
  have acyclic : ∀ name, ¬ Relation.TransGen
      (Ancestry.Below Simplifier.farm.index.ancestors types) name name :=
    Ancestry.acyclic_of_rank (fun name => (Simplifier.farm.ancestors name).length)
      fun name other below => fewer name below.1 other below.2.1 below.2.2.1 below.2.2.2
  obtain ⟨_, agree⟩ := droppings_agree_iff_covered (ofHierarchy Simplifier.farm) distinct
    (by decide) {}
  exact ⟨distinct, acyclic, by decide, (agree acyclic).1⟩

/-- Of two classes above each other nothing is left, although simplification keeps both. -/
theorem mutual_ancestors_drop_each_other :
    (¬ ∀ definitions (types : List String), types.Nodup → types.length ≤ 10 →
      (Ty.join ((((ofHierarchy (.ofDefs definitions)).resolve
          (Duck.dropDescendants types) {}).1).map .instanceOf) ==
        (Simplifier.ancestral (Hierarchy.ofDefs definitions).index).simplify
          (.join (types.map .instanceOf))) = true) ∧
      ¬ ∀ definitions (types : List String), types.Nodup → types.length ≤ 10 → types ≠ [] →
        ((ofHierarchy (.ofDefs definitions)).resolve (Duck.dropDescendants types) {}).1 ≠ [] := by
  let loop : List HierarchyDef := [.ofClass "Hen" (some "Egg"), .ofClass "Egg" (some "Hen")]
  constructor
  · intro agree
    exact absurd (agree loop ["Hen", "Egg"] (by decide) (by decide)) (by decide)
  · intro filled
    exact filled loop ["Hen", "Egg"] (by decide) (by decide) (by decide) (by decide)

end Env

end HeuristicTyping
