import HeuristicTyping.Proofs.Ty.Permutations
import HeuristicTyping.Proofs.Ty.Simplification

/-!
# What simplification keeps

All members of a union are judged before any is dropped, so a member may go because of one that goes
itself. If ancestors are transitive, then nothing is lost all the same: above every instance that is
dropped stands one that is left, and only instances are dropped.
-/

set_option autoImplicit false

namespace HeuristicTyping

namespace Ty

/-- Whether the type is that of the instances of a named type. -/
def isInstance : Ty → Bool
  | .instanceOf _ => true
  | _ => false

theorem rebuilt_isInstance (change : Ty → Ty) {type : Ty} (single : type.isUnion = false) :
    (rebuilt change type).isInstance = type.isInstance := by
  cases type with
  | union members => cases single
  | tuple elements =>
      simp only [rebuilt, tupleOf]
      split <;> rfl
  | shape fields =>
      simp only [rebuilt, shapeOf]
      split <;> rfl
  | _ => rfl

theorem eq_of_beq_instanceOf {type : Ty} {name : String}
    (equal : (type == .instanceOf name) = true) : type = .instanceOf name := by
  cases type with
  | instanceOf other => exact congrArg Ty.instanceOf (eq_of_beq equal)
  | _ => cases equal

theorem mem_distinct_instanceOf {types : List Ty} {name : String} :
    .instanceOf name ∈ distinct types ↔ .instanceOf name ∈ types := by
  constructor
  · exact fun listed => (distinct_sublist types).subset listed
  · intro listed
    obtain ⟨kept, held, equal⟩ := exists_beq_distinct listed
    exact eq_of_beq_instanceOf equal ▸ held

theorem members_ofAlternatives {kept : List Ty} (some : kept ≠ [])
    (single : ∀ type ∈ kept, type.isUnion = false) : (ofAlternatives kept).members = kept := by
  match kept, some, single with
  | [only], _, single =>
      have simple := single only List.mem_cons_self
      cases only with
      | union members => cases simple
      | _ => rfl
  | _ :: _ :: _, _, _ => rfl

end Ty

namespace Simplifier

variable {ancestors : String → List String}

theorem isRedundant_of_other (types : List Ty) {type : Ty} (other : type.isInstance = false) :
    isRedundant ancestors types type = false := by
  cases type with
  | instanceOf name => cases other
  | _ => rfl

/-- An instance is what is left of an instance only. -/
theorem mem_of_collapse_mem {members : List Ty} (proper : Ty.ProperMembers members) {name : String}
    (listed : .instanceOf name ∈ members.map (collapse ancestors)) :
    .instanceOf name ∈ members := by
  obtain ⟨member, held, same⟩ := List.mem_map.mp listed
  have single := (proper.simple member held).1
  have kind : member.isInstance = true := by
    rw [← Ty.rebuilt_isInstance (collapse ancestors) single, ← Ty.collapse_eq ancestors single,
      same]
    rfl
  cases member with
  | instanceOf other => exact same ▸ held
  | _ => cases kind

section Members

variable (transitive : Ancestry.IsTransitive ancestors) {members : List Ty}
  (proper : Ty.ProperMembers members)
include transitive proper

/-- The members that a union has once it was simplified. -/
theorem members_collapse :
    (collapse ancestors (.union members)).members =
      Ty.distinct (prune ancestors (members.map (collapse ancestors))) := by
  have simple : ∀ type ∈ prune ancestors (members.map (collapse ancestors)),
      type.isUnion = false ∧ type.isUnknown = false := by
    intro type left
    obtain ⟨member, listed, rfl⟩ := List.mem_map.mp (List.mem_filter.mp left).1
    exact collapse_simple (proper.simple member listed)
  have bounded :
      (Ty.distinct (prune ancestors (members.map (collapse ancestors)))).length ≤ Ty.unionCap :=
    calc (Ty.distinct (prune ancestors (members.map (collapse ancestors)))).length
      _ ≤ (prune ancestors (members.map (collapse ancestors))).length :=
          (Ty.distinct_sublist _).length_le
      _ ≤ (members.map (collapse ancestors)).length := List.length_filter_le _ _
      _ = members.length := List.length_map _
      _ ≤ Ty.unionCap := proper.bounded
  have filled : members.map (collapse ancestors) ≠ [] := by simpa using proper.ne_nil
  obtain ⟨type, left⟩ := List.exists_mem_of_ne_nil _ (prune_ne_nil transitive filled)
  obtain ⟨kept, held, _⟩ := Ty.exists_beq_distinct left
  rw [collapse, Ty.collapseAll_eq, Ty.join_eq, Ty.knownAlternatives_of_simple simple,
    List.take_of_length_le bounded, Ty.members_ofAlternatives (List.ne_nil_of_mem held)]
  exact fun type among => (simple type ((Ty.distinct_sublist _).subset among)).1

theorem exists_kept_above {name : String} (listed : .instanceOf name ∈ members) :
    ∃ top, .instanceOf top ∈ members ∧
      .instanceOf top ∈ (collapse ancestors (.union members)).members ∧
      (top = name ∨ Covers ancestors name top) := by
  have changed : .instanceOf name ∈ members.map (collapse ancestors) :=
    List.mem_map.mpr ⟨_, listed, rfl⟩
  obtain ⟨top, left, above⟩ := exists_left_above transitive changed
  rw [members_collapse transitive proper]
  exact ⟨top, mem_of_collapse_mem proper (List.mem_filter.mp left).1,
    Ty.mem_distinct_instanceOf.mpr left, above⟩

theorem exists_kept_of_other {member : Ty} (listed : member ∈ members)
    (other : member.isInstance = false) :
    ∃ kept ∈ (collapse ancestors (.union members)).members,
      (kept == collapse ancestors member) = true := by
  have single := (proper.simple member listed).1
  have changed : (collapse ancestors member).isInstance = false := by
    rw [Ty.collapse_eq ancestors single, Ty.rebuilt_isInstance _ single, other]
  rw [members_collapse transitive proper]
  apply Ty.exists_beq_distinct
  refine List.mem_filter.mpr ⟨List.mem_map_of_mem listed, ?_⟩
  rw [isRedundant_of_other _ changed]
  rfl

theorem exists_member_of_kept {kept : Ty}
    (held : kept ∈ (collapse ancestors (.union members)).members) :
    ∃ member ∈ members, collapse ancestors member = kept := by
  rw [members_collapse transitive proper] at held
  have left := (Ty.distinct_sublist _).subset held
  exact List.mem_map.mp (List.mem_filter.mp left).1

end Members

/-- Simplification loses no alternative if ancestors are transitive. Of the members of a normal
union, every instance that is dropped has an ancestor among those that are left, all others are
left as they are simplified themselves, nothing else comes in, and the result is known. -/
theorem ancestral_loses_no_alternative (index : TypeIndex)
    (transitive : Ancestry.IsTransitive index.ancestors) {members : List Ty}
    (normal : (Ty.union members).IsNormal) :
    let simplify := (ancestral index).simplify
    let left := (simplify (.union members)).members
    (∀ name, .instanceOf name ∈ members → .instanceOf name ∉ left →
        ∃ ancestor ∈ index.ancestors name,
          .instanceOf ancestor ∈ members ∧ .instanceOf ancestor ∈ left) ∧
      (∀ member ∈ members, member.isInstance = false →
        ∃ kept ∈ left, (kept == simplify member) = true) ∧
      (∀ kept ∈ left, ∃ member ∈ members, simplify member = kept) ∧
      simplify (.union members) ≠ .unknown := by
  intro simplify left
  have proper : Ty.ProperMembers members := normal.own
  refine ⟨?_, ?_, ?_, ?_⟩
  · intro name listed dropped
    obtain ⟨top, among, kept, same | covers⟩ := exists_kept_above transitive proper listed
    · exact absurd (same ▸ kept) dropped
    · exact ⟨top, covers.2.1, among, kept⟩
  · exact fun member => exists_kept_of_other transitive proper
  · exact fun kept => exists_member_of_kept transitive proper
  · intro unknown
    have known : (simplify (.union members)).isUnknown = false :=
      collapse_isUnknown transitive (normal.mono fun _ => Ty.isProper_of_isRegular) rfl
    rw [unknown] at known
    cases known

/-- A class below another one that is below a third, and two classes that are above each other and
above one more. -/
def farm : Hierarchy :=
  .ofDefs [.ofClass "Dog" (some "Animal"), .ofClass "Puppy" (some "Dog"),
    .ofClass "Hen" (some "Egg"), .ofClass "Egg" (some "Hen"), .ofClass "Chick" (some "Hen")]

/-- All of them, two arrays that are the same once they were simplified, and one of the classes as
an object. -/
def farmMembers : List Ty :=
  [.instanceOf "Puppy", .instanceOf "Dog", .instanceOf "Animal", .instanceOf "Chick",
    .instanceOf "Hen", .instanceOf "Egg",
    .array (.union [.instanceOf "Dog", .instanceOf "Puppy"]), .array (.instanceOf "Dog"),
    .singleton "Puppy"]

theorem farm_loses_no_alternative :
    Ancestry.IsTransitive farm.index.ancestors ∧ (Ty.union farmMembers).IsNormal ∧
      (ancestral farm.index).simplify (.union farmMembers) =
        .union [.instanceOf "Animal", .instanceOf "Hen", .instanceOf "Egg",
          .array (.instanceOf "Dog"), .singleton "Puppy"] ∧
      (∃ ancestor ∈ farm.ancestors "Chick", .instanceOf ancestor ∈ farmMembers ∧
        .instanceOf ancestor ∈ ((ancestral farm.index).simplify (.union farmMembers)).members) ∧
      (ancestral farm.index).simplify (.union farmMembers) ≠ .unknown := by
  have transitive : Ancestry.IsTransitive farm.index.ancestors :=
    Hierarchy.isTransitive_iff.mpr (by decide)
  have normal : (Ty.union farmMembers).IsNormal := by decide
  have result : (ancestral farm.index).simplify (.union farmMembers) =
      .union [.instanceOf "Animal", .instanceOf "Hen", .instanceOf "Egg",
        .array (.instanceOf "Dog"), .singleton "Puppy"] := rfl
  obtain ⟨above, _, _, known⟩ := ancestral_loses_no_alternative farm.index transitive normal
  refine ⟨transitive, normal, result, above "Chick" ?_ ?_, known⟩
  · simp [farmMembers]
  · simp [result, Ty.members]

end Simplifier

end HeuristicTyping
