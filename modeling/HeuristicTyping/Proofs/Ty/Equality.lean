import HeuristicTyping.Proofs.Ty.NormalForm
import Mathlib.Data.List.Perm.Subperm

/-!
# Equality of types

Two unions are equal if they have equally many members and each member of the first equals one of
the second. With that, equality is an equivalence only because the members of a union are pairwise
unequal: no two members of the first union equal the same member of the second, so none of the
second is left over. Symmetry and transitivity rest on each other one level down, so they are proved
together: `Ty.Comparable`.
-/

set_option autoImplicit false

namespace HeuristicTyping

/-! ### Matching lists -/

section Matching

variable {α : Type} {Match : α → α → Prop} {first second : List α}

/-- If every element has a match and no two share one, then the matches are as many as the
elements. -/
theorem exists_matches (each : ∀ element ∈ first, ∃ other ∈ second, Match element other)
    (apart : first.Pairwise fun element next =>
      ∀ other ∈ second, Match element other → ¬ Match next other) :
    ∃ taken : List α, taken.Nodup ∧ taken ⊆ second ∧ taken.length = first.length ∧
      ∀ other ∈ taken, ∃ element ∈ first, Match element other := by
  induction first with
  | nil => exact ⟨[], List.nodup_nil, List.nil_subset _, rfl, fun _ none => nomatch none⟩
  | cons element rest ih =>
      obtain ⟨own, later⟩ := List.pairwise_cons.mp apart
      obtain ⟨other, held, matched⟩ := each element List.mem_cons_self
      obtain ⟨taken, nodup, inside, count, back⟩ :=
        ih (fun next listed => each next (List.mem_cons_of_mem _ listed)) later
      have free : other ∉ taken := by
        intro again
        obtain ⟨next, listed, shared⟩ := back other again
        exact own next listed other held matched shared
      refine ⟨other :: taken, List.nodup_cons.mpr ⟨free, nodup⟩,
        List.cons_subset.mpr ⟨held, inside⟩, by simp [count], ?_⟩
      intro taker listed
      rcases List.mem_cons.mp listed with rfl | earlier
      · exact ⟨element, List.mem_cons_self, matched⟩
      · obtain ⟨next, among, shared⟩ := back taker earlier
        exact ⟨next, List.mem_cons_of_mem _ among, shared⟩

theorem length_le_of_matches (each : ∀ element ∈ first, ∃ other ∈ second, Match element other)
    (apart : first.Pairwise fun element next =>
      ∀ other ∈ second, Match element other → ¬ Match next other) :
    first.length ≤ second.length := by
  obtain ⟨taken, nodup, inside, count, _⟩ := exists_matches each apart
  rw [← count]
  exact (nodup.subperm inside).length_le

/-- If there are no more others than elements, then every other is matched. -/
theorem matched_of_matches (each : ∀ element ∈ first, ∃ other ∈ second, Match element other)
    (apart : first.Pairwise fun element next =>
      ∀ other ∈ second, Match element other → ¬ Match next other)
    (count : second.length ≤ first.length) :
    ∀ other ∈ second, ∃ element ∈ first, Match element other := by
  obtain ⟨taken, nodup, inside, same, back⟩ := exists_matches each apart
  have all : taken.Perm second := (nodup.subperm inside).perm_of_length_le (by omega)
  exact fun other held => back other (all.mem_iff.mpr held)

end Matching

namespace Ty

/-- No two members of a union are equal. -/
def HasDistinctMembers : Ty → Prop
  | .union members => members.Pairwise fun first second => (first == second) = false
  | _ => True

/-- In every union inside the type, no two members are equal. -/
def IsDistinct (type : Ty) : Prop := type.All HasDistinctMembers

theorem sameEach_symm {types others : List Ty} (each : SameEach types others)
    (back : ∀ type ∈ types, ∀ other ∈ others, type.same other = true → other.same type = true) :
    SameEach others types := by
  rw [SameEach, List.forall₂_iff_get] at each ⊢
  refine ⟨each.1.symm, fun place inOthers inTypes => ?_⟩
  exact back _ (List.get_mem _ _) _ (List.get_mem _ _) (each.2 place inTypes inOthers)

theorem sameEach_trans {types middle others : List Ty} (first : SameEach types middle)
    (second : SameEach middle others)
    (chain : ∀ type ∈ types, ∀ between ∈ middle, ∀ other ∈ others,
      type.same between = true → between.same other = true → type.same other = true) :
    SameEach types others := by
  rw [SameEach, List.forall₂_iff_get] at first second ⊢
  refine ⟨first.1.trans second.1, fun place inTypes inOthers => ?_⟩
  have inMiddle : place < middle.length := first.1 ▸ inTypes
  exact chain _ (List.get_mem _ _) _ (List.get_mem _ ⟨place, inMiddle⟩) _ (List.get_mem _ _)
    (first.2 place inTypes inMiddle) (second.2 place inMiddle inOthers)

/-- Comparisons that start with the type can be turned round and chained. -/
structure Comparable (type : Ty) : Prop where
  symm : ∀ other : Ty, other.IsDistinct → type.same other = true → other.same type = true
  trans : ∀ middle other : Ty, middle.IsDistinct → other.IsDistinct →
    type.same middle = true → middle.same other = true → type.same other = true

theorem comparable_of_single {type : Ty} (single : type.isUnion = false)
    (inner : ∀ child ∈ type.children, child.Comparable) : type.Comparable where
  symm other distinct equal := by
    obtain ⟨alike, each⟩ := (same_iff single).mp equal
    have otherSingle : other.isUnion = false := (isUnion_of_shell alike).trans single
    refine (same_iff otherSingle).mpr ⟨alike.symm, sameEach_symm each ?_⟩
    exact fun child held part inside => (inner child held).symm part (distinct.child inside)
  trans middle other distinct otherDistinct first second := by
    obtain ⟨alike, each⟩ := (same_iff single).mp first
    have middleSingle : middle.isUnion = false := (isUnion_of_shell alike).trans single
    obtain ⟨otherAlike, otherEach⟩ := (same_iff middleSingle).mp second
    refine (same_iff single).mpr ⟨alike.trans otherAlike, sameEach_trans each otherEach ?_⟩
    exact fun child held between inside part among =>
      (inner child held).trans between part (distinct.child inside) (otherDistinct.child among)

theorem comparable_of_union {members : List Ty}
    (apart : members.Pairwise fun first second => (first == second) = false)
    (inner : ∀ member ∈ members, member.Comparable)
    (distinct : ∀ member ∈ members, member.IsDistinct) : (Ty.union members).Comparable where
  symm other otherDistinct equal := by
    obtain ⟨others, rfl, count, each⟩ := same_union_iff.mp equal
    -- Two members that equal the same other are equal, one level down.
    have once : members.Pairwise fun member next => ∀ other ∈ others,
        member.same other = true → ¬ next.same other = true := by
      refine apart.imp_of_mem ?_
      intro member next listed nextListed differ other held first second
      have otherInside := otherDistinct.child held
      have back := (inner next nextListed).symm other otherInside second
      have equal := (inner member listed).trans other next otherInside
        (distinct next nextListed) first back
      exact absurd equal (Bool.not_eq_true _ ▸ differ)
    have matched := matched_of_matches each once (Nat.le_of_eq count.symm)
    refine same_union_iff.mpr ⟨members, rfl, count.symm, fun other held => ?_⟩
    obtain ⟨member, listed, same⟩ := matched other held
    exact ⟨member, listed, (inner member listed).symm other (otherDistinct.child held) same⟩
  trans middle other middleDistinct otherDistinct first second := by
    obtain ⟨between, rfl, count, each⟩ := same_union_iff.mp first
    obtain ⟨others, rfl, otherCount, otherEach⟩ := same_union_iff.mp second
    refine same_union_iff.mpr ⟨others, rfl, count.trans otherCount, fun member listed => ?_⟩
    obtain ⟨via, held, near⟩ := each member listed
    obtain ⟨last, inside, far⟩ := otherEach via held
    exact ⟨last, inside, (inner member listed).trans via last (middleDistinct.child held)
      (otherDistinct.child inside) near far⟩

theorem comparable {type : Ty} (distinct : type.IsDistinct) : type.Comparable := by
  induction type using Ty.induct with
  | step type ih =>
      have inner : ∀ child ∈ type.children, child.Comparable :=
        fun child held => ih child held (distinct.child held)
      cases single : type.isUnion with
      | false => exact comparable_of_single single inner
      | true =>
          cases type with
          | union members =>
              exact comparable_of_union distinct.own inner fun member => distinct.child
          | _ => cases single

theorem beq_symm {type other : Ty} (distinct : type.IsDistinct) (otherDistinct : other.IsDistinct)
    (equal : (type == other) = true) : (other == type) = true :=
  (comparable distinct).symm other otherDistinct equal

theorem beq_trans {type middle other : Ty} (distinct : type.IsDistinct)
    (middleDistinct : middle.IsDistinct) (otherDistinct : other.IsDistinct)
    (first : (type == middle) = true) (second : (middle == other) = true) :
    (type == other) = true :=
  (comparable distinct).trans middle other middleDistinct otherDistinct first second

/-- It does not matter from which side the members of two unions are compared. -/
theorem beq_union_iff {members others : List Ty} (distinct : (Ty.union members).IsDistinct)
    (otherDistinct : (Ty.union others).IsDistinct) :
    (Ty.union members == Ty.union others) = true ↔
      members.length = others.length ∧
        ∀ member ∈ members, ∃ other ∈ others, (other == member) = true := by
  constructor
  · intro equal
    obtain ⟨_, same, count, each⟩ := same_union_iff.mp equal
    obtain rfl := Ty.union.inj same
    refine ⟨count, fun member listed => ?_⟩
    obtain ⟨other, held, near⟩ := each member listed
    exact ⟨other, held, beq_symm (distinct.child listed) (otherDistinct.child held) near⟩
  · rintro ⟨count, each⟩
    refine same_union_iff.mpr ⟨others, rfl, count, fun member listed => ?_⟩
    obtain ⟨other, held, near⟩ := each member listed
    exact ⟨other, held, beq_symm (otherDistinct.child held) (distinct.child listed) near⟩

/-! ### Unions that were joined -/

theorem hasDistinctMembers_of_isProper {type : Ty} (proper : type.IsProper) :
    type.HasDistinctMembers := by
  cases type with
  | union members => exact proper.distinct
  | _ => trivial

theorem isDistinct_of_isNormal {type : Ty} (normal : type.IsNormal) : type.IsDistinct :=
  normal.mono fun _ regular => hasDistinctMembers_of_isProper (isProper_of_isRegular regular)

/-- A union is what `join` makes of some types. -/
def IsJoined : Ty → Prop
  | .union members => ∃ types, join types = .union members
  | _ => True

/-- The unions that `join` makes are those in normal form: their members are pairwise unequal, and
none of them is a union. -/
theorem isJoined_iff {type : Ty} : type.IsJoined ↔ type.IsProper := by
  cases type with
  | union members =>
      constructor
      · rintro ⟨types, made⟩
        have proper := join_isProper types
        rw [made] at proper
        exact proper
      · exact fun proper => ⟨[.union members], join_self proper⟩
  | _ => exact Iff.rfl

/-- Equality is an equivalence relation on the types in which every union was made by `join`. -/
theorem equality_is_an_equivalence :
    Equivalence fun first second : { type : Ty // type.All IsJoined } =>
      (first.val == second.val) = true := by
  have distinct : ∀ type : { type : Ty // type.All IsJoined }, type.val.IsDistinct :=
    fun type => type.property.mono fun _ joined =>
      hasDistinctMembers_of_isProper (isJoined_iff.mp joined)
  constructor
  · exact fun type => same_refl type.val
  · exact fun {first second} => beq_symm (distinct first) (distinct second)
  · exact fun {first second third} => beq_trans (distinct first) (distinct second) (distinct third)

end Ty

end HeuristicTyping
