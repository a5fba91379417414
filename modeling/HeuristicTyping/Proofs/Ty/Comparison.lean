import HeuristicTyping.Proofs.Ty.Parts
import Mathlib.Data.List.Forall2

/-!
# One level of a comparison

Types are compared level by level. Apart from unions, two types are equal if they look alike from
outside and hold equal types in the same places: `Ty.same_iff`. Two unions are equal if they have
equally many members and each member of the first equals one of the second: `Ty.same_union_iff`.
-/

set_option autoImplicit false

namespace HeuristicTyping

namespace Ty

def isUnion : Ty → Bool
  | .union _ => true
  | _ => false

/-- What a type looks like from outside: nothing is told of the types that it holds. -/
def shell : Ty → Ty
  | .union _ => .union []
  | .array _ => .array .unknown
  | .range _ => .range .unknown
  | .tuple _ => .tuple []
  | .hash _ _ => .hash .unknown .unknown
  | .shape fields => .shape (fields.map fun field => (field.1, .unknown))
  | .method params _ =>
      .method (params.map fun param => { param with type := .unknown }) .unknown
  | type => type

/-- Both lists hold equal types in the same places. -/
abbrev SameEach (types others : List Ty) : Prop :=
  List.Forall₂ (fun type other => type.same other = true) types others

theorem sameElements_iff (types others : List Ty) :
    sameElements types others = true ↔ SameEach types others := by
  induction types generalizing others with
  | nil => cases others <;> simp [sameElements, SameEach]
  | cons type types ih => cases others <;> simp [sameElements, SameEach, ih]

theorem sameFields_iff (fields others : List (String × Ty)) :
    sameFields fields others = true ↔
      fields.map (fun field => (field.1, Ty.unknown)) =
          others.map (fun field => (field.1, Ty.unknown)) ∧
        SameEach (fields.map Prod.snd) (others.map Prod.snd) := by
  induction fields generalizing others with
  | nil => cases others <;> simp [sameFields, SameEach]
  | cons field fields ih =>
      cases others with
      | nil => simp [sameFields]
      | cons other others =>
          simp only [sameFields, Bool.and_eq_true, beq_iff_eq, ih, SameEach, List.map_cons,
            List.cons.injEq, Prod.mk.injEq, and_true, List.forall₂_cons]
          tauto

theorem sameParams_iff (params others : List (ParamOf Ty)) :
    sameParams params others = true ↔
      params.map (fun param => { param with type := Ty.unknown }) =
          others.map (fun param => { param with type := Ty.unknown }) ∧
        SameEach (params.map ParamOf.type) (others.map ParamOf.type) := by
  induction params generalizing others with
  | nil => cases others <;> simp [sameParams, SameEach]
  | cons param params ih =>
      cases others with
      | nil => simp [sameParams]
      | cons other others =>
          simp only [sameParams, Bool.and_eq_true, beq_iff_eq, ih, SameEach, List.map_cons,
            List.cons.injEq, ParamOf.mk.injEq, and_true, List.forall₂_cons]
          tauto

theorem sameEach_concat {types others : List Ty} {type other : Ty} :
    SameEach (types ++ [type]) (others ++ [other]) ↔
      SameEach types others ∧ type.same other = true := by
  rw [SameEach, ← List.forall₂_reverse_iff]
  simp [and_comm]

/-- Apart from unions, types are equal if they look alike and hold equal types. -/
theorem same_iff {type other : Ty} (single : type.isUnion = false) :
    type.same other = true ↔
      type.shell = other.shell ∧ SameEach type.children other.children := by
  cases type with
  | union members => cases single
  | shape fields => cases other <;> simp [same, shell, children, sameFields_iff]
  | tuple elements => cases other <;> simp [same, shell, children, sameElements_iff]
  | method params result =>
      cases other with
      | method otherParams otherResult =>
          simp only [same, Bool.and_eq_true, sameParams_iff, shell, children, Ty.method.injEq,
            and_true, sameEach_concat, and_assoc]
      | _ => simp [same, shell]
  | _ => cases other <;> simp [same, shell, children, SameEach]

theorem sameMembers_iff (members others : List Ty) :
    sameMembers members others = true ↔
      ∀ member ∈ members, ∃ other ∈ others, member.same other = true := by
  induction members with
  | nil => simp [sameMembers]
  | cons member members ih => simp [sameMembers, ih]

theorem same_union_iff {members : List Ty} {other : Ty} :
    (Ty.union members).same other = true ↔
      ∃ others, other = .union others ∧ members.length = others.length ∧
        ∀ member ∈ members, ∃ other ∈ others, member.same other = true := by
  cases other <;> simp [same, sameMembers_iff]

theorem isUnion_of_shell {type other : Ty} (alike : type.shell = other.shell) :
    other.isUnion = type.isUnion := by
  cases type <;> cases other <;> simp [shell, isUnion] at alike ⊢

theorem same_refl (type : Ty) : type.same type = true := by
  induction type using Ty.induct with
  | step type ih =>
      cases single : type.isUnion with
      | false => exact (same_iff single).mpr ⟨rfl, List.forall₂_same.mpr ih⟩
      | true =>
          cases type with
          | union members =>
              exact same_union_iff.mpr
                ⟨members, rfl, rfl, fun member listed => ⟨member, listed, ih member listed⟩⟩
          | _ => cases single

end Ty

end HeuristicTyping
