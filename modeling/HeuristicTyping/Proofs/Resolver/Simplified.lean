import HeuristicTyping.Proofs.Resolver.WellFormed
import HeuristicTyping.Proofs.Ty.Simplification

/-!
# Findings that are simplified

What a rule finds is simplified once before it is remembered or handed on. If redundant members of
unions are what the simplifier drops, then once is enough: the type of every finding is settled, so
simplifying it again changes nothing.
-/

set_option autoImplicit false

namespace HeuristicTyping

namespace Env

variable {env : Env} {index : TypeIndex}

/-- Findings of normal types that simplification leaves alone. -/
def Simplified (index : TypeIndex) (inference : Inference) : Prop :=
  inference.type.IsNormal ∧ (Simplifier.ancestral index).simplify inference.type = inference.type

theorem closed_simplified (supplies : env.Supplies Ty.IsRegular)
    (uses : env.surroundings.simplifier = .ancestral index) : env.Closed (Simplified index) where
  unknown _ _ := ⟨Ty.all_of_childless trivial rfl, rfl⟩
  found inference finds := by
    have normal : inference.type.IsNormal :=
      finds.all Ty.robust_isRegular trivial supplies fun _ answer => answer.1
    have handed : (env.simplified inference).type =
        (Simplifier.ancestral index).simplify inference.type := by
      rw [simplified, uses]
    rw [Simplified, handed]
    exact ⟨Ty.all_collapse Ty.robust_isRegular index.ancestors normal,
      Simplifier.collapse_collapse normal⟩

end Env

/-- Simplifying once is enough. Whatever the ancestors of a type may be, with loops and with types
among their own ancestors, simplifying a normal type again changes nothing, not even the order of
members. So if the stored types of literals and all that the known signatures declare are normal,
then everything that a history of queries leaves in the memo and everything that is inferred after
it has a type that the simplifier leaves alone. -/
theorem Simplifier.ancestral_is_idempotent (index : TypeIndex) :
    (∀ type : Ty, type.IsNormal →
      (ancestral index).simplify ((ancestral index).simplify type) =
        (ancestral index).simplify type) ∧
      ∀ env : Env, env.surroundings.simplifier = .ancestral index → env.Supplies Ty.IsRegular →
        ∀ acts : List Act,
          (∀ id inference, (env.after acts {}).memo.slot id = .done inference →
            (ancestral index).simplify inference.type = inference.type) ∧
          ∀ id, let found := (env.resolve (Inquiry.inferNode id) (env.after acts {})).1
            (ancestral index).simplify found.type = found.type := by
  constructor
  · exact fun type normal => collapse_collapse normal
  · intro env uses supplies acts
    have closed := Env.closed_simplified supplies uses
    have remembers := closed.after acts (Progress.remembers_empty _)
    constructor
    · exact fun id inference held => (remembers id inference held).2
    · exact fun id => (closed.find env.project.settings.maxDepth id remembers).2.2

namespace Env

/-- Ancestors of all sorts: a chain of which the lowest type lists itself, two types that are
ancestors of each other, and three of which each is an ancestor of the next. -/
def tangled : TypeIndex :=
  { TypeIndex.none with
    ancestors := fun name =>
      if name = "Puppy" then ["Puppy", "Dog", "Animal"]
      else if name = "Dog" then ["Animal"]
      else if name = "Hen" then ["Egg"]
      else if name = "Egg" then ["Hen"]
      else if name = "Rock" then ["Paper"]
      else if name = "Paper" then ["Scissors"]
      else if name = "Scissors" then ["Rock"]
      else [] }

/-- Two arrays that are equal once they were simplified, and a tuple whose element loses all of its
alternatives. -/
def tangledUnion : Ty :=
  .union [.instanceOf "Dog", .instanceOf "Animal", .instanceOf "Hen", .instanceOf "Egg",
    .array (.union [.instanceOf "Dog", .instanceOf "Puppy"]), .array (.instanceOf "Dog"),
    .tuple [.union [.instanceOf "Rock", .instanceOf "Paper", .instanceOf "Scissors"]]]

/-- A value of such a type, or else one of a type below one that is left of it. -/
def tangledMerge : Env :=
  { ofKinds [.literal tangledUnion .plain, .literal (.instanceOf "Puppy") .plain, .merge [0, 1]] {}
    with surroundings := {
      index := tangled, signatures := .none, simplifier := .ancestral tangled } }

theorem tangledMerge_supplies : tangledMerge.Supplies Ty.IsRegular where
  stored id type value held := by
    match id, held with
    | 0, held | 1, held =>
        obtain ⟨rfl, -⟩ := NodeKind.literal.inj (Option.some.inj held)
        decide
    | 2, held | _ + 3, held => cases held
  declared typeLevel _ _ _ := by cases typeLevel <;> exact Ty.all_of_childless trivial rfl
  yielded _ _ _ listed := absurd listed List.not_mem_nil

theorem tangledMerge_is_simplified :
    tangledUnion.IsNormal ∧ tangledMerge.Supplies Ty.IsRegular ∧
      (Simplifier.ancestral tangled).simplify tangledUnion =
        .union [.instanceOf "Animal", .instanceOf "Hen", .instanceOf "Egg",
          .array (.instanceOf "Dog"), .tuple [.unknown]] ∧
      (Simplifier.ancestral tangled).simplify
          ((Simplifier.ancestral tangled).simplify tangledUnion) =
        (Simplifier.ancestral tangled).simplify tangledUnion ∧
      (tangledMerge.resolve (Inquiry.inferNode 2) {}).1.type =
        .union [.instanceOf "Animal", .instanceOf "Hen", .instanceOf "Egg",
          .array (.instanceOf "Dog"), .tuple [.unknown]] ∧
      (Simplifier.ancestral tangled).simplify
          (tangledMerge.resolve (Inquiry.inferNode 2) {}).1.type =
        (tangledMerge.resolve (Inquiry.inferNode 2) {}).1.type := by
  have normal : tangledUnion.IsNormal := by decide
  obtain ⟨once, findings⟩ := Simplifier.ancestral_is_idempotent tangled
  exact ⟨normal, tangledMerge_supplies, rfl, once tangledUnion normal, rfl,
    (findings tangledMerge rfl tangledMerge_supplies []).2 2⟩

end Env

end HeuristicTyping
