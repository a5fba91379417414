import HeuristicTyping.Proofs.Ty.Known
import HeuristicTyping.Proofs.Ty.Rebuilding

/-!
# What simplification settles

A type is settled if it is built as the constructors build it and no union inside it has a member
that is redundant beside another one. Settled types are left alone by simplification, and
simplifying a normal type gives a settled one, whatever the ancestors are. The members of a union
are judged all at once, before any is dropped, so those that are left were not redundant among even
more members. That the ancestors may form loops does not matter here: then more members may go, and
in the end all of them, but never in a second pass.
-/

set_option autoImplicit false

namespace HeuristicTyping

namespace Ty

/-! ### Levels that are no unions -/

theorem rebuilt_isUnion {change : Ty → Ty} {type : Ty} (single : type.isUnion = false) :
    (rebuilt change type).isUnion = false := by
  cases type with
  | union members => cases single
  | tuple elements =>
      simp only [rebuilt, tupleOf]
      split <;> rfl
  | shape fields =>
      simp only [rebuilt, shapeOf]
      split <;> rfl
  | _ => rfl

theorem rebuilt_keysAscend (change : Ty → Ty) {type : Ty} (single : type.isUnion = false)
    (regular : type.IsRegular) : (rebuilt change type).KeysAscend := by
  cases type with
  | union members => cases single
  | tuple elements =>
      rw [rebuilt_tuple change regular]
      trivial
  | shape fields =>
      rw [rebuilt_shape change regular]
      exact sortFields_ascends _
  | _ => trivial

/-- What a level holds after it was built anew comes from what it held. -/
theorem mem_children_rebuilt {change : Ty → Ty} {type child : Ty} (single : type.isUnion = false)
    (regular : type.IsRegular) (held : child ∈ (rebuilt change type).children) :
    ∃ origin ∈ type.children, change origin = child := by
  cases type with
  | union members => cases single
  | tuple elements =>
      rw [rebuilt_tuple change regular] at held
      exact List.mem_map.mp held
  | shape fields =>
      rw [rebuilt_shape change regular] at held
      obtain ⟨field, listed, rfl⟩ := List.mem_map.mp held
      obtain ⟨origin, among, rfl⟩ := List.mem_map.mp (mem_sortFields listed)
      exact ⟨origin.2, List.mem_map_of_mem among, rfl⟩
  | array element | range element => exact List.mem_map.mp held
  | hash key value => exact List.mem_map.mp held
  | method params result =>
      apply List.mem_map.mp
      simpa [rebuilt, children, Function.comp_def] using held
  | _ => cases held

end Ty

namespace Simplifier

/-- No member of a union is redundant beside the others. -/
def IsPruned (ancestors : String → List String) : Ty → Prop
  | .union members => ∀ member ∈ members, isRedundant ancestors members member = false
  | _ => True

/-- Nothing is left to do at this level: it is as its constructor builds it, and pruned. -/
structure IsSettled (ancestors : String → List String) (type : Ty) : Prop where
  regular : type.IsRegular
  ascending : type.KeysAscend
  pruned : IsPruned ancestors type

section Settled

variable {ancestors : String → List String}

theorem isRedundant_mono {kept types : List Ty} (inside : kept ⊆ types) {type : Ty}
    (redundant : isRedundant ancestors kept type = true) :
    isRedundant ancestors types type = true := by
  obtain ⟨name, other, same, listed, covers⟩ := isRedundant_iff.mp redundant
  exact isRedundant_iff.mpr ⟨name, other, same, inside listed, covers⟩

/-- What was left of some types is not redundant among any of them that are left. -/
theorem isRedundant_of_left {kept types : List Ty} (left : kept ⊆ prune ancestors types) :
    ∀ type ∈ kept, isRedundant ancestors kept type = false := by
  intro type listed
  have free := (List.mem_filter.mp (left listed)).2
  cases redundant : isRedundant ancestors kept type with
  | false => rfl
  | true =>
      have inside : kept ⊆ types := fun other held => (List.mem_filter.mp (left held)).1
      rw [isRedundant_mono inside redundant] at free
      cases free

theorem isPruned_of_single {type : Ty} (single : type.isUnion = false) :
    IsPruned ancestors type := by
  cases type with
  | union members => cases single
  | _ => trivial

theorem collapse_simple {type : Ty} (simple : type.isUnion = false ∧ type.isUnknown = false) :
    (collapse ancestors type).isUnion = false ∧ (collapse ancestors type).isUnknown = false := by
  rw [Ty.collapse_eq ancestors simple.1]
  exact ⟨Ty.rebuilt_isUnion simple.1, Ty.rebuilt_of_single_isUnknown simple.1 simple.2⟩

/-- A settled type is left alone. -/
theorem collapse_of_settled {type : Ty} (settled : type.All (IsSettled ancestors)) :
    collapse ancestors type = type := by
  induction type using Ty.induct with
  | step type ih =>
      have fixed : ∀ child ∈ type.children, collapse ancestors child = child :=
        fun child held => ih child held (settled.child held)
      have own := settled.own
      cases single : type.isUnion with
      | false =>
          rw [Ty.collapse_eq ancestors single]
          exact Ty.rebuilt_of_fixed own.regular own.ascending fixed
      | true =>
          cases type with
          | union members =>
              have same : members.map (collapse ancestors) = members :=
                (List.map_congr_left fixed).trans (List.map_id _)
              have all : prune ancestors members = members := by
                rw [prune, List.filter_eq_self]
                intro member listed
                rw [own.pruned member listed]
                rfl
              rw [collapse, Ty.collapseAll_eq, same, all, Ty.join_of_proper own.regular]
          | _ => cases single

theorem settled_rebuilt {type : Ty} (normal : type.IsNormal) (single : type.isUnion = false)
    (inner : ∀ child ∈ type.children, (collapse ancestors child).All (IsSettled ancestors)) :
    (collapse ancestors type).All (IsSettled ancestors) := by
  have normalized := Ty.all_collapse Ty.robust_isRegular ancestors normal
  rw [Ty.collapse_eq ancestors single] at normalized ⊢
  rw [Ty.all_iff]
  constructor
  · exact ⟨normalized.own, Ty.rebuilt_keysAscend _ single normal.own,
      isPruned_of_single (Ty.rebuilt_isUnion single)⟩
  · intro child held
    obtain ⟨origin, among, rfl⟩ := Ty.mem_children_rebuilt single normal.own held
    exact inner origin among

theorem settled_join {types : List Ty} (settled : ∀ type ∈ types, type.All (IsSettled ancestors))
    (simple : ∀ type ∈ types, type.isUnion = false ∧ type.isUnknown = false) :
    (Ty.join (prune ancestors types)).All (IsSettled ancestors) := by
  have unopened : Ty.knownAlternatives (prune ancestors types) = prune ancestors types :=
    Ty.knownAlternatives_of_simple fun type left => simple type (List.mem_filter.mp left).1
  rw [Ty.join_eq]
  generalize alternatives :
    (Ty.distinct (Ty.knownAlternatives (prune ancestors types))).take Ty.unionCap = kept
  -- Whether the cap cuts anything off does not matter: what is kept was not redundant.
  have left : kept ⊆ prune ancestors types := by
    intro type listed
    rw [← alternatives, unopened] at listed
    exact (Ty.distinct_sublist _).subset (List.mem_of_mem_take listed)
  have each : ∀ type ∈ kept, type.All (IsSettled ancestors) :=
    fun type listed => settled type (List.mem_filter.mp (left listed)).1
  match kept with
  | [] => exact Ty.all_of_childless ⟨trivial, trivial, trivial⟩ rfl
  | [only] => exact each only List.mem_cons_self
  | first :: second :: rest =>
      have proper := Ty.properMembers_of_kept alternatives (by simp)
      exact Ty.all_iff.mpr ⟨⟨proper, trivial, isRedundant_of_left left⟩, each⟩

/-- Simplifying a normal type settles it. -/
theorem collapse_settled {type : Ty} (normal : type.IsNormal) :
    (collapse ancestors type).All (IsSettled ancestors) := by
  induction type using Ty.induct with
  | step type ih =>
      have inner : ∀ child ∈ type.children, (collapse ancestors child).All (IsSettled ancestors) :=
        fun child held => ih child held (normal.child held)
      cases single : type.isUnion with
      | false => exact settled_rebuilt normal single inner
      | true =>
          cases type with
          | union members =>
              have proper : Ty.ProperMembers members := normal.own
              rw [collapse, Ty.collapseAll_eq]
              exact settled_join (List.forall_mem_map.mpr inner)
                (List.forall_mem_map.mpr fun member held =>
                  collapse_simple (proper.simple member held))
          | _ => cases single

theorem collapse_collapse {type : Ty} (normal : type.IsNormal) :
    collapse ancestors (collapse ancestors type) = collapse ancestors type :=
  collapse_of_settled (collapse_settled normal)

end Settled

end Simplifier

end HeuristicTyping
