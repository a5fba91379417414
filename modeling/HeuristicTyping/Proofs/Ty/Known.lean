import HeuristicTyping.Proofs.TypeIndex.Ancestry
import HeuristicTyping.Proofs.Ty.NormalForm

/-!
# Types that stay known

Building a type anew does not lose what is known of it, as long as nothing unknown is put in: a
union in normal form has a member that is known, and every other type keeps its head. So putting a
known receiver in place keeps a type known, and so does dropping members of unions, if ancestors
are transitive: every member that is dropped is then covered by one that is left.
-/

set_option autoImplicit false

namespace HeuristicTyping

namespace Ty

@[simp] theorem tupleOf_isUnknown (elements : List Ty) : (tupleOf elements).isUnknown = false := by
  unfold tupleOf
  split <;> rfl

@[simp] theorem shapeOf_isUnknown (entries : List (String × Ty)) :
    (shapeOf entries).isUnknown = false := by
  unfold shapeOf
  dsimp only
  split <;> rfl

theorem join_of_unknown {types : List Ty} (unknown : ∀ type ∈ types, type.isUnknown = true) :
    join types = .unknown := by
  rw [← join_known]
  have none : types.filter (fun type => !type.isUnknown) = [] := by
    rw [List.filter_eq_nil_iff]
    intro type listed
    simp [unknown type listed]
  rw [none]
  rfl

/-- A union of types in normal form is known as soon as one of them is. -/
theorem join_isUnknown_iff {types : List Ty} (proper : ∀ type ∈ types, type.IsProper) :
    (join types).isUnknown = true ↔ ∀ type ∈ types, type.isUnknown = true := by
  constructor
  · intro unknown type listed
    cases known : type.isUnknown with
    | true => rfl
    | false =>
        rw [join_isUnknown listed (proper type listed) known] at unknown
        cases unknown
  · intro unknown
    rw [join_of_unknown unknown]
    rfl

theorem rebuilt_of_single_isUnknown {change : Ty → Ty} {type : Ty} (single : type.isUnion = false)
    (known : type.isUnknown = false) : (rebuilt change type).isUnknown = false := by
  cases type with
  | union members => cases single
  | unknown => cases known
  | tuple elements => exact tupleOf_isUnknown _
  | shape fields => exact shapeOf_isUnknown _
  | _ => rfl

theorem rebuilt_isUnknown {change : Ty → Ty} {type : Ty} (proper : type.IsProper)
    (known : type.isUnknown = false)
    (inner : ∀ child ∈ type.children, child.isUnknown = false →
      (change child).IsProper ∧ (change child).isUnknown = false) :
    (rebuilt change type).isUnknown = false := by
  cases type with
  | union members =>
      have own : ProperMembers members := proper
      obtain ⟨member, listed⟩ := List.exists_mem_of_ne_nil _ own.ne_nil
      obtain ⟨changed, told⟩ := inner member listed (own.simple member listed).2
      exact join_isUnknown (List.mem_map_of_mem listed) changed told
  | _ => exact rebuilt_of_single_isUnknown rfl known

/-- Replacing placeholders by known types keeps a known type known. -/
theorem replaced_isUnknown {assign : Placeholder → Option Ty}
    (assigned : ∀ placeholder type, assign placeholder = some type →
      type.All IsProper ∧ type.isUnknown = false)
    {type : Ty} (all : type.All IsProper) (known : type.isUnknown = false) :
    (replaced assign type).isUnknown = false := by
  induction type using Ty.induct with
  | step type ih =>
      cases plain : type.isPlaceholder with
      | true =>
          obtain ⟨placeholder, rfl, answered⟩ := exists_placeholder plain
          rw [replaced, answered assign]
          cases given : assign placeholder with
          | none => exact known
          | some other => exact (assigned placeholder other given).2
      | false =>
          rcases replace_cases assign plain with ⟨kept, _⟩ | changed
          · rw [replaced, kept]
            exact known
          · rw [replaced, changed]
            refine rebuilt_isUnknown all.own known ?_
            intro child held told
            have inside := all.child held
            have proper := all_replaced robust_isProper
              (fun placeholder type given => (assigned placeholder type given).1)
              (inside.mono fun _ => Or.inl)
            exact ⟨proper.own, ih child held inside told⟩

/-- A known type with a known receiver in place is known. -/
theorem substitute_self_isUnknown {type receiver : Ty} (all : type.All IsProper)
    (known : type.isUnknown = false) (received : receiver.All IsProper)
    (told : receiver.isUnknown = false) :
    (type.substitute (Binding.bindSelf {} receiver)).isUnknown = false := by
  refine replaced_isUnknown ?_ all known
  intro placeholder bound given
  cases placeholder with
  | var name => cases given
  | self =>
      obtain rfl := Option.some.inj given
      exact ⟨received, told⟩

end Ty

/-! ### Simplification -/

namespace Simplifier

/-- The simplifier keeps unions in normal form, and what is known stays known. -/
structure KeepsKnown (simplifier : Simplifier) : Prop where
  proper : ∀ type : Ty, type.All Ty.IsProper → (simplifier.simplify type).All Ty.IsProper
  known : ∀ type : Ty, type.All Ty.IsProper →
    (simplifier.simplify type).isUnknown = type.isUnknown

theorem keepsKnown_none : none.KeepsKnown where
  proper _ all := all
  known _ _ := rfl

/-- The second name covers the first: it is an ancestor, and not the other way round. -/
def Covers (ancestors : String → List String) (name other : String) : Prop :=
  other ≠ name ∧ other ∈ ancestors name ∧ name ∉ ancestors other

instance (ancestors : String → List String) (name other : String) :
    Decidable (Covers ancestors name other) :=
  inferInstanceAs (Decidable (other ≠ name ∧ other ∈ ancestors name ∧ name ∉ ancestors other))

theorem isRedundant_iff {ancestors : String → List String} {types : List Ty} {type : Ty} :
    isRedundant ancestors types type = true ↔
      ∃ name other, type = .instanceOf name ∧ .instanceOf other ∈ types ∧
        Covers ancestors name other := by
  have covered (name : String) (cover : Ty) : isCoveredBy ancestors name cover = true ↔
      ∃ other, cover = .instanceOf other ∧ Covers ancestors name other := by
    cases cover <;> simp [isCoveredBy, Covers, and_assoc]
  cases type with
  | instanceOf name =>
      simp only [isRedundant, List.any_eq_true, covered]
      constructor
      · rintro ⟨_, listed, other, rfl, covers⟩
        exact ⟨name, other, rfl, listed, covers⟩
      · rintro ⟨_, other, same, listed, covers⟩
        obtain rfl := Ty.instanceOf.inj same
        exact ⟨_, listed, other, rfl, covers⟩
  | _ => simp [isRedundant]

section Ancestors

variable {ancestors : String → List String} (transitive : Ancestry.IsTransitive ancestors)
include transitive

theorem Covers.trans {name other third : String} (first : Covers ancestors name other)
    (second : Covers ancestors other third) : Covers ancestors name third := by
  have apart : third ≠ name := by
    rintro rfl
    exact second.2.2 first.2.1
  refine ⟨apart, transitive name other third first.2.1 second.2.1 apart, ?_⟩
  intro back
  exact first.2.2 (transitive other third name second.2.1 back (Ne.symm first.1))

/-- Among finitely many names, one that is covered is covered by one that is not: to be covered is
to be below in a strict order, even where names are ancestors of each other. -/
theorem exists_uncovered_above {among : Set String} (finite : among.Finite) {name : String}
    (listed : name ∈ among) :
    ∃ top ∈ among, (top = name ∨ Covers ancestors name top) ∧
      ∀ other ∈ among, ¬ Covers ancestors top other := by
  have chained : IsTrans String (Covers ancestors) := ⟨fun _ _ _ => Covers.trans transitive⟩
  have acyclic : ∀ name, ¬ Relation.TransGen (Covers ancestors) name name := by
    intro name loop
    rw [Relation.transGen_eq_self] at loop
    exact loop.1 rfl
  obtain ⟨top, held, path, free⟩ := Ancestry.exists_top acyclic finite listed
  rw [Relation.reflTransGen_iff_eq_or_transGen, Relation.transGen_eq_self] at path
  exact ⟨top, held, path, free⟩

/-- An instance that is redundant is covered by one that is left. -/
theorem exists_left_above {types : List Ty} {name : String} (listed : .instanceOf name ∈ types) :
    ∃ top, .instanceOf top ∈ prune ancestors types ∧
      (top = name ∨ Covers ancestors name top) := by
  have finite : {other | Ty.instanceOf other ∈ types}.Finite :=
    types.finite_toSet.preimage fun _ _ _ _ same => Ty.instanceOf.inj same
  obtain ⟨top, held, above, free⟩ := exists_uncovered_above transitive finite listed
  refine ⟨top, List.mem_filter.mpr ⟨held, ?_⟩, above⟩
  rw [Bool.not_eq_true', ← Bool.not_eq_true, isRedundant_iff]
  rintro ⟨own, other, same, among, covers⟩
  obtain rfl := Ty.instanceOf.inj same
  exact free other among covers

theorem prune_ne_nil {types : List Ty} (some : types ≠ []) : prune ancestors types ≠ [] := by
  obtain ⟨type, listed⟩ := List.exists_mem_of_ne_nil types some
  cases redundant : isRedundant ancestors types type with
  | false => exact List.ne_nil_of_mem (List.mem_filter.mpr ⟨listed, by simp [redundant]⟩)
  | true =>
      obtain ⟨name, _, rfl, _⟩ := isRedundant_iff.mp redundant
      obtain ⟨top, left, _⟩ := exists_left_above transitive listed
      exact List.ne_nil_of_mem left

theorem collapse_isUnknown {type : Ty} (all : type.All Ty.IsProper)
    (known : type.isUnknown = false) : (collapse ancestors type).isUnknown = false := by
  induction type using Ty.induct with
  | step type ih =>
      have inner : ∀ child ∈ type.children, child.isUnknown = false →
          (collapse ancestors child).IsProper ∧ (collapse ancestors child).isUnknown = false := by
        intro child held told
        have inside := all.child held
        exact ⟨(Ty.all_collapse Ty.robust_isProper ancestors inside).own,
          ih child held inside told⟩
      cases single : type.isUnion with
      | false =>
          rw [Ty.collapse_eq ancestors single]
          exact Ty.rebuilt_isUnknown all.own known inner
      | true =>
          cases type with
          | union members =>
              have proper : Ty.ProperMembers members := all.own
              have filled : members.map (collapse ancestors) ≠ [] := by simpa using proper.ne_nil
              obtain ⟨left, kept⟩ := List.exists_mem_of_ne_nil _ (prune_ne_nil transitive filled)
              obtain ⟨member, listed, rfl⟩ := List.mem_map.mp (List.mem_filter.mp kept).1
              have told := inner member listed (proper.simple member listed).2
              rw [collapse, Ty.collapseAll_eq]
              exact Ty.join_isUnknown kept told.1 told.2
          | _ => cases single

end Ancestors

theorem keepsKnown_ancestral {index : TypeIndex}
    (transitive : ∀ {name other third}, other ∈ index.ancestors name →
      third ∈ index.ancestors other → third ∈ index.ancestors name) :
    (ancestral index).KeepsKnown where
  proper _ all := Ty.all_collapse Ty.robust_isProper index.ancestors all
  known type all := by
    cases unknown : type.isUnknown with
    | true =>
        obtain rfl := Ty.eq_unknown unknown
        rfl
    | false =>
        exact collapse_isUnknown (fun _ _ _ first second _ => transitive first second) all unknown

end Simplifier

end HeuristicTyping
