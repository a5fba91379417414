import HeuristicTyping.Proofs.Ty.Stages
import Mathlib.Data.Set.Card

/-!
# Joining in another order

A union does not depend on the order of the joined types as long as it has room for all of their
known alternatives, one for each class of equal ones. With more classes than the cap it always does:
put the type in front that brings an alternative which was cut off, and the alternative stays, for a
normal type alone never has more alternatives than a union can hold.
-/

set_option autoImplicit false

namespace HeuristicTyping

namespace Ty

/-! ### Classes of equal types -/

/-- The types in the list that equal the given one. -/
def equalsAmong (types : List Ty) (type : Ty) : Set Ty :=
  {other | other ∈ types ∧ (type == other) = true}

/-- The classes of equal types into which the types in the list fall. -/
def classes (types : List Ty) : Set (Set Ty) :=
  equalsAmong types '' {type | type ∈ types}

theorem classes_congr {types others : List Ty} (same : ∀ type, type ∈ types ↔ type ∈ others) :
    classes types = classes others := by
  have each : equalsAmong types = equalsAmong others := by
    funext type
    simp only [equalsAmong, same]
  simp only [classes, each, same]

theorem exists_beq_distinct {types : List Ty} {type : Ty} (listed : type ∈ types) :
    ∃ kept ∈ distinct types, (kept == type) = true :=
  exists_beq_foldl_addNew listed

theorem distinct_nodup (types : List Ty) : (distinct types).Nodup := by
  apply (distinct_pairwise types).imp
  intro type other differ same
  subst same
  rw [show (type == type) = true from same_refl type] at differ
  cases differ

section Classes

variable {types : List Ty} (typesDistinct : ∀ type ∈ types, type.IsDistinct)
include typesDistinct

theorem equalsAmong_congr {type other : Ty} (listed : type ∈ types) (otherListed : other ∈ types)
    (equal : (type == other) = true) : equalsAmong types type = equalsAmong types other := by
  have own := typesDistinct type listed
  have otherOwn := typesDistinct other otherListed
  have back := beq_symm own otherOwn equal
  ext third
  constructor
  · intro held
    exact ⟨held.1, beq_trans otherOwn own (typesDistinct third held.1) back held.2⟩
  · intro held
    exact ⟨held.1, beq_trans own otherOwn (typesDistinct third held.1) equal held.2⟩

theorem classes_eq_image : classes types = equalsAmong types '' {type | type ∈ distinct types} := by
  have among : ∀ type ∈ distinct types, type ∈ types :=
    fun type listed => (distinct_sublist types).subset listed
  apply Set.Subset.antisymm
  · rintro _ ⟨type, listed, rfl⟩
    obtain ⟨kept, held, equal⟩ := exists_beq_distinct listed
    exact ⟨kept, held, equalsAmong_congr typesDistinct (among kept held) listed equal⟩
  · exact Set.image_mono among

theorem eq_of_beq_distinct : ∀ type ∈ distinct types, ∀ other ∈ distinct types,
    (type == other) = true → type = other := by
  have among : ∀ type ∈ distinct types, type.IsDistinct :=
    fun type listed => typesDistinct type ((distinct_sublist types).subset listed)
  -- A type was compared only with those before it; the other way round takes symmetry.
  apply List.Pairwise.forall_of_forall_of_flip
  · exact fun _ _ _ => rfl
  · apply (distinct_pairwise types).imp
    intro type other differ equal
    rw [differ] at equal
    cases equal
  · apply (distinct_pairwise types).imp_of_mem
    intro type other listed otherListed differ equal
    rw [beq_symm (among other otherListed) (among type listed) equal] at differ
    cases differ

theorem equalsAmong_injOn : Set.InjOn (equalsAmong types) {type | type ∈ distinct types} := by
  intro type listed other otherListed same
  have inside : other ∈ equalsAmong types type := by
    rw [same]
    exact ⟨(distinct_sublist types).subset otherListed, same_refl other⟩
  exact eq_of_beq_distinct typesDistinct type listed other otherListed inside.2

/-- Dropping repetitions leaves one type of each class. -/
theorem encard_classes : (classes types).encard = (distinct types).length := by
  classical
  rw [classes_eq_image typesDistinct, (equalsAmong_injOn typesDistinct).encard_image,
    ← List.coe_toFinset, Set.encard_coe_eq_coe_finsetCard,
    List.toFinset_card_of_nodup (distinct_nodup types)]

end Classes

/-! ### Alternatives in another order -/

theorem beq_ofAlternatives {kept others : List Ty} (count : kept.length = others.length)
    (each : ∀ type ∈ kept, ∃ other ∈ others, (type == other) = true) :
    (ofAlternatives kept == ofAlternatives others) = true := by
  match kept, others, count, each with
  | [], [], _, _ => exact same_refl .unknown
  | [only], [other], _, each => simpa [ofAlternatives] using each
  | first :: second :: rest, _ :: _ :: _, count, each =>
      exact same_union_iff.mpr ⟨_, rfl, count, each⟩

theorem ofAlternatives_of_several {kept : List Ty} (several : 2 ≤ kept.length) :
    ofAlternatives kept = .union kept := by
  match kept, several with
  | first :: second :: rest, _ => rfl

theorem mem_knownAlternatives_iff {types : List Ty} {alternative : Ty} :
    alternative ∈ knownAlternatives types ↔
      ∃ type ∈ types, alternative ∈ knownAlternatives [type] := by
  simp only [knownAlternatives, flattenAll_eq, List.mem_filter, List.mem_flatMap,
    List.mem_singleton, exists_eq_left]
  constructor
  · rintro ⟨⟨type, listed, inside⟩, known⟩
    exact ⟨type, listed, inside, known⟩
  · rintro ⟨type, listed, inside, known⟩
    exact ⟨⟨type, listed, inside⟩, known⟩

theorem knownAlternatives_perm {types others : List Ty} (reordered : types.Perm others)
    (alternative : Ty) :
    alternative ∈ knownAlternatives types ↔ alternative ∈ knownAlternatives others := by
  rw [mem_knownAlternatives_iff, mem_knownAlternatives_iff]
  simp only [reordered.mem_iff]

theorem knownAlternatives_length_le {type : Ty} (proper : type.IsProper) :
    (knownAlternatives [type]).length ≤ unionCap := by
  cases single : type.isUnion with
  | false =>
      have alone : (knownAlternatives [type]).length ≤ 1 := by
        rw [knownAlternatives, flattenAll, flatten_of_simple single]
        exact List.length_filter_le _ _
      exact alone.trans (by decide)
  | true =>
      cases type with
      | union members =>
          rw [knownAlternatives_of_proper proper]
          exact proper.bounded
      | _ => cases single

/-- A union keeps all alternatives of the first type. -/
theorem kept_of_first {type alternative : Ty} (proper : type.IsProper)
    (among : alternative ∈ knownAlternatives [type]) (rest : List Ty) :
    alternative ∈ (distinct (knownAlternatives (type :: rest))).take unionCap := by
  have extended : knownAlternatives [type] <+: distinct (knownAlternatives (type :: rest)) := by
    rw [knownAlternatives_cons type rest, distinct, List.foldl_append, ← distinct,
      distinct_knownAlternatives proper]
    exact prefix_foldl_addNew _ _
  exact (List.prefix_take_iff.mpr ⟨extended, knownAlternatives_length_le proper⟩).subset among

theorem join_of_many {types : List Ty}
    (many : unionCap < (distinct (knownAlternatives types)).length) :
    join types = .union ((distinct (knownAlternatives types)).take unionCap) := by
  rw [join_eq, ofAlternatives_of_several]
  rw [List.length_take_of_le (by omega)]
  decide

section Reordering

variable {types others : List Ty} (normal : ∀ type ∈ types, type.IsNormal)
include normal

theorem known_isDistinct : ∀ type ∈ knownAlternatives types, type.IsDistinct :=
  isDistinct_of_known fun type listed => isDistinct_of_isNormal (normal type listed)

theorem encard_classes_known :
    (classes (knownAlternatives types)).encard = (distinct (knownAlternatives types)).length :=
  encard_classes (known_isDistinct normal)

theorem length_distinct_of_perm (reordered : types.Perm others) :
    (distinct (knownAlternatives types)).length = (distinct (knownAlternatives others)).length := by
  have otherNormal : ∀ type ∈ others, type.IsNormal :=
    fun type listed => normal type (reordered.mem_iff.mpr listed)
  have counted := encard_classes_known normal
  rw [classes_congr (knownAlternatives_perm reordered), encard_classes_known otherNormal] at counted
  exact (Nat.cast_injective counted).symm

theorem join_beq_of_perm (few : (distinct (knownAlternatives types)).length ≤ unionCap)
    (reordered : types.Perm others) : (join types == join others) = true := by
  have count := length_distinct_of_perm normal reordered
  have otherFew : (distinct (knownAlternatives others)).length ≤ unionCap := by omega
  rw [join_eq, join_eq, List.take_of_length_le few, List.take_of_length_le otherFew]
  apply beq_ofAlternatives count
  intro type kept
  have known : type ∈ knownAlternatives types := (distinct_sublist _).subset kept
  have otherKnown := (knownAlternatives_perm reordered type).mp known
  obtain ⟨other, held, equal⟩ := exists_beq_distinct otherKnown
  have listed := (knownAlternatives_perm reordered other).mpr ((distinct_sublist _).subset held)
  exact ⟨other, held,
    beq_symm (known_isDistinct normal other listed) (known_isDistinct normal type known) equal⟩

/-- Two full unions differ if one keeps what was cut off from the other. -/
theorem join_differs_of_cut (otherNormal : ∀ type ∈ others, type.IsNormal)
    (many : unionCap < (distinct (knownAlternatives types)).length)
    (otherMany : unionCap < (distinct (knownAlternatives others)).length) {missing : Ty}
    (cut : missing ∈ (distinct (knownAlternatives types)).drop unionCap)
    (kept : missing ∈ (distinct (knownAlternatives others)).take unionCap) :
    ¬ (join types == join others) = true := by
  intro equal
  have own := isDistinct_of_isNormal (all_join robust_isRegular normal)
  have other := isDistinct_of_isNormal (all_join robust_isRegular otherNormal)
  have back := beq_symm own other equal
  rw [join_of_many many] at own back
  rw [join_of_many otherMany] at other back
  obtain ⟨twin, taken, near⟩ := ((beq_union_iff other own).mp back).2 missing kept
  have apart := distinct_pairwise (knownAlternatives types)
  rw [← List.take_append_drop unionCap (distinct (knownAlternatives types))] at apart
  rw [(List.pairwise_append.mp apart).2.2 twin taken missing cut] at near
  cases near

/-- If alternatives are cut off, then some other order keeps one of them. -/
theorem exists_perm_of_many (many : unionCap < (distinct (knownAlternatives types)).length) :
    ∃ others, types.Perm others ∧ ¬ (join types == join others) = true := by
  have some : (distinct (knownAlternatives types)).drop unionCap ≠ [] := by
    rw [Ne, List.drop_eq_nil_iff]
    omega
  obtain ⟨missing, cut⟩ := List.exists_mem_of_ne_nil _ some
  have known : missing ∈ knownAlternatives types :=
    (distinct_sublist _).subset (List.mem_of_mem_drop cut)
  -- The type that brings the missing alternative goes to the front.
  obtain ⟨source, listed, inside⟩ := mem_knownAlternatives_iff.mp known
  obtain ⟨before, behind, split⟩ := List.append_of_mem listed
  have reordered : types.Perm (source :: (before ++ behind)) := by
    rw [split]
    exact List.perm_middle
  have otherNormal : ∀ type ∈ source :: (before ++ behind), type.IsNormal :=
    fun type held => normal type (reordered.mem_iff.mpr held)
  have otherMany := length_distinct_of_perm normal reordered ▸ many
  have kept := kept_of_first (isProper_of_isRegular (normal source listed).own) inside
    (before ++ behind)
  exact ⟨_, reordered, join_differs_of_cut normal otherNormal many otherMany cut kept⟩

end Reordering

/-- The order in which normal types are joined does not matter if and only if their known
alternatives fall into no more classes of equal types than the ten that a union keeps. -/
theorem join_ignores_order_iff_classes_fit {types : List Ty}
    (normal : ∀ type ∈ types, type.IsNormal) :
    (∀ others, types.Perm others → (join types == join others) = true) ↔
      (classes (knownAlternatives types)).encard ≤ unionCap := by
  rw [encard_classes_known normal, Nat.cast_le]
  constructor
  · intro ignores
    by_contra more
    obtain ⟨others, reordered, differ⟩ := exists_perm_of_many normal (by omega)
    exact differ (ignores others reordered)
  · exact fun few others => join_beq_of_perm normal few

/-- Six alternatives of three classes: one is unknown, one comes twice, and two arrays differ only
in the order of their alternatives. -/
def fewKinds : List Ty :=
  [.array (.union [.integer, .float]), .unknown, .union [.string, .nil],
    .array (.union [.float, .integer]), .nil]

theorem crowd_depends_on_order_and_fewKinds_do_not :
    (∀ type ∈ fewKinds, type.IsNormal) ∧ (∀ type ∈ crowd.flatten, type.IsNormal) ∧
      (∀ others, fewKinds.Perm others → (join fewKinds == join others) = true) ∧
      ¬ ∀ others, crowd.flatten.Perm others → (join crowd.flatten == join others) = true := by
  have fewNormal : ∀ type ∈ fewKinds, type.IsNormal := by decide
  have crowdNormal : ∀ type ∈ crowd.flatten, type.IsNormal := by decide
  have three : (distinct (knownAlternatives fewKinds)).length = 3 := rfl
  have fourteen : (distinct (knownAlternatives crowd.flatten)).length = 14 := rfl
  have few : (classes (knownAlternatives fewKinds)).encard ≤ unionCap := by
    rw [encard_classes_known fewNormal, three]
    decide
  have many : ¬ (classes (knownAlternatives crowd.flatten)).encard ≤ unionCap := by
    rw [encard_classes_known crowdNormal, fourteen]
    decide
  exact ⟨fewNormal, crowdNormal, (join_ignores_order_iff_classes_fit fewNormal).mpr few,
    fun ignores => many ((join_ignores_order_iff_classes_fit crowdNormal).mp ignores)⟩

end Ty

end HeuristicTyping
