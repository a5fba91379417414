import HeuristicTyping.Proofs.Ty.Equality

/-!
# Joining in stages

A union has the first occurrences of its known alternatives, up to the cap. It is the same whether
all types are joined at once or first in groups and then the unions of the groups: a group loses
alternatives only when it has more of them than the cap, and then the alternatives that it keeps
are enough to fill the whole union.
-/

set_option autoImplicit false

namespace HeuristicTyping

namespace Ty

/-- The types that equal none of those before them, in order. -/
def firstOccurrences : List Ty → List Ty
  | [] => []
  | type :: later => type :: (firstOccurrences later).filter fun other => !(type == other)

theorem firstOccurrences_sublist (types : List Ty) : (firstOccurrences types).Sublist types := by
  induction types with
  | nil => exact List.Sublist.slnil
  | cons type later ih => exact (List.filter_sublist.trans ih).cons_cons type

/-! ### Adding types one by one -/

section Adding

variable {found types : List Ty}

theorem isDistinct_foldl_addNew (foundDistinct : ∀ type ∈ found, type.IsDistinct)
    (typesDistinct : ∀ type ∈ types, type.IsDistinct) :
    ∀ type ∈ types.foldl addNew found, type.IsDistinct := by
  intro type listed
  rcases List.mem_append.mp ((foldl_addNew_sublist types found).subset listed) with held | added
  · exact foundDistinct type held
  · exact typesDistinct type added

theorem prefix_foldl_addNew (types found : List Ty) : found <+: types.foldl addNew found := by
  induction types generalizing found with
  | nil => exact List.prefix_refl found
  | cons type types ih =>
      have kept : found <+: addNew found type := by
        unfold addNew
        split
        · exact List.prefix_refl found
        · exact List.prefix_append found [type]
      exact kept.trans (ih (addNew found type))

/-- What was added is there, or something equal to it was there before. -/
theorem exists_beq_foldl_addNew {type : Ty} (listed : type ∈ types) :
    ∃ kept ∈ types.foldl addNew found, (kept == type) = true := by
  induction types generalizing found with
  | nil => cases listed
  | cons first types ih =>
      rcases List.mem_cons.mp listed with rfl | later
      · have own : ∃ kept ∈ addNew found type, (kept == type) = true := by
          unfold addNew
          split
          · rename_i seen
            exact List.any_eq_true.mp seen
          · exact ⟨type, by simp, same_refl type⟩
        obtain ⟨kept, held, equal⟩ := own
        exact ⟨kept, mem_foldl_addNew types held, equal⟩
      · exact ih later

/-- Adding types one by one adds the first occurrences that equal nothing found before. -/
theorem foldl_addNew_eq (foundDistinct : ∀ type ∈ found, type.IsDistinct)
    (typesDistinct : ∀ type ∈ types, type.IsDistinct) :
    types.foldl addNew found =
      found ++ (firstOccurrences types).filter fun type => !found.any (· == type) := by
  induction types generalizing found with
  | nil => simp [firstOccurrences]
  | cons type later ih =>
      have own := typesDistinct type List.mem_cons_self
      have laterDistinct : ∀ other ∈ later, other.IsDistinct :=
        fun other listed => typesDistinct other (List.mem_cons_of_mem _ listed)
      rw [List.foldl_cons, firstOccurrences]
      by_cases seen : found.any (· == type) = true
      · -- Whatever equals `type` equals what was found instead of it.
        obtain ⟨kept, held, equal⟩ := List.any_eq_true.mp seen
        have covered : ∀ other ∈ firstOccurrences later,
            (!found.any (· == other)) = true → (!(type == other)) = true := by
          intro other listed missing
          have otherDistinct := laterDistinct other ((firstOccurrences_sublist later).subset listed)
          cases same : type == other with
          | false => rfl
          | true =>
              have reached := beq_trans (foundDistinct kept held) own otherDistinct equal same
              have found : found.any (· == other) = true :=
                List.any_eq_true.mpr ⟨kept, held, reached⟩
              simp [found] at missing
        rw [addNew, if_pos seen, ih foundDistinct laterDistinct,
          List.filter_cons_of_neg (by simp [seen]), List.filter_filter]
        congr 1
        apply List.filter_congr
        intro other listed
        cases missing : !found.any (· == other) with
        | false => simp
        | true => simp [covered other listed missing]
      · have grown : ∀ other ∈ found ++ [type], other.IsDistinct := by
          intro other listed
          rcases List.mem_append.mp listed with held | added
          · exact foundDistinct other held
          · exact List.mem_singleton.mp added ▸ own
        rw [addNew, if_neg seen, ih grown laterDistinct,
          List.filter_cons_of_pos (by simpa using seen), List.filter_filter, List.append_assoc,
          List.singleton_append]
        simp only [List.any_append, List.any_cons, List.any_nil, Bool.or_false, Bool.not_or]

theorem nothing_distinct : ∀ type ∈ ([] : List Ty), type.IsDistinct :=
  fun _ listed => absurd listed List.not_mem_nil

theorem distinct_eq_firstOccurrences (typesDistinct : ∀ type ∈ types, type.IsDistinct) :
    distinct types = firstOccurrences types := by
  rw [distinct, foldl_addNew_eq nothing_distinct typesDistinct]
  simp

/-- Repetitions may be dropped before types are added. -/
theorem foldl_addNew_distinct (foundDistinct : ∀ type ∈ found, type.IsDistinct)
    (typesDistinct : ∀ type ∈ types, type.IsDistinct) :
    (distinct types).foldl addNew found = types.foldl addNew found := by
  have keptDistinct : ∀ type ∈ distinct types, type.IsDistinct :=
    fun type listed => typesDistinct type ((distinct_sublist types).subset listed)
  have same : firstOccurrences (distinct types) = firstOccurrences types := by
    rw [← distinct_eq_firstOccurrences keptDistinct, ← distinct_eq_firstOccurrences typesDistinct]
    exact distinct_of_pairwise (distinct_pairwise types)
  rw [foldl_addNew_eq foundDistinct keptDistinct, foldl_addNew_eq foundDistinct typesDistinct, same]

/-! ### Truncation -/

/-- Types that are pairwise unequal are all counted in what they were added to. -/
theorem length_le_foldl_addNew (foundDistinct : ∀ type ∈ found, type.IsDistinct)
    (typesDistinct : ∀ type ∈ types, type.IsDistinct)
    (apart : types.Pairwise fun first second => (first == second) = false) :
    types.length ≤ (types.foldl addNew found).length := by
  have keptDistinct := isDistinct_foldl_addNew foundDistinct typesDistinct
  have each : ∀ type ∈ types, ∃ kept ∈ types.foldl addNew found, (kept == type) = true :=
    fun type listed => exists_beq_foldl_addNew listed
  refine length_le_of_matches each (apart.imp_of_mem ?_)
  intro type next listed nextListed differ kept held equal nextEqual
  have back := beq_symm (keptDistinct kept held) (typesDistinct type listed) equal
  have same := beq_trans (typesDistinct type listed) (keptDistinct kept held)
    (typesDistinct next nextListed) back nextEqual
  rw [differ] at same
  cases same

theorem take_of_prefix {α : Type} {early late : List α} {count : Nat} (extended : early <+: late)
    (enough : count ≤ early.length) : late.take count = early.take count := by
  obtain ⟨rest, rfl⟩ := extended
  exact List.take_append_of_le_length enough

/-- Of pairwise unequal types the first ones up to a count decide what is found up to that
count. -/
theorem take_foldl_addNew (foundDistinct : ∀ type ∈ found, type.IsDistinct)
    (typesDistinct : ∀ type ∈ types, type.IsDistinct)
    (apart : types.Pairwise fun first second => (first == second) = false)
    (rest : List Ty) (count : Nat) :
    ((types.take count ++ rest).foldl addNew found).take count =
      ((types ++ rest).foldl addNew found).take count := by
  by_cases short : types.length ≤ count
  · rw [List.take_of_length_le short]
  · have enough : count ≤ ((types.take count).foldl addNew found).length := by
      have counted := length_le_foldl_addNew foundDistinct
        (fun type listed => typesDistinct type (List.mem_of_mem_take listed))
        (apart.sublist (List.take_sublist count types))
      rw [List.length_take] at counted
      omega
    have split : types ++ rest = types.take count ++ (types.drop count ++ rest) := by
      rw [← List.append_assoc, List.take_append_drop]
    rw [split, List.foldl_append, List.foldl_append,
      take_of_prefix (prefix_foldl_addNew rest _) enough,
      take_of_prefix (prefix_foldl_addNew _ _) enough]

/-- Groups of types may be made distinct and cut to the count before they are added. -/
theorem take_foldl_addNew_stages (groups : List (List Ty)) (count : Nat)
    (foundDistinct : ∀ type ∈ found, type.IsDistinct)
    (groupsDistinct : ∀ types ∈ groups, ∀ type ∈ types, type.IsDistinct) :
    ((groups.flatMap fun types => (distinct types).take count).foldl addNew found).take count =
      (groups.flatten.foldl addNew found).take count := by
  induction groups generalizing found with
  | nil => rfl
  | cons types groups ih =>
      have own := groupsDistinct types List.mem_cons_self
      have others : ∀ group ∈ groups, ∀ type ∈ group, type.IsDistinct :=
        fun group listed => groupsDistinct group (List.mem_cons_of_mem _ listed)
      have kept : ∀ type ∈ distinct types, type.IsDistinct :=
        fun type listed => own type ((distinct_sublist types).subset listed)
      have grown := isDistinct_foldl_addNew foundDistinct own
      rw [List.flatMap_cons, List.flatten_cons,
        take_foldl_addNew foundDistinct kept (distinct_pairwise types), List.foldl_append,
        foldl_addNew_distinct foundDistinct own, List.foldl_append, ih grown others]

end Adding

/-! ### Unions of unions -/

theorem knownAlternatives_cons (type : Ty) (types : List Ty) :
    knownAlternatives (type :: types) = knownAlternatives [type] ++ knownAlternatives types := by
  simp [knownAlternatives, flattenAll]

theorem knownAlternatives_flatten (groups : List (List Ty)) :
    knownAlternatives groups.flatten = (groups.map knownAlternatives).flatten := by
  induction groups with
  | nil => rfl
  | cons types groups ih =>
      rw [List.flatten_cons, List.map_cons, List.flatten_cons, ← ih]
      simp [knownAlternatives, flattenAll_eq]

/-- The alternatives of a union are those that `join` kept. -/
theorem knownAlternatives_join (types : List Ty) :
    knownAlternatives [join types] = (distinct (knownAlternatives types)).take unionCap := by
  rw [join_eq]
  generalize alternatives : (distinct (knownAlternatives types)).take unionCap = kept
  have simple : ∀ type ∈ kept, type.isUnion = false ∧ type.isUnknown = false := by
    intro type listed
    rw [← alternatives] at listed
    exact simple_of_kept listed
  match kept with
  | [] => rfl
  | [only] =>
      obtain ⟨single, known⟩ := simple only List.mem_cons_self
      simp [ofAlternatives, knownAlternatives, flattenAll, flatten_of_simple single, known]
  | first :: second :: rest =>
      exact knownAlternatives_of_proper (properMembers_of_kept alternatives (by simp))

theorem isDistinct_of_known {types : List Ty} (typesDistinct : ∀ type ∈ types, type.IsDistinct) :
    ∀ type ∈ knownAlternatives types, type.IsDistinct :=
  fun _ listed => (mem_knownAlternatives typesDistinct listed).1

theorem join_map_join {groups : List (List Ty)}
    (groupsDistinct : ∀ types ∈ groups, ∀ type ∈ types, type.IsDistinct) :
    join (groups.map join) = join groups.flatten := by
  have opened : knownAlternatives (groups.map join) =
      (groups.map knownAlternatives).flatMap fun types => (distinct types).take unionCap := by
    clear groupsDistinct
    induction groups with
    | nil => rfl
    | cons types groups ih =>
        rw [List.map_cons, knownAlternatives_cons, knownAlternatives_join, ih, List.map_cons,
          List.flatMap_cons]
  have knownDistinct : ∀ known ∈ groups.map knownAlternatives, ∀ type ∈ known, type.IsDistinct := by
    intro known listed
    obtain ⟨types, among, rfl⟩ := List.mem_map.mp listed
    exact isDistinct_of_known (groupsDistinct types among)
  rw [join_eq, join_eq, opened, knownAlternatives_flatten, distinct, distinct,
    take_foldl_addNew_stages _ _ nothing_distinct knownDistinct]

theorem flatten_eq_members {type : Ty} (regular : type.IsRegular) :
    type.flatten = type.members := by
  cases type with
  | union members =>
      exact flattenAll_of_simple fun member listed => (regular.simple member listed).1
  | _ => rfl

/-- Joining in stages is joining at once. The union has the first of the known alternatives, each
where it occurs first; there is nothing to tell if there is none, and a single one stands alone. -/
theorem joining_in_stages_is_joining_at_once {groups : List (List Ty)}
    (normal : ∀ types ∈ groups, ∀ type ∈ types, type.IsNormal) :
    join (groups.map join) = join groups.flatten ∧
      join groups.flatten = ofAlternatives
        ((firstOccurrences ((groups.flatten.flatMap members).filter
          fun type => !type.isUnknown)).take unionCap) := by
  have flat : ∀ type ∈ groups.flatten, type.IsNormal := by
    intro type listed
    obtain ⟨types, among, inside⟩ := List.mem_flatten.mp listed
    exact normal types among type inside
  refine ⟨join_map_join fun types among type listed =>
    isDistinct_of_isNormal (normal types among type listed), ?_⟩
  have opened : knownAlternatives groups.flatten =
      (groups.flatten.flatMap members).filter fun type => !type.isUnknown := by
    rw [knownAlternatives, flattenAll_eq]
    congr 1
    exact List.flatMap_congr fun type listed => flatten_eq_members (flat type listed).own
  rw [join_eq, distinct_eq_firstOccurrences
    (isDistinct_of_known fun type listed => isDistinct_of_isNormal (flat type listed)), opened]

/-- A group of which nothing is known, an empty one, one with more types than a union keeps, and a
union with one type that was seen and one that was not. -/
def crowd : List (List Ty) :=
  [[.unknown], [],
    ["A", "B", "C", "D", "E", "F", "G", "H", "I", "J", "K", "L"].map .instanceOf,
    [.union [.instanceOf "M", .array .integer], .instanceOf "A"]]

theorem crowd_joins_in_stages :
    (∀ types ∈ crowd, ∀ type ∈ types, type.IsNormal) ∧
      join (crowd.map join) = join crowd.flatten ∧
      join crowd.flatten = ofAlternatives
        ((firstOccurrences
          ((crowd.flatten.flatMap members).filter fun type => !type.isUnknown)).take unionCap) := by
  have normal : ∀ types ∈ crowd, ∀ type ∈ types, type.IsNormal := by decide
  exact ⟨normal, joining_in_stages_is_joining_at_once normal⟩

end Ty

end HeuristicTyping
