import HeuristicTyping.Proofs.Ty.Comparison

/-!
# Joins

The union of several types has the first ten of their known alternatives, each of them once:
`Ty.join_eq` says so in one equation. What is unknown adds nothing to it, and a union that was
built this way is its own union.
-/

set_option autoImplicit false

namespace HeuristicTyping

namespace Ty

theorem flattenAll_eq (types : List Ty) : flattenAll types = types.flatMap flatten := by
  induction types with
  | nil => rfl
  | cons type types ih => rw [flattenAll, ih, List.flatMap_cons]

theorem flatten_of_simple {type : Ty} (simple : type.isUnion = false) : type.flatten = [type] := by
  cases type with
  | union members => cases simple
  | _ => rfl

theorem mem_flatten {property : Ty → Prop} {type alternative : Ty} (all : type.All property)
    (among : alternative ∈ type.flatten) :
    alternative.All property ∧ alternative.isUnion = false := by
  induction type using Ty.induct with
  | step type ih =>
      cases type with
      | union members =>
          rw [flatten, flattenAll_eq, List.mem_flatMap] at among
          obtain ⟨member, listed, inside⟩ := among
          exact ih member listed (all.child listed) inside
      | _ =>
          obtain rfl := List.mem_singleton.mp among
          exact ⟨all, rfl⟩

theorem foldl_addNew_sublist (types found : List Ty) :
    (types.foldl addNew found).Sublist (found ++ types) := by
  induction types generalizing found with
  | nil => simp
  | cons type types ih =>
      rw [List.foldl_cons]
      apply (ih (addNew found type)).trans
      unfold addNew
      split
      · exact (List.Sublist.refl found).append (List.sublist_cons_self type types)
      · simp

theorem distinct_sublist (types : List Ty) : (distinct types).Sublist types := by
  exact foldl_addNew_sublist types []

theorem foldl_addNew_pairwise (types : List Ty) {found : List Ty}
    (apart : found.Pairwise fun first second => (first == second) = false) :
    (types.foldl addNew found).Pairwise fun first second => (first == second) = false := by
  induction types generalizing found with
  | nil => exact apart
  | cons type types ih =>
      apply ih
      unfold addNew
      split
      · exact apart
      · rename_i missing
        rw [List.pairwise_append]
        refine ⟨apart, List.pairwise_singleton _ _, ?_⟩
        intro first listed second only
        obtain rfl := List.mem_singleton.mp only
        have differs := List.any_eq_false.mp (Bool.not_eq_true _ ▸ missing) first listed
        simpa using differs

theorem distinct_pairwise (types : List Ty) :
    (distinct types).Pairwise fun first second => (first == second) = false :=
  foldl_addNew_pairwise types List.Pairwise.nil

/-- The known alternatives of several types, in order and with repetitions. -/
def knownAlternatives (types : List Ty) : List Ty :=
  (flattenAll types).filter fun type => !type.isUnknown

/-- The type with the given alternatives. -/
def ofAlternatives : List Ty → Ty
  | [] => .unknown
  | [only] => only
  | several => .union several

theorem beq_unknown_left {type : Ty} (known : type.isUnknown = false) :
    (Ty.unknown == type) = false := by
  cases type with
  | unknown => cases known
  | _ => rfl

theorem foldl_addNew_known (types found : List Ty) :
    (types.foldl addNew found).filter (fun type => !type.isUnknown) =
      (types.filter fun type => !type.isUnknown).foldl addNew
        (found.filter fun type => !type.isUnknown) := by
  induction types generalizing found with
  | nil => rfl
  | cons type types ih =>
      rw [List.foldl_cons, ih]
      cases unknown : type.isUnknown with
      | true =>
          have kept : (addNew found type).filter (fun type => !type.isUnknown) =
              found.filter fun type => !type.isUnknown := by
            unfold addNew
            split
            · rfl
            · simp [unknown]
          rw [kept, List.filter_cons_of_neg (by simp [unknown])]
      | false =>
          -- What is unknown equals no known type, so it does not matter whether it is there.
          have seen : (found.filter fun type => !type.isUnknown).any (· == type) =
              found.any (· == type) := by
            rw [List.any_filter]
            congr 1
            funext other
            cases other with
            | unknown => exact (beq_unknown_left unknown).symm
            | _ => rfl
          have kept : (addNew found type).filter (fun type => !type.isUnknown) =
              addNew (found.filter fun type => !type.isUnknown) type := by
            unfold addNew
            rw [seen]
            split
            · rfl
            · simp [unknown]
          rw [kept, List.filter_cons_of_pos (by simp [unknown]), List.foldl_cons]

theorem distinct_known (types : List Ty) :
    (distinct types).filter (fun type => !type.isUnknown) =
      distinct (types.filter fun type => !type.isUnknown) :=
  foldl_addNew_known types []

/-- The union of several types has the first of their known alternatives, each once. -/
theorem join_eq (types : List Ty) :
    join types = ofAlternatives ((distinct (knownAlternatives types)).take unionCap) := by
  have opened : join types = ofAlternatives
      ((if 1 < (distinct (flattenAll types)).length then
        (distinct (flattenAll types)).filter fun type => !type.isUnknown
      else distinct (flattenAll types)).take unionCap) := rfl
  rw [opened, knownAlternatives, ← distinct_known]
  generalize distinct (flattenAll types) = found
  -- Up to one alternative is kept as it is; if it is unknown, so is the type of none.
  match found with
  | [] => rfl
  | [only] =>
      cases only with
      | unknown => rfl
      | _ => rfl
  | first :: second :: rest => simp

theorem eq_unknown {type : Ty} (unknown : type.isUnknown = true) : type = .unknown := by
  cases type with
  | unknown => rfl
  | _ => cases unknown

/-- What is unknown adds nothing to a union. -/
theorem join_known (types : List Ty) :
    join (types.filter fun type => !type.isUnknown) = join types := by
  have same : knownAlternatives (types.filter fun type => !type.isUnknown) =
      knownAlternatives types := by
    unfold knownAlternatives
    induction types with
    | nil => rfl
    | cons type types ih =>
        cases unknown : type.isUnknown with
        | true =>
            have only : type.flatten.filter (fun type => !type.isUnknown) = [] := by
              cases type with
              | unknown => rfl
              | _ => cases unknown
            rw [List.filter_cons_of_neg (by simp [unknown]), ih, flattenAll, List.filter_append,
              only, List.nil_append]
        | false =>
            rw [List.filter_cons_of_pos (by simp [unknown]), flattenAll, flattenAll,
              List.filter_append, List.filter_append, ih]
  rw [join_eq, same, ← join_eq]

theorem join_getD {α : Type} {told : α → Option Ty} {elements : List α}
    (known : ∀ element ∈ elements, ∀ type, told element = some type → type.isUnknown = false) :
    join (elements.map fun element => (told element).getD .unknown) =
      join (elements.filterMap told) := by
  rw [← join_known]
  apply congrArg join
  induction elements with
  | nil => rfl
  | cons element elements ih =>
      have rest := ih fun other listed => known other (List.mem_cons_of_mem element listed)
      cases tells : told element with
      | none =>
          rw [List.map_cons, tells, List.filterMap_cons_none tells,
            List.filter_cons_of_neg (by simp [isUnknown]), rest]
      | some type =>
          have own := known element List.mem_cons_self type tells
          rw [List.map_cons, tells, List.filterMap_cons_some tells,
            List.filter_cons_of_pos (by simp [own]), rest]
          rfl

/-! ### Unions of unions -/

/-- The members of a union in normal form. -/
structure ProperMembers (members : List Ty) : Prop where
  several : 2 ≤ members.length
  bounded : members.length ≤ unionCap
  distinct : members.Pairwise fun first second => (first == second) = false
  simple : ∀ member ∈ members, member.isUnion = false ∧ member.isUnknown = false

instance (members : List Ty) : Decidable (ProperMembers members) :=
  decidable_of_iff
    (2 ≤ members.length ∧ members.length ≤ unionCap ∧
      (members.Pairwise fun first second => (first == second) = false) ∧
      ∀ member ∈ members, member.isUnion = false ∧ member.isUnknown = false)
    ⟨fun ⟨several, bounded, distinct, simple⟩ => ⟨several, bounded, distinct, simple⟩,
      fun proper => ⟨proper.several, proper.bounded, proper.distinct, proper.simple⟩⟩

theorem ProperMembers.ne_nil {members : List Ty} (proper : ProperMembers members) :
    members ≠ [] :=
  List.ne_nil_of_length_pos (Nat.zero_lt_of_lt proper.several)

/-- A union is as `join` builds it. -/
def IsProper : Ty → Prop
  | .union members => ProperMembers members
  | _ => True

instance : DecidablePred IsProper
  | .union members => inferInstanceAs (Decidable (ProperMembers members))
  | .unknown | .unguessed | .instanceOf _ | .singleton _ | .array _ | .tuple _ | .hash _ _
  | .shape _ | .range _ | .var _ | .self | .forwarded | .method _ _ =>
      inferInstanceAs (Decidable True)

theorem foldl_addNew_of_mem {types found : List Ty} (seen : ∀ type ∈ types, type ∈ found) :
    types.foldl addNew found = found := by
  induction types with
  | nil => rfl
  | cons type types ih =>
      have held : found.any (· == type) = true :=
        List.any_eq_true.mpr ⟨type, seen type List.mem_cons_self, same_refl type⟩
      rw [List.foldl_cons, addNew, if_pos held]
      exact ih fun other listed => seen other (List.mem_cons_of_mem _ listed)

theorem foldl_addNew_of_pairwise (types found : List Ty)
    (apart : (found ++ types).Pairwise fun first second => (first == second) = false) :
    types.foldl addNew found = found ++ types := by
  induction types generalizing found with
  | nil => simp
  | cons type types ih =>
      have missing : ¬ found.any (· == type) = true := by
        rw [List.any_eq_true]
        rintro ⟨other, listed, equal⟩
        have differs := (List.pairwise_append.mp apart).2.2 other listed type List.mem_cons_self
        simp [differs] at equal
      rw [List.foldl_cons, addNew, if_neg missing, ih (found ++ [type]) (by simpa using apart)]
      simp

theorem distinct_of_pairwise {types : List Ty}
    (apart : types.Pairwise fun first second => (first == second) = false) :
    distinct types = types :=
  foldl_addNew_of_pairwise types [] apart

theorem flattenAll_of_simple {types : List Ty} (simple : ∀ type ∈ types, type.isUnion = false) :
    flattenAll types = types := by
  induction types with
  | nil => rfl
  | cons type types ih =>
      rw [flattenAll, flatten_of_simple (simple type List.mem_cons_self),
        ih fun other listed => simple other (List.mem_cons_of_mem _ listed), List.singleton_append]

theorem knownAlternatives_of_simple {types : List Ty}
    (simple : ∀ type ∈ types, type.isUnion = false ∧ type.isUnknown = false) :
    knownAlternatives types = types := by
  rw [knownAlternatives, flattenAll_of_simple fun type listed => (simple type listed).1,
    List.filter_eq_self]
  intro type listed
  simp [(simple type listed).2]

theorem knownAlternatives_union (members : List Ty) :
    knownAlternatives [.union members] = knownAlternatives members := by
  rw [knownAlternatives, flattenAll, flattenAll, List.append_nil, flatten, knownAlternatives]

theorem knownAlternatives_of_proper {members : List Ty} (proper : ProperMembers members) :
    knownAlternatives [.union members] = members := by
  rw [knownAlternatives_union, knownAlternatives_of_simple proper.simple]

theorem distinct_knownAlternatives {type : Ty} (proper : type.IsProper) :
    distinct (knownAlternatives [type]) = knownAlternatives [type] := by
  cases type with
  | union members =>
      rw [knownAlternatives_of_proper proper]
      exact distinct_of_pairwise proper.distinct
  | _ => rfl

theorem join_self {type : Ty} (proper : type.IsProper) : join [type] = type := by
  rw [join_eq, distinct_knownAlternatives proper]
  cases type with
  | union members =>
      rw [knownAlternatives_of_proper proper, List.take_of_length_le proper.bounded]
      match members, proper.several with
      | first :: second :: rest, _ => rfl
  | _ => rfl

/-- Joining a type that `join` can have built with itself, any number of times, gives the type. -/
theorem join_replicate {type : Ty} (proper : type.IsProper) (count : Nat) :
    join (List.replicate (count + 1) type) = type := by
  have again : ∀ alternative ∈ knownAlternatives (List.replicate count type),
      alternative ∈ knownAlternatives [type] := by
    intro alternative
    simp only [knownAlternatives, List.mem_filter, flattenAll_eq, List.mem_flatMap,
      List.mem_replicate, List.mem_singleton]
    rintro ⟨⟨other, ⟨_, rfl⟩, inside⟩, known⟩
    exact ⟨⟨other, rfl, inside⟩, known⟩
  have apart : knownAlternatives (List.replicate (count + 1) type) =
      knownAlternatives [type] ++ knownAlternatives (List.replicate count type) := by
    simp [knownAlternatives, List.replicate_succ, flattenAll]
  have once : distinct (knownAlternatives (List.replicate (count + 1) type)) =
      distinct (knownAlternatives [type]) := by
    calc distinct (knownAlternatives (List.replicate (count + 1) type))
      _ = (knownAlternatives (List.replicate count type)).foldl addNew
            (distinct (knownAlternatives [type])) := by
          rw [apart, distinct, List.foldl_append, distinct]
      _ = distinct (knownAlternatives [type]) := by
          rw [distinct_knownAlternatives proper]
          exact foldl_addNew_of_mem again
  rw [join_eq, once, ← join_eq, join_self proper]

theorem mem_foldl_addNew {type : Ty} (types : List Ty) {found : List Ty} (listed : type ∈ found) :
    type ∈ types.foldl addNew found := by
  induction types generalizing found with
  | nil => exact listed
  | cons first rest ih =>
      apply ih
      unfold addNew
      split
      · exact listed
      · exact List.mem_append_left _ listed

theorem knownAlternatives_ne_nil {types : List Ty} {type : Ty} (listed : type ∈ types)
    (proper : type.IsProper) (known : type.isUnknown = false) :
    knownAlternatives types ≠ [] := by
  have inside : ∃ alternative ∈ type.flatten, alternative.isUnknown = false := by
    cases type with
    | union members =>
        match members, proper with
        | first :: rest, proper =>
            obtain ⟨single, simple⟩ := proper.simple first List.mem_cons_self
            refine ⟨first, ?_, simple⟩
            simp [flatten, flattenAll, flatten_of_simple single]
        | [], proper => exact absurd proper.several (by decide)
    | _ => exact ⟨_, List.mem_cons_self, known⟩
  obtain ⟨alternative, held, simple⟩ := inside
  refine List.ne_nil_of_mem (a := alternative) ?_
  rw [knownAlternatives, flattenAll_eq, List.mem_filter, List.mem_flatMap]
  exact ⟨⟨type, listed, held⟩, by simp [simple]⟩

/-- A union with a known type among its alternatives is known. -/
theorem join_isUnknown {types : List Ty} {type : Ty} (listed : type ∈ types)
    (proper : type.IsProper) (known : type.isUnknown = false) :
    (join types).isUnknown = false := by
  have simple : ∀ alternative ∈ knownAlternatives types, alternative.isUnknown = false := by
    intro alternative among
    simpa using (List.mem_filter.mp among).2
  rw [join_eq]
  cases alternatives : knownAlternatives types with
  | nil => exact absurd alternatives (knownAlternatives_ne_nil listed proper known)
  | cons first rest =>
      have kept : first ∈ distinct (first :: rest) := mem_foldl_addNew rest List.mem_cons_self
      have among : ∀ alternative ∈ (distinct (first :: rest)).take unionCap,
          alternative.isUnknown = false := by
        intro alternative taken
        apply simple
        rw [alternatives]
        exact (distinct_sublist _).subset (List.mem_of_mem_take taken)
      match taken : (distinct (first :: rest)).take unionCap, among with
      | [], _ =>
          rcases List.take_eq_nil_iff.mp taken with zero | none
          · cases zero
          · rw [none] at kept
            cases kept
      | [only], among => exact among only List.mem_cons_self
      | _ :: _ :: _, _ => rfl

end Ty

end HeuristicTyping
