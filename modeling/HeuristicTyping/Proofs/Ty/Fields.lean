import HeuristicTyping.Proofs.Ty.Rebuilding
import Mathlib.Data.Finset.Dedup
import Mathlib.Data.Finset.Card

/-!
# Shapes as maps

The fields of a shape stand for the entries that it was built from: a key has the type of its last
entry, there are as many fields as different keys, and where no key is repeated, the order of the
entries makes no difference.
-/

set_option autoImplicit false

namespace HeuristicTyping

namespace Ty

/-! ### Looking up a key -/

theorem lookup_insertField_self (key : String) (type : Ty) (fields : List (String × Ty)) :
    (insertField key type fields).lookup key = some type := by
  induction fields with
  | nil => exact List.lookup_cons_self
  | cons field fields ih =>
      obtain ⟨name, held⟩ := field
      unfold insertField
      split_ifs with before same
      · exact List.lookup_cons_self
      · exact List.lookup_cons_self
      · rw [List.lookup_cons, beq_false_of_ne same, ih]

theorem lookup_insertField_of_ne {key other : String} (distinct : other ≠ key) (type : Ty)
    (fields : List (String × Ty)) :
    (insertField key type fields).lookup other = fields.lookup other := by
  have missed : (other == key) = false := beq_false_of_ne distinct
  induction fields with
  | nil => simp only [insertField, List.lookup_cons, missed]
  | cons field fields ih =>
      obtain ⟨name, held⟩ := field
      unfold insertField
      split_ifs with before same
      · simp only [List.lookup_cons, missed]
      · subst same
        simp only [List.lookup_cons, missed]
      · simp only [List.lookup_cons, ih]

/-- Of several entries for a key the last counts. -/
theorem lookup_sortFields (entries : List (String × Ty)) (key : String) :
    (sortFields entries).lookup key = entries.reverse.lookup key := by
  induction entries using List.reverseRecOn with
  | nil => rfl
  | append_singleton entries entry ih =>
      have put : sortFields (entries ++ [entry]) =
          insertField entry.1 entry.2 (sortFields entries) := by
        simp [sortFields]
      rw [put, List.reverse_append, List.reverse_singleton, List.singleton_append]
      obtain ⟨name, type⟩ := entry
      by_cases same : key = name
      · subst same
        rw [lookup_insertField_self, List.lookup_cons_self]
      · rw [lookup_insertField_of_ne same, ih, List.lookup_cons, beq_false_of_ne same]

/-! ### Counting keys -/

theorem mem_keys_iff_lookup {β : Type} {entries : List (String × β)} {key : String} :
    key ∈ entries.map Prod.fst ↔ (entries.lookup key).isSome := by
  induction entries with
  | nil => simp
  | cons entry entries ih =>
      obtain ⟨name, value⟩ := entry
      by_cases same : key = name
      · simp [same]
      · simp only [List.map_cons, List.mem_cons, List.lookup_cons, beq_false_of_ne same, ← ih, same,
          false_or]

theorem keys_nodup {fields : List (String × Ty)} (ascending : FieldsAscend fields) :
    (fields.map Prod.fst).Nodup :=
  List.pairwise_map.mpr (ascending.imp ne_of_lt)

theorem length_sortFields (entries : List (String × Ty)) :
    (sortFields entries).length = (entries.map Prod.fst).toFinset.card := by
  have keys : ((sortFields entries).map Prod.fst).toFinset = (entries.map Prod.fst).toFinset := by
    ext key
    have reversed : key ∈ entries.reverse.map Prod.fst ↔ key ∈ entries.map Prod.fst := by simp
    simp only [List.mem_toFinset]
    rw [mem_keys_iff_lookup, lookup_sortFields, ← mem_keys_iff_lookup, reversed]
  calc (sortFields entries).length
    _ = ((sortFields entries).map Prod.fst).length := (List.length_map _).symm
    _ = ((sortFields entries).map Prod.fst).toFinset.card :=
        (List.toFinset_card_of_nodup (keys_nodup (sortFields_ascends entries))).symm
    _ = (entries.map Prod.fst).toFinset.card := by rw [keys]

theorem shapeOf_of_few_keys {entries : List (String × Ty)}
    (few : (entries.map Prod.fst).toFinset.card ≤ shapeCap) :
    shapeOf entries = .shape (sortFields entries) := by
  rw [← length_sortFields] at few
  rw [shapeOf, if_neg (by omega)]

/-! ### The order of the entries -/

theorem insertField_perm {key : String} (type : Ty) {fields : List (String × Ty)}
    (fresh : key ∉ fields.map Prod.fst) :
    (insertField key type fields).Perm ((key, type) :: fields) := by
  induction fields with
  | nil => exact List.Perm.refl _
  | cons field fields ih =>
      have other : key ≠ field.1 := fun same => fresh (by simp [same])
      have rest : key ∉ fields.map Prod.fst := fun later => fresh (List.mem_cons_of_mem _ later)
      unfold insertField
      split_ifs with before
      · exact List.Perm.refl _
      · exact ((ih rest).cons field).trans (List.Perm.swap _ _ _)

theorem sortFields_perm {entries : List (String × Ty)} (distinct : (entries.map Prod.fst).Nodup) :
    (sortFields entries).Perm entries := by
  have placed : ∀ fields : List (String × Ty), ((fields ++ entries).map Prod.fst).Nodup →
      (entries.foldl (fun fields entry => insertField entry.1 entry.2 fields) fields).Perm
        (fields ++ entries) := by
    clear distinct
    induction entries with
    | nil => simp
    | cons entry entries ih =>
        intro fields distinct
        have moved : (fields ++ entry :: entries).Perm (entry :: fields ++ entries) :=
          List.perm_middle
        have keys := (moved.map Prod.fst).nodup_iff.mp distinct
        have fresh : entry.1 ∉ fields.map Prod.fst := by
          intro held
          simp only [List.cons_append, List.map_cons, List.map_append] at keys
          exact (List.nodup_cons.mp keys).1 (List.mem_append_left _ held)
        have put := insertField_perm entry.2 fresh
        have rest := ih (insertField entry.1 entry.2 fields)
          (((put.append_right entries).map Prod.fst).nodup_iff.mpr keys)
        exact rest.trans ((put.append_right entries).trans moved.symm)
  exact placed [] distinct

theorem sortFields_congr {entries reordered : List (String × Ty)} (same : entries.Perm reordered)
    (distinct : (entries.map Prod.fst).Nodup) : sortFields entries = sortFields reordered := by
  have others : (reordered.map Prod.fst).Nodup := (same.map Prod.fst).nodup_iff.mp distinct
  apply List.Perm.eq_of_pairwise
    (fun first second _ _ before after => absurd before (lt_asymm after))
    (sortFields_ascends entries) (sortFields_ascends reordered)
  exact (sortFields_perm distinct).trans (same.trans (sortFields_perm others).symm)

/-- Where no key is repeated, the order of the entries of a shape makes no difference, and neither
does it if there are too many for a shape. -/
theorem shapeOf_congr {entries reordered : List (String × Ty)} (same : entries.Perm reordered)
    (distinct : (entries.map Prod.fst).Nodup) : shapeOf entries = shapeOf reordered := by
  rw [shapeOf, shapeOf, sortFields_congr same distinct]

end Ty

end HeuristicTyping
