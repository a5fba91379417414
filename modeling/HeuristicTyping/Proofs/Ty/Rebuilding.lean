import HeuristicTyping.Proofs.Ty.NormalForm
import Mathlib.Data.String.Basic

/-!
# Levels that are built anew

A level of a type in normal form can be built anew from the very types that it holds, and comes out
as it was: no member is dropped, no tuple is widened, no field is moved. The last takes a shape
whose fields stand in ascending order of their keys, which is how `Ty.sortFields` leaves them. So a
type inside which nothing changed may be kept or built anew.
-/

set_option autoImplicit false

namespace HeuristicTyping

namespace Ty

/-! ### Fields in order -/

/-- The keys of the fields ascend. -/
def FieldsAscend (fields : List (String × Ty)) : Prop :=
  fields.Pairwise fun field later => field.1 < later.1

instance (fields : List (String × Ty)) : Decidable (FieldsAscend fields) :=
  inferInstanceAs (Decidable (fields.Pairwise fun field later => field.1 < later.1))

/-- If the type is a shape, then the keys of its fields ascend, as `shapeOf` leaves them. -/
def KeysAscend : Ty → Prop
  | .shape fields => FieldsAscend fields
  | _ => True

instance : DecidablePred KeysAscend
  | .shape fields => inferInstanceAs (Decidable (FieldsAscend fields))
  | .unknown | .unguessed | .instanceOf _ | .singleton _ | .union _ | .array _ | .tuple _
  | .hash _ _ | .range _ | .var _ | .self | .forwarded | .method _ _ =>
      inferInstanceAs (Decidable True)

theorem insertField_ascends (key : String) (type : Ty) {fields : List (String × Ty)}
    (ascending : FieldsAscend fields) : FieldsAscend (insertField key type fields) := by
  induction fields with
  | nil => exact List.pairwise_singleton _ _
  | cons field fields ih =>
      have later := (List.pairwise_cons.mp ascending).1
      have rest := (List.pairwise_cons.mp ascending).2
      unfold insertField
      split_ifs with before same
      · apply List.Pairwise.cons _ ascending
        intro next listed
        rcases List.mem_cons.mp listed with rfl | listed
        · exact before
        · exact lt_trans before (later next listed)
      · subst same
        exact List.Pairwise.cons later rest
      · have after : field.1 < key := lt_of_le_of_ne (not_lt.mp before) (Ne.symm same)
        apply List.Pairwise.cons _ (ih rest)
        intro next listed
        rcases mem_insertField listed with rfl | listed
        · exact after
        · exact later next listed

theorem sortFields_ascends (entries : List (String × Ty)) : FieldsAscend (sortFields entries) := by
  have sorted : ∀ fields, FieldsAscend fields → FieldsAscend
      (entries.foldl (fun fields entry => insertField entry.1 entry.2 fields) fields) := by
    induction entries with
    | nil => exact fun fields ascending => ascending
    | cons entry entries ih =>
        intro fields ascending
        exact ih _ (insertField_ascends entry.1 entry.2 ascending)
  exact sorted [] List.Pairwise.nil

theorem insertField_length_le (key : String) (type : Ty) (fields : List (String × Ty)) :
    (insertField key type fields).length ≤ fields.length + 1 := by
  induction fields with
  | nil => simp [insertField]
  | cons field fields ih =>
      unfold insertField
      split_ifs <;> simp only [List.length_cons] <;> omega

theorem sortFields_length_le (entries : List (String × Ty)) :
    (sortFields entries).length ≤ entries.length := by
  have counted : ∀ fields : List (String × Ty),
      (entries.foldl (fun fields entry => insertField entry.1 entry.2 fields) fields).length ≤
        fields.length + entries.length := by
    induction entries with
    | nil => simp
    | cons entry entries ih =>
        intro fields
        have inserted := insertField_length_le entry.1 entry.2 fields
        have rest := ih (insertField entry.1 entry.2 fields)
        simp only [List.foldl_cons, List.length_cons]
        omega
  simpa [sortFields] using counted []

theorem insertField_of_last {key : String} (type : Ty) {fields : List (String × Ty)}
    (before : ∀ field ∈ fields, field.1 < key) :
    insertField key type fields = fields ++ [(key, type)] := by
  induction fields with
  | nil => rfl
  | cons field fields ih =>
      have first : field.1 < key := before field List.mem_cons_self
      rw [insertField, if_neg (lt_asymm first), if_neg (ne_of_gt first),
        ih fun next listed => before next (List.mem_cons_of_mem _ listed), List.cons_append]

theorem sortFields_of_ascending {entries : List (String × Ty)} (ascending : FieldsAscend entries) :
    sortFields entries = entries := by
  have placed : ∀ fields : List (String × Ty), FieldsAscend (fields ++ entries) →
      entries.foldl (fun fields entry => insertField entry.1 entry.2 fields) fields =
        fields ++ entries := by
    clear ascending
    induction entries with
    | nil => simp
    | cons entry entries ih =>
        intro fields ascending
        have before : ∀ field ∈ fields, field.1 < entry.1 := fun field listed =>
          (List.pairwise_append.mp ascending).2.2 field listed entry List.mem_cons_self
        rw [List.foldl_cons, insertField_of_last entry.2 before, ih _ (by simpa using ascending)]
        simp
  exact placed [] ascending

/-! ### One level -/

theorem join_of_proper {members : List Ty} (proper : ProperMembers members) :
    join members = .union members := by
  rw [join_eq, ← knownAlternatives_union, ← join_eq]
  exact join_self proper

theorem tupleOf_of_short {elements : List Ty} (short : elements.length ≤ tupleCap) :
    tupleOf elements = .tuple elements := by
  rw [tupleOf, if_neg (by omega)]

theorem shapeOf_of_few {entries : List (String × Ty)} (few : entries.length ≤ shapeCap) :
    shapeOf entries = .shape (sortFields entries) := by
  have sorted := sortFields_length_le entries
  rw [shapeOf, if_neg (by omega)]

theorem rebuilt_tuple (change : Ty → Ty) {elements : List Ty}
    (regular : (Ty.tuple elements).IsRegular) :
    rebuilt change (.tuple elements) = .tuple (elements.map change) := by
  have short : elements.length ≤ tupleCap := regular
  exact tupleOf_of_short (by simpa using short)

theorem rebuilt_shape (change : Ty → Ty) {fields : List (String × Ty)}
    (regular : (Ty.shape fields).IsRegular) :
    rebuilt change (.shape fields) =
      .shape (sortFields (fields.map fun field => (field.1, change field.2))) := by
  have few : fields.length ≤ shapeCap := regular
  exact shapeOf_of_few (by simpa using few)

theorem rebuilt_congr {change other : Ty → Ty} {type : Ty}
    (agree : ∀ child ∈ type.children, change child = other child) :
    rebuilt change type = rebuilt other type := by
  cases type with
  | union members => exact congrArg join (List.map_congr_left agree)
  | tuple elements => exact congrArg tupleOf (List.map_congr_left agree)
  | array element | range element =>
      rw [rebuilt, rebuilt, agree element List.mem_cons_self]
  | hash key value =>
      rw [rebuilt, rebuilt, agree key (by simp [children]), agree value (by simp [children])]
  | shape fields =>
      have each : ∀ field ∈ fields, (field.1, change field.2) = (field.1, other field.2) := by
        intro field listed
        rw [agree field.2 (List.mem_map_of_mem listed)]
      rw [rebuilt, rebuilt, List.map_congr_left each]
  | method params result =>
      have each : ∀ param ∈ params, { param with type := change param.type } =
          { param with type := other param.type } := by
        intro param listed
        rw [agree param.type (List.mem_append_left _ (List.mem_map_of_mem listed))]
      rw [rebuilt, rebuilt, List.map_congr_left each, agree result (by simp [children])]
  | _ => rfl

theorem rebuilt_id {type : Ty} (regular : type.IsRegular) (ascending : type.KeysAscend) :
    rebuilt id type = type := by
  cases type with
  | union members => simpa [rebuilt] using join_of_proper regular
  | tuple elements => simpa using rebuilt_tuple id regular
  | shape fields =>
      have sorted : sortFields fields = fields := sortFields_of_ascending ascending
      simpa [sorted] using rebuilt_shape id regular
  | method params result => simp [rebuilt]
  | _ => rfl

/-- A level in normal form is built anew as it was if what it holds does not change. -/
theorem rebuilt_of_fixed {change : Ty → Ty} {type : Ty} (regular : type.IsRegular)
    (ascending : type.KeysAscend) (fixed : ∀ child ∈ type.children, change child = child) :
    rebuilt change type = type := by
  have kept : rebuilt change type = rebuilt id type := rebuilt_congr fixed
  rw [kept, rebuilt_id regular ascending]

end Ty

end HeuristicTyping
