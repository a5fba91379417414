import HeuristicTyping.Registry.Basic
import Mathlib.Data.List.Nodup

/-!
# Registries as one family of tables

Methods of instances and of types, functions, and fields of both scopes are kept in five tables.
`Shelf` names them, so that a fact about registrations is stated and proved once. What registries
say is read off `Registries.entries`: a registration goes behind the others of its key, and the
removal of a file leaves out the registrations that the file made.
-/

set_option autoImplicit false

namespace HeuristicTyping

/-- A table of the registries. -/
inductive Shelf where
  | methods (typeLevel : Bool)
  | functions
  | fields (scope : FieldScope)
deriving DecidableEq

def Shelf.precedence : Shelf → Precedence
  | .methods _ | .functions => .latest
  | .fields _ => .earliest

/-- The registration that answers. -/
def Precedence.winner : Precedence → List Registration → Option Registration
  | .latest, registrations => registrations.getLast?
  | .earliest, registrations => registrations.head?

theorem Precedence.mem_of_winner {precedence : Precedence} {registrations : List Registration}
    {entry : Registration} (wins : precedence.winner registrations = some entry) :
    entry ∈ registrations := by
  cases precedence with
  | latest => exact List.mem_of_getLast? wins
  | earliest => exact List.mem_of_head? wins

/-! ### Tables -/

namespace RegistryTable

theorem get?_eq_winner (table : RegistryTable) (owner name : String) :
    table.get? owner name =
      (table.precedence.winner (table.registrations { owner, name })).map Registration.node := by
  unfold get?
  cases table.precedence <;> rfl

theorem lookup?_none (table : RegistryTable) (owner name : String) :
    table.lookup? owner name none = table.get? owner name := by
  unfold lookup?
  cases table.get? owner name <;> rfl

theorem entry_of_get? {table : RegistryTable} {owner name : String} {node : NodeId}
    (held : table.get? owner name = some node) :
    ∃ entry ∈ table.registrations { owner, name }, entry.node = node := by
  rw [get?_eq_winner, Option.map_eq_some_iff] at held
  obtain ⟨entry, wins, named⟩ := held
  exact ⟨entry, Precedence.mem_of_winner wins, named⟩

theorem entry_of_lookup? {table : RegistryTable} {owner name : String} {index : Option TypeIndex}
    {node : NodeId} (held : table.lookup? owner name index = some node) :
    ∃ holder, ∃ entry ∈ table.registrations { owner := holder, name }, entry.node = node := by
  unfold lookup? at held
  split at held
  · rename_i direct
    cases held
    exact ⟨owner, entry_of_get? direct⟩
  · obtain ⟨holder, _, found⟩ := List.exists_of_findSome?_eq_some held
    exact ⟨holder, entry_of_get? found⟩
  · cases held

/-- No key has two rows. -/
def Distinct (table : RegistryTable) : Prop :=
  (table.rows.map Prod.fst).Nodup

theorem mem_keys_insertRow {key other : MemberKey} {registration : Registration}
    {rows : List (MemberKey × List Registration)} :
    other ∈ (insertRow key registration rows).map Prod.fst ↔
      other = key ∨ other ∈ rows.map Prod.fst := by
  induction rows with
  | nil => simp [insertRow]
  | cons row rows ih =>
      obtain ⟨held, registrations⟩ := row
      by_cases same : held = key
      · simp [insertRow, same]
      · simp only [insertRow, if_neg same, List.map_cons, List.mem_cons, ih]
        tauto

theorem distinct_insertRow {key : MemberKey} {registration : Registration}
    {rows : List (MemberKey × List Registration)} (distinct : (rows.map Prod.fst).Nodup) :
    ((insertRow key registration rows).map Prod.fst).Nodup := by
  induction rows with
  | nil => simp [insertRow]
  | cons row rows ih =>
      obtain ⟨held, registrations⟩ := row
      rw [List.map_cons, List.nodup_cons] at distinct
      by_cases same : held = key
      · simpa [insertRow, same] using distinct
      · rw [insertRow, if_neg same, List.map_cons, List.nodup_cons]
        refine ⟨?_, ih distinct.2⟩
        rw [mem_keys_insertRow]
        rintro (rfl | among)
        · exact same rfl
        · exact distinct.1 among

theorem distinct_register {table : RegistryTable} (distinct : table.Distinct)
    (owner name : String) (node : NodeId) (file : Option FileId) :
    (table.register owner name node file).2.Distinct :=
  distinct_insertRow distinct

theorem distinct_removeFile {table : RegistryTable} (distinct : table.Distinct)
    (file : FileId) : (table.removeFile file).2.Distinct := by
  unfold Distinct at distinct ⊢
  have kept : ((table.removeFile file).2.rows.map Prod.fst).Sublist (table.rows.map Prod.fst) := by
    simp only [removeFile]
    refine (List.filter_sublist.map Prod.fst).trans ?_
    simp [List.map_map, Function.comp_def]
  exact distinct.sublist kept

/-- A file whose registrations were removed is left out of every key, also of those keys that have
lost their row with it. -/
theorem registrations_removeFile {table : RegistryTable} (distinct : table.Distinct)
    (file : FileId) (key : MemberKey) :
    (table.removeFile file).2.registrations key =
      (table.registrations key).filter fun registration => registration.file != some file := by
  unfold Distinct at distinct
  simp only [removeFile, registrations]
  generalize table.rows = rows at distinct
  induction rows with
  | nil => rfl
  | cons row rows ih =>
      obtain ⟨held, registrations⟩ := row
      rw [List.map_cons, List.nodup_cons] at distinct
      have rest := ih distinct.2
      by_cases same : key = held
      · subst same
        have unheld : rows.lookup key = none := by
          rw [List.lookup_eq_none_iff]
          intro other among
          have apart : key ≠ other.1 := fun equal =>
            distinct.1 (List.mem_map.mpr ⟨other, among, equal.symm⟩)
          simpa using apart
        rw [unheld] at rest
        by_cases gone : (registrations.filter fun entry => entry.file != some file) = []
        · simp only [List.map_cons, List.filter_cons, gone, List.isEmpty_nil, Bool.not_true,
            Bool.false_eq_true, if_false, rest, List.lookup_cons_self, Option.getD_some]
          simp
        · have filled : (registrations.filter fun entry => entry.file != some file).isEmpty =
              false := by simpa using gone
          simp only [List.map_cons, List.filter_cons, filled, Bool.not_false, if_true,
            List.lookup_cons_self, Option.getD_some]
      · have missed : (key == held) = false := by simpa using same
        simp only [List.map_cons, List.filter_cons, List.lookup_cons, missed]
        split
        · simpa [List.lookup_cons, missed] using rest
        · exact rest

end RegistryTable

/-! ### All tables together -/

namespace Registries

def table (registries : Registries) : Shelf → RegistryTable
  | .methods typeLevel => registries.methods.table typeLevel
  | .functions => registries.methods.functions
  | .fields scope => registries.fields scope

/-- The registrations of a key, earliest first. -/
def entries (registries : Registries) (shelf : Shelf) (key : MemberKey) : List Registration :=
  (registries.table shelf).registrations key

@[simp] theorem entries_empty (shelf : Shelf) (key : MemberKey) :
    ({} : Registries).entries shelf key = [] := by
  rcases shelf with (_ | _) | _ | (_ | _) <;> rfl

/-- Makes a registration in any of the tables. -/
def enroll (registries : Registries) (shelf : Shelf) (key : MemberKey) (node : NodeId)
    (file : Option FileId) : Registries :=
  match shelf with
  | .methods typeLevel =>
      { registries with
        methods := registries.methods.register key.owner key.name typeLevel node file }
  | .functions =>
      { registries with
        methods := { registries.methods with
          functions := (registries.methods.functions.register key.owner key.name node file).2 } }
  | .fields scope => (registries.registerField scope key.owner key.name node file).2

theorem table_enroll (registries : Registries) (shelf other : Shelf) (key : MemberKey)
    (node : NodeId) (file : Option FileId) :
    (registries.enroll shelf key node file).table other =
      if other = shelf then ((registries.table shelf).register key.owner key.name node file).2
      else registries.table other := by
  rcases shelf with (_ | _) | _ | (_ | _) <;> rcases other with (_ | _) | _ | (_ | _) <;> rfl

theorem entries_enroll (registries : Registries) (shelf other : Shelf) (key wanted : MemberKey)
    (node : NodeId) (file : Option FileId) :
    (registries.enroll shelf key node file).entries other wanted =
      registries.entries other wanted ++
        if other = shelf ∧ wanted = key then [Registration.mk node file] else [] := by
  unfold entries
  rw [table_enroll]
  by_cases here : other = shelf
  · subst here
    by_cases same : wanted = key
    · subst same
      simpa using (registries.table other).registrations_register_self wanted.owner wanted.name
        node file
    · simpa [same] using (registries.table other).registrations_register_of_ne node file same
  · simp [here]

theorem table_removeFile (registries : Registries) (file : FileId) (shelf : Shelf) :
    (registries.removeFile file).2.table shelf = ((registries.table shelf).removeFile file).2 := by
  rcases shelf with (_ | _) | _ | (_ | _) <;> rfl

/-- Every table has the precedence of its shelf, and no key has two rows. -/
structure Sound (registries : Registries) : Prop where
  precedence : ∀ shelf, (registries.table shelf).precedence = shelf.precedence
  distinct : ∀ shelf, (registries.table shelf).Distinct

namespace Sound

theorem empty : ({} : Registries).Sound where
  precedence := by rintro ((_ | _) | _ | (_ | _)) <;> rfl
  distinct := by rintro ((_ | _) | _ | (_ | _)) <;> exact List.nodup_nil

theorem enroll {registries : Registries} (sound : registries.Sound) (shelf : Shelf)
    (key : MemberKey) (node : NodeId) (file : Option FileId) :
    (registries.enroll shelf key node file).Sound where
  precedence other := by
    rw [table_enroll]
    split
    · rename_i here
      rw [here]
      exact sound.precedence shelf
    · exact sound.precedence other
  distinct other := by
    rw [table_enroll]
    split
    · exact RegistryTable.distinct_register (sound.distinct shelf) _ _ _ _
    · exact sound.distinct other

theorem removeFile {registries : Registries} (sound : registries.Sound) (file : FileId) :
    (registries.removeFile file).2.Sound where
  precedence shelf := by
    rw [table_removeFile]
    exact sound.precedence shelf
  distinct shelf := by
    rw [table_removeFile]
    exact RegistryTable.distinct_removeFile (sound.distinct shelf) file

theorem entries_removeFile {registries : Registries} (sound : registries.Sound) (file : FileId)
    (shelf : Shelf) (key : MemberKey) :
    (registries.removeFile file).2.entries shelf key =
      (registries.entries shelf key).filter fun entry => entry.file != some file := by
  unfold entries
  rw [table_removeFile]
  exact RegistryTable.registrations_removeFile (sound.distinct shelf) file key

theorem get?_eq {registries : Registries} (sound : registries.Sound) (shelf : Shelf)
    (owner name : String) :
    (registries.table shelf).get? owner name =
      (shelf.precedence.winner (registries.entries shelf { owner, name })).map
        Registration.node := by
  rw [RegistryTable.get?_eq_winner, sound.precedence shelf]
  rfl

/-- Registries with the same entries answer every look-up alike. -/
theorem lookup?_congr {registries other : Registries} (sound : registries.Sound)
    (otherSound : other.Sound)
    (same : ∀ shelf key, registries.entries shelf key = other.entries shelf key) (shelf : Shelf)
    (owner name : String) (index : Option TypeIndex) :
    (registries.table shelf).lookup? owner name index =
      (other.table shelf).lookup? owner name index := by
  have direct : ∀ holder, (registries.table shelf).get? holder name =
      (other.table shelf).get? holder name := by
    intro holder
    rw [sound.get?_eq, otherSound.get?_eq, same]
  simp only [RegistryTable.lookup?, RegistryTable.inherited?, direct]

end Sound

end Registries

end HeuristicTyping
