import HeuristicTyping.Proofs.Registries
import Mathlib.Data.List.Dedup
import Mathlib.Data.List.Induction

/-!
# Registries as logs with erasure

A table is changed by registrations, by removals of files and by clearing. What it says after a
list of changes is read off the list alone: a registration survives when no later change takes it
back, and the table holds the survivors, those of a key in the order of time. A registration that
another one shadows is held as well, so it answers again as soon as the other one goes.

The registries change one table or several at a time. Every table sees its own part of a history,
so the removal of a file leaves the registries as they would be without the registrations that the
file made.
-/

set_option autoImplicit false

namespace HeuristicTyping

namespace RegistryTable

/-- What may happen to a table. -/
inductive Change where
  | register (owner name : String) (node : NodeId) (file : Option FileId)
  | removeFile (file : FileId)
  | clear
deriving DecidableEq, Repr

/-- The table after a change. -/
def change (table : RegistryTable) : Change → RegistryTable
  | .register owner name node file => (table.register owner name node file).2
  | .removeFile file => (table.removeFile file).2
  | .clear => table.clear

/-- The table after changes that began with an empty one. -/
def after (precedence : Precedence) (changes : List Change) : RegistryTable :=
  changes.foldl change { precedence }

/-- A registration together with the key that it is for. -/
abbrev Entry := MemberKey × Registration

namespace Change

/-- The entry that a change makes. -/
def made? : Change → Option Entry
  | .register owner name node file => some ({ owner, name }, { node, file })
  | .removeFile _ | .clear => none

/-- Whether a change leaves alone what was registered before it. -/
def spares (entry : Entry) : Change → Bool
  | .register .. => true
  | .removeFile file => entry.2.file != some file
  | .clear => false

/-- Whether a change is a registration that the file makes. -/
def madeBy (file : FileId) (change : Change) : Bool :=
  change.made?.any fun entry => entry.2.file == some file

end Change

/-- The entries that no later change takes back, in the order of time. -/
def surviving : List Change → List Entry
  | [] => []
  | change :: later =>
      (change.made?.filter fun entry => later.all fun next => next.spares entry).toList ++
        surviving later

/-- The registrations of a key among entries. -/
def forKey (key : MemberKey) (entries : List Entry) : List Registration :=
  (entries.filter fun entry => entry.1 = key).map Prod.snd

/-! ### The survivors of a longer list of changes -/

theorem surviving_concat (changes : List Change) (last : Change) :
    surviving (changes ++ [last]) =
      (surviving changes).filter (fun entry => last.spares entry) ++ last.made?.toList := by
  induction changes with
  | nil => cases last <;> simp [surviving, Change.made?]
  | cons first changes ih =>
      simp only [List.cons_append, surviving, ih, List.filter_append, List.append_assoc,
        List.all_append, List.all_cons, List.all_nil, Bool.and_true]
      congr 1
      cases first.made? with
      | none => rfl
      | some entry =>
          by_cases early : changes.all (fun next => next.spares entry) <;>
            by_cases late : last.spares entry <;> simp [Option.filter, early, late]

theorem spares_of_madeBy {file : FileId} {change : Change} (own : change.madeBy file)
    (entry : Entry) : change.spares entry := by
  cases change with
  | register owner name node maker => rfl
  | removeFile removed => cases own
  | clear => cases own

/-- Without the registrations of a file, the survivors are those of other files. -/
theorem surviving_without (file : FileId) (changes : List Change) :
    surviving (changes.filter fun change => !change.madeBy file) =
      (surviving changes).filter fun entry => entry.2.file != some file := by
  induction changes with
  | nil => rfl
  | cons first changes ih =>
      have spared : ∀ entry, ((changes.filter fun change => !change.madeBy file).all fun next =>
          next.spares entry) = changes.all fun next => next.spares entry := by
        intro entry
        rw [Bool.eq_iff_iff, List.all_eq_true, List.all_eq_true]
        constructor
        · intro others next among
          by_cases own : next.madeBy file
          · exact spares_of_madeBy own entry
          · exact others next (List.mem_filter.mpr ⟨among, by simpa using own⟩)
        · intro all next among
          exact all next (List.mem_of_mem_filter among)
      rw [surviving, List.filter_append, ← ih]
      cases made : first.made? with
      | none => simp [Change.madeBy, made, surviving]
      | some entry =>
          by_cases own : entry.2.file = some file
          · have out : first.madeBy file = true := by simp [Change.madeBy, made, own]
            simp [out, Option.filter, apply_ite, own]
          · have stays : first.madeBy file = false := by simp [Change.madeBy, made, own]
            simp only [List.filter_cons, stays, Bool.not_false, if_true, surviving, made,
              Option.filter_some, spared]
            split <;> simp [own]

/-! ### A table against its log -/

/-- All that a table holds, row by row. -/
def contents (rows : List (MemberKey × List Registration)) : List Entry :=
  rows.flatMap fun row => row.2.map fun registration => (row.1, registration)

theorem contents_insertRow (key : MemberKey) (registration : Registration)
    (rows : List (MemberKey × List Registration)) :
    (contents (insertRow key registration rows)).Perm (contents rows ++ [(key, registration)]) := by
  induction rows with
  | nil => simp [insertRow, contents]
  | cons row rows ih =>
      obtain ⟨held, registrations⟩ := row
      unfold contents at ih ⊢
      by_cases same : held = key
      · subst same
        simp only [insertRow, if_true, List.flatMap_cons, List.map_append, List.map_cons,
          List.map_nil, List.append_assoc]
        exact List.perm_append_comm.append_left _
      · simp only [insertRow, if_neg same, List.flatMap_cons, List.append_assoc]
        exact ih.append_left _

theorem contents_removeFile (table : RegistryTable) (file : FileId) :
    contents (table.removeFile file).2.rows =
      (contents table.rows).filter fun entry => entry.2.file != some file := by
  simp only [removeFile, contents]
  induction table.rows with
  | nil => rfl
  | cons row rows ih =>
      simp only [List.map_cons, List.filter_cons, List.flatMap_cons, List.filter_append, ← ih]
      cases kept : row.2.filter fun registration => registration.file != some file with
      | nil =>
          have none : (row.2.map fun registration => (row.1, registration)).filter
              (fun entry : Entry => entry.2.file != some file) = [] := by
            simpa [List.filter_map, Function.comp_def] using kept
          simp [none]
      | cons registration others =>
          simp [List.filter_map, Function.comp_def, kept]

/-- The table holds exactly these entries. -/
structure Holds (table : RegistryTable) (entries : List Entry) : Prop where
  distinct : table.Distinct
  filled : ∀ row ∈ table.rows, row.2 ≠ []
  registrations : ∀ key, table.registrations key = forKey key entries
  contents : (contents table.rows).Perm entries

theorem filled_insertRow {key : MemberKey} {registration : Registration}
    {rows : List (MemberKey × List Registration)} (filled : ∀ row ∈ rows, row.2 ≠ []) :
    ∀ row ∈ insertRow key registration rows, row.2 ≠ [] := by
  induction rows with
  | nil => simp [insertRow]
  | cons first rows ih =>
      intro row among
      rw [insertRow] at among
      split at among
      · cases List.mem_cons.mp among with
        | inl here => simp [here]
        | inr there => exact filled row (List.mem_cons_of_mem _ there)
      · cases List.mem_cons.mp among with
        | inl here => exact filled row (here ▸ List.mem_cons_self)
        | inr there =>
            exact ih (fun row inside => filled row (List.mem_cons_of_mem _ inside)) row there

namespace Holds

variable {table : RegistryTable} {entries : List Entry}

theorem register (holds : table.Holds entries) (owner name : String) (node : NodeId)
    (file : Option FileId) :
    (table.register owner name node file).2.Holds
      (entries ++ [(MemberKey.mk owner name, Registration.mk node file)]) where
  distinct := distinct_register holds.distinct owner name node file
  filled := filled_insertRow holds.filled
  registrations key := by
    by_cases same : key = { owner, name }
    · subst same
      rw [registrations_register_self, holds.registrations]
      simp [forKey]
    · rw [registrations_register_of_ne _ _ _ same, holds.registrations]
      simp [forKey, List.filter_append, Ne.symm same]
  contents := (contents_insertRow _ _ _).trans (holds.contents.append_right _)

theorem removeFile (holds : table.Holds entries) (file : FileId) :
    (table.removeFile file).2.Holds
      (entries.filter fun entry => entry.2.file != some file) where
  distinct := distinct_removeFile holds.distinct file
  filled row among := by
    have kept := (List.mem_filter.mp among).2
    simpa using kept
  registrations key := by
    rw [registrations_removeFile holds.distinct, holds.registrations]
    simp only [forKey, List.filter_map, List.filter_filter, Function.comp_def, Bool.and_comm]
  contents := by
    rw [contents_removeFile]
    exact holds.contents.filter _

theorem clear : table.clear.Holds [] where
  distinct := List.nodup_nil
  filled := by simp [RegistryTable.clear]
  registrations _ := rfl
  contents := List.Perm.nil

theorem change (holds : table.Holds entries) (change : Change) :
    (table.change change).Holds
      (entries.filter (fun entry => change.spares entry) ++ change.made?.toList) := by
  cases change with
  | register owner name node file =>
      simpa [RegistryTable.change, Change.spares, Change.made?] using
        holds.register owner name node file
  | removeFile file =>
      simpa [RegistryTable.change, Change.spares, Change.made?] using holds.removeFile file
  | clear => simpa [RegistryTable.change, Change.spares, Change.made?] using clear

/-- After any list of changes a table holds what survives of it. -/
theorem after (precedence : Precedence) (changes : List Change) :
    (RegistryTable.after precedence changes).Holds (surviving changes) := by
  induction changes using List.reverseRecOn with
  | nil => exact (clear : (RegistryTable.clear { precedence }).Holds [])
  | append_singleton changes last ih =>
      rw [surviving_concat, RegistryTable.after, List.foldl_append]
      exact ih.change last

/-! ### What a table answers -/

theorem get?_eq (holds : table.Holds entries) (owner name : String) :
    table.get? owner name =
      (table.precedence.winner (forKey { owner, name } entries)).map Registration.node := by
  rw [get?_eq_winner, holds.registrations]

theorem register_answers (holds : table.Holds entries) (owner name : String) (node : NodeId)
    (file : Option FileId) :
    (table.register owner name node file).1 = true ↔
      table.precedence = .latest ∨ forKey { owner, name } entries = [] := by
  rw [← holds.registrations]
  cases answering : table.precedence <;> simp [RegistryTable.register, answering]

theorem removed_eq (holds : table.Holds entries) (file : FileId) :
    (table.removeFile file).1 = entries.countP fun entry => entry.2.file == some file := by
  have plain : table.rows.flatMap Prod.snd = (RegistryTable.contents table.rows).map Prod.snd := by
    simp [RegistryTable.contents, List.map_flatMap, Function.comp_def]
  calc (table.removeFile file).1
      = (table.rows.flatMap Prod.snd).countP fun entry => entry.file == some file :=
        List.countP_eq_length_filter.symm
    _ = (RegistryTable.contents table.rows).countP fun entry => entry.2.file == some file := by
        rw [plain, List.countP_map]
        rfl
    _ = entries.countP fun entry => entry.2.file == some file := holds.contents.countP_eq _

theorem mem_keys (holds : table.Holds entries) (key : MemberKey) :
    key ∈ table.rows.map Prod.fst ↔ key ∈ entries.map Prod.fst := by
  rw [← (holds.contents.map Prod.fst).mem_iff]
  constructor
  · intro among
    obtain ⟨row, inside, rfl⟩ := List.mem_map.mp among
    obtain ⟨registration, registered⟩ := List.exists_mem_of_ne_nil _ (holds.filled row inside)
    refine List.mem_map.mpr ⟨(row.1, registration), ?_, rfl⟩
    exact List.mem_flatMap.mpr ⟨row, inside, List.mem_map.mpr ⟨registration, registered, rfl⟩⟩
  · intro among
    obtain ⟨entry, inside, rfl⟩ := List.mem_map.mp among
    obtain ⟨row, held, listed⟩ := List.mem_flatMap.mp inside
    obtain ⟨registration, _, rfl⟩ := List.mem_map.mp listed
    exact List.mem_map.mpr ⟨row, held, rfl⟩

theorem size_eq (holds : table.Holds entries) :
    table.size = (entries.map Prod.fst).dedup.length := by
  have same : (table.rows.map Prod.fst).Perm (entries.map Prod.fst).dedup := by
    rw [List.perm_ext_iff_of_nodup holds.distinct (List.nodup_dedup _)]
    intro key
    rw [holds.mem_keys, List.mem_dedup]
  rw [← same.length_eq, List.length_map]
  rfl

end Holds

@[simp] theorem precedence_change (table : RegistryTable) (change : Change) :
    (table.change change).precedence = table.precedence := by
  cases change <;> rfl

@[simp] theorem precedence_after (precedence : Precedence) (changes : List Change) :
    (after precedence changes).precedence = precedence := by
  induction changes using List.reverseRecOn with
  | nil => rfl
  | append_singleton changes last ih =>
      rw [after, List.foldl_append]
      exact (precedence_change _ last).trans ih

end RegistryTable

/-! ### Histories of all tables -/

namespace Registries

/-- What may happen to the registries: to all tables, or to the methods and the fields of a scope
apart from the others. -/
inductive Change where
  | method (owner name : String) (typeLevel : Bool) (node : NodeId) (file : Option FileId)
  | definition (defined : Definition) (node : NodeId) (file : Option FileId)
  | function (name : String) (node : NodeId) (file : Option FileId)
  | field (scope : FieldScope) (owner name : String) (node : NodeId) (file : Option FileId)
  | removeFile (file : FileId)
  | removeFileOfMethods (file : FileId)
  | removeFileOfFields (scope : FieldScope) (file : FileId)
  | clear
  | clearMethods
  | clearFields (scope : FieldScope)

/-- The registries after a change. -/
def change (registries : Registries) : Change → Registries
  | .method owner name typeLevel node file =>
      { registries with methods := registries.methods.register owner name typeLevel node file }
  | .definition defined node file =>
      { registries with methods := registries.methods.registerDefinition defined node file }
  | .function name node file =>
      { registries with methods := registries.methods.registerFunction name node file }
  | .field scope owner name node file => (registries.registerField scope owner name node file).2
  | .removeFile file => (registries.removeFile file).2
  | .removeFileOfMethods file =>
      { registries with methods := (registries.methods.removeFile file).2 }
  | .removeFileOfFields scope file =>
      registries.withFields scope ((registries.fields scope).removeFile file).2
  | .clear => registries.clear
  | .clearMethods => { registries with methods := registries.methods.clear }
  | .clearFields scope => registries.withFields scope (registries.fields scope).clear

/-- The registries after a history that began with empty ones. -/
def after (history : List Change) : Registries :=
  history.foldl change {}

namespace Change

/-- What a change does to one of the tables, if anything. -/
def on? (shelf : Shelf) : Change → Option RegistryTable.Change
  | .method owner name typeLevel node file =>
      if shelf = .methods typeLevel then some (.register owner name node file) else none
  | .definition defined node file =>
      if shelf = .methods defined.typeLevel then
        some (.register defined.owner defined.name node file)
      else none
  | .function name node file =>
      if shelf = .functions then some (.register MethodRegistry.topLevel name node file) else none
  | .field scope owner name node file =>
      if shelf = .fields scope then some (.register owner name node file) else none
  | .removeFile file => some (.removeFile file)
  | .removeFileOfMethods file =>
      match shelf with
      | .methods _ | .functions => some (.removeFile file)
      | .fields _ => none
  | .removeFileOfFields scope file =>
      if shelf = .fields scope then some (.removeFile file) else none
  | .clear => some .clear
  | .clearMethods =>
      match shelf with
      | .methods _ | .functions => some .clear
      | .fields _ => none
  | .clearFields scope => if shelf = .fields scope then some .clear else none

/-- Whether a change is a registration that the file makes. -/
def madeBy (file : FileId) : Change → Bool
  | .method _ _ _ _ maker | .definition _ _ maker | .function _ _ maker | .field _ _ _ _ maker =>
      maker == some file
  | _ => false

/-- Every table sees the registrations of a file as such. -/
theorem madeBy_of_on? {file : FileId} {shelf : Shelf} {change : Change}
    {own : RegistryTable.Change} (seen : change.on? shelf = some own) :
    own.madeBy file = change.madeBy file := by
  cases change with
  | removeFile | clear =>
      cases seen
      rfl
  | method | definition | function | field | removeFileOfMethods | removeFileOfFields
  | clearMethods | clearFields =>
      simp only [on?] at seen
      split at seen <;> cases seen <;> rfl

end Change

theorem table_enroll_change (registries : Registries) (shelf other : Shelf) (key : MemberKey)
    (node : NodeId) (file : Option FileId) :
    (registries.enroll shelf key node file).table other =
      (if other = shelf then some (RegistryTable.Change.register key.owner key.name node file)
        else none).elim (registries.table other) (registries.table other).change := by
  rw [table_enroll]
  by_cases here : other = shelf
  · subst here
    simp [RegistryTable.change]
  · simp [here]

theorem table_change (registries : Registries) (change : Change) (shelf : Shelf) :
    (registries.change change).table shelf =
      (change.on? shelf).elim (registries.table shelf) (registries.table shelf).change := by
  cases change with
  | method owner name typeLevel node file =>
      exact registries.table_enroll_change (.methods typeLevel) shelf { owner, name } node file
  | definition defined node file =>
      exact registries.table_enroll_change (.methods defined.typeLevel) shelf
        { owner := defined.owner, name := defined.name } node file
  | function name node file =>
      exact registries.table_enroll_change .functions shelf
        { owner := MethodRegistry.topLevel, name } node file
  | field scope owner name node file =>
      exact registries.table_enroll_change (.fields scope) shelf { owner, name } node file
  | removeFile | removeFileOfMethods | clear | clearMethods =>
      rcases shelf with (_ | _) | _ | (_ | _) <;> rfl
  | removeFileOfFields scope | clearFields scope =>
      rcases shelf with (_ | _) | _ | (_ | _) <;> cases scope <;> rfl

/-- Every table goes through its own part of a history. -/
theorem table_after (history : List Change) (shelf : Shelf) :
    (after history).table shelf =
      RegistryTable.after shelf.precedence (history.filterMap (Change.on? shelf)) := by
  induction history using List.reverseRecOn with
  | nil => rcases shelf with (_ | _) | _ | (_ | _) <;> rfl
  | append_singleton history last ih =>
      have stepped : (after (history ++ [last])).table shelf =
          ((after history).change last).table shelf := by
        rw [after, List.foldl_append]
        rfl
      rw [stepped, table_change, ih, List.filterMap_append]
      cases seen : last.on? shelf with
      | none => simp [seen]
      | some own => simp [seen, RegistryTable.after]

theorem Sound.after (history : List Change) : (Registries.after history).Sound where
  precedence shelf := by rw [table_after, RegistryTable.precedence_after]
  distinct shelf := by
    rw [table_after]
    exact (RegistryTable.Holds.after _ _).distinct

theorem entries_after (history : List Change) (shelf : Shelf) (key : MemberKey) :
    (after history).entries shelf key =
      RegistryTable.forKey key
        (RegistryTable.surviving (history.filterMap (Change.on? shelf))) := by
  rw [entries, table_after, (RegistryTable.Holds.after _ _).registrations]

theorem on?_without (file : FileId) (history : List Change) (shelf : Shelf) :
    (history.filter fun change => !change.madeBy file).filterMap (Change.on? shelf) =
      (history.filterMap (Change.on? shelf)).filter fun change => !change.madeBy file := by
  induction history with
  | nil => rfl
  | cons first history ih =>
      cases seen : first.on? shelf with
      | none => cases own : first.madeBy file <;> simp [own, seen, ih]
      | some change =>
          have same : change.madeBy file = first.madeBy file := Change.madeBy_of_on? seen
          cases own : first.madeBy file <;> rw [own] at same <;> simp [own, same, seen, ih]

/-- The removal of a file leaves the entries of a history without its registrations. -/
theorem entries_removeFile_after (history : List Change) (file : FileId) (shelf : Shelf)
    (key : MemberKey) :
    ((after history).removeFile file).2.entries shelf key =
      (after (history.filter fun change => !change.madeBy file)).entries shelf key := by
  rw [(Sound.after history).entries_removeFile, entries_after, entries_after, on?_without,
    RegistryTable.surviving_without]
  simp only [RegistryTable.forKey, List.filter_map, List.filter_filter, Function.comp_def,
    Bool.and_comm]

/-- Both answer every look-up of a method, a function or a field alike. -/
structure AnswersLike (registries other : Registries) : Prop where
  method : ∀ owner name typeLevel index,
    registries.methods.lookup? owner name typeLevel index =
      other.methods.lookup? owner name typeLevel index
  function : ∀ name, registries.methods.function? name = other.methods.function? name
  field : ∀ scope owner name index,
    (registries.fields scope).lookup? owner name index =
      (other.fields scope).lookup? owner name index

theorem Sound.answersLike {registries other : Registries} (sound : registries.Sound)
    (otherSound : other.Sound)
    (same : ∀ shelf key, registries.entries shelf key = other.entries shelf key) :
    registries.AnswersLike other where
  method owner name typeLevel index :=
    sound.lookup?_congr otherSound same (.methods typeLevel) owner name index
  function name := by
    have found := sound.lookup?_congr otherSound same .functions MethodRegistry.topLevel name none
    rwa [RegistryTable.lookup?_none, RegistryTable.lookup?_none] at found
  field scope owner name index :=
    sound.lookup?_congr otherSound same (.fields scope) owner name index

theorem removeFile_answersLike (history : List Change) (file : FileId) :
    ((after history).removeFile file).2.AnswersLike
      (after (history.filter fun change => !change.madeBy file)) :=
  ((Sound.after history).removeFile file).answersLike (Sound.after _)
    (entries_removeFile_after history file)

end Registries

/-- A table answers from the registrations that survive the changes made to it: the first or the
last one of a key, by the precedence of the table. A registration answers at once when it is the
latest that counts or when its key has no survivor, the removal of a file counts the survivors of
the file, and the size counts the keys of survivors. The removal of a file from the registries
leaves every look-up as if the file had registered nothing. -/
theorem registries_answer_from_survivors :
    (∀ (precedence : Precedence) (changes : List RegistryTable.Change),
      (∀ owner name, (RegistryTable.after precedence changes).get? owner name =
        (precedence.winner (RegistryTable.forKey { owner, name }
          (RegistryTable.surviving changes))).map Registration.node) ∧
      (∀ owner name node file,
        ((RegistryTable.after precedence changes).register owner name node file).1 = true ↔
          precedence = .latest ∨
            RegistryTable.forKey { owner, name } (RegistryTable.surviving changes) = []) ∧
      (∀ file, ((RegistryTable.after precedence changes).removeFile file).1 =
        (RegistryTable.surviving changes).countP fun entry => entry.2.file == some file) ∧
      (RegistryTable.after precedence changes).size =
        ((RegistryTable.surviving changes).map Prod.fst).dedup.length) ∧
    ∀ (history : List Registries.Change) (file : FileId),
      ((Registries.after history).removeFile file).2.AnswersLike
        (Registries.after (history.filter fun change => !change.madeBy file)) := by
  refine ⟨fun precedence changes => ?_, Registries.removeFile_answersLike⟩
  have holds := RegistryTable.Holds.after precedence changes
  have answering := RegistryTable.precedence_after precedence changes
  refine ⟨fun owner name => ?_, fun owner name node file => ?_, holds.removed_eq, holds.size_eq⟩
  · rw [holds.get?_eq, answering]
  · rw [holds.register_answers, answering]

end HeuristicTyping
