import HeuristicTyping.TypeIndex.Basic

/-!
# Registration tables

A `RegistryTable` maps an owner and a name to the nodes registered for them. Every registration is
kept, in the order of time, and the policy of the table says which one answers. When the file
behind that one is removed, the next in line takes its place.
-/

set_option autoImplicit false

namespace HeuristicTyping

/-- Which of several registrations of a key answers. -/
inductive Precedence where
  | latest
  | earliest
deriving DecidableEq, Repr

/-- A node and the file that registered it. -/
structure Registration where
  node : NodeId
  file : Option FileId := none
deriving DecidableEq, Repr

/-- An owner and the name of one of its members. -/
structure MemberKey where
  owner : String
  name : String
deriving DecidableEq, Repr

/-- The registrations by key, those of a key in the order in which they were made. A key that has
none does not occur. -/
structure RegistryTable where
  precedence : Precedence
  rows : List (MemberKey × List Registration) := []
deriving DecidableEq, Repr

namespace RegistryTable

/-- The number of keys with a registration. -/
def size (table : RegistryTable) : Nat := table.rows.length

def isEmpty (table : RegistryTable) : Bool := table.rows.isEmpty

/-- The registrations of a key, earliest first. -/
def registrations (table : RegistryTable) (key : MemberKey) : List Registration :=
  (table.rows.lookup key).getD []

/-- Adds a registration behind those that its key has. -/
def insertRow (key : MemberKey) (registration : Registration) :
    List (MemberKey × List Registration) → List (MemberKey × List Registration)
  | [] => [(key, [registration])]
  | (other, registrations) :: rows =>
      if other = key then (other, registrations ++ [registration]) :: rows
      else (other, registrations) :: insertRow key registration rows

/-- Registers a node, and answers whether it is now the one that answers for its key. -/
def register (table : RegistryTable) (owner name : String) (node : NodeId)
    (file : Option FileId := none) : Bool × RegistryTable :=
  let key : MemberKey := { owner, name }
  let answers :=
    match table.precedence with
    | .latest => true
    | .earliest => (table.registrations key).isEmpty
  (answers, { table with rows := insertRow key { node, file } table.rows })

/-- The node registered for a member of exactly this owner. -/
def get? (table : RegistryTable) (owner name : String) : Option NodeId :=
  let registrations := table.registrations { owner, name }
  let winner :=
    match table.precedence with
    | .latest => registrations.getLast?
    | .earliest => registrations.head?
  winner.map Registration.node

/-- The node registered for a member of the first of the ancestors that has one. The owner itself
is passed over. -/
def inherited? (table : RegistryTable) (owner name : String) (ancestors : List String) :
    Option NodeId :=
  (ancestors.filter fun ancestor => ancestor != owner).findSome? fun ancestor =>
    table.get? ancestor name

/-- The node registered for a member of the owner or, where an index is given, of its nearest
ancestor that has one. -/
def lookup? (table : RegistryTable) (owner name : String) (index : Option TypeIndex) :
    Option NodeId :=
  match table.get? owner name, index with
  | some node, _ => some node
  | none, some index => table.inherited? owner name (index.ancestors owner)
  | none, none => none

/-- Removes the registrations of a file and answers how many there were. -/
def removeFile (table : RegistryTable) (file : FileId) : Nat × RegistryTable :=
  let removed := (table.rows.flatMap Prod.snd).filter fun registration =>
    registration.file == some file
  let rows := table.rows.map fun row =>
    (row.1, row.2.filter fun registration => registration.file != some file)
  (removed.length, { table with rows := rows.filter fun row => !row.2.isEmpty })

/-- Removes everything. -/
def clear (table : RegistryTable) : RegistryTable :=
  { table with rows := [] }

/-! ### Registrations after a change -/

theorem lookup_insertRow_self (rows : List (MemberKey × List Registration)) (key : MemberKey)
    (registration : Registration) :
    (insertRow key registration rows).lookup key =
      some ((rows.lookup key).getD [] ++ [registration]) := by
  induction rows with
  | nil => simp [insertRow]
  | cons row rows ih =>
      obtain ⟨other, registrations⟩ := row
      by_cases same : other = key
      · simp [insertRow, same]
      · have missed : (key == other) = false := by simpa using Ne.symm same
        simp [insertRow, same, List.lookup_cons, missed, ih]

theorem lookup_insertRow_of_ne (rows : List (MemberKey × List Registration))
    {key wanted : MemberKey} (registration : Registration) (distinct : wanted ≠ key) :
    (insertRow key registration rows).lookup wanted = rows.lookup wanted := by
  induction rows with
  | nil =>
      have missed : (wanted == key) = false := by simpa using distinct
      simp [insertRow, List.lookup_cons, missed]
  | cons row rows ih =>
      obtain ⟨other, registrations⟩ := row
      by_cases same : other = key
      · have missed : (wanted == key) = false := by simpa using distinct
        simp [insertRow, same, List.lookup_cons, missed]
      · simp [insertRow, same, List.lookup_cons, ih]

/-- A registration goes behind the earlier ones of its key. -/
theorem registrations_register_self (table : RegistryTable) (owner name : String) (node : NodeId)
    (file : Option FileId) :
    (table.register owner name node file).2.registrations { owner, name } =
      table.registrations { owner, name } ++ [Registration.mk node file] := by
  simp only [register, registrations, lookup_insertRow_self, Option.getD_some]

/-- A registration leaves other keys alone. -/
theorem registrations_register_of_ne (table : RegistryTable) {owner name : String}
    {key : MemberKey} (node : NodeId) (file : Option FileId) (distinct : key ≠ { owner, name }) :
    (table.register owner name node file).2.registrations key = table.registrations key := by
  simp only [register, registrations, lookup_insertRow_of_ne table.rows _ distinct]

end RegistryTable

end HeuristicTyping
