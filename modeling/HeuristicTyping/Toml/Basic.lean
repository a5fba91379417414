import HeuristicTyping.Toml.Moment

/-!
# TOML values

A `Toml` value is what a document or a part of it says. A table remembers how it came about,
because that decides what may still be added to it: a table under its own header is complete when
the next header comes, one that only lies on the way to another may get a header later, one made
by dotted keys may be extended by dotted keys, and an inline table is closed.
-/

set_option autoImplicit false

namespace HeuristicTyping

/-- How a table came about. -/
inductive TableOrigin where
  /-- It has a header of its own. -/
  | header
  /-- It lies on the way to a table with a header. -/
  | implied
  /-- It was made by dotted keys. -/
  | dotted
  /-- It is written as a value. -/
  | inlined
deriving DecidableEq, Repr

/-- A value of a TOML document. -/
inductive Toml where
  | integer (value : Int)
  | float (text : String)
  | boolean (value : Bool)
  | text (value : String)
  | moment (value : Moment)
  | array (items : List Toml)
  | table (origin : TableOrigin) (entries : List (String × Toml))
  /-- The tables under array headers of one name. -/
  | tables (items : List (List (String × Toml)))

namespace Toml

/-- The entries of a table. -/
abbrev Entries := List (String × Toml)

/-- Changes the value of a key, or gives it one. -/
def setEntry (key : String) (value : Toml) : Entries → Entries
  | [] => [(key, value)]
  | (other, old) :: entries =>
      if other = key then (key, value) :: entries else (other, old) :: setEntry key value entries

/-- Changes the entries of the last of several tables. -/
def changeLast (change : Entries → Option Entries) : List Entries → Option (List Entries)
  | [] => none
  | [last] => (change last).map fun changed => [changed]
  | first :: rest => (changeLast change rest).map fun changed => first :: changed

/-- Assigns a value to a key, which must be new. A dotted key goes through tables that are made on
the way or lie on the way to others, and through the last of several tables of one name. It ends in
a table that dotted keys made. -/
def assign (value : Toml) : (path : List String) → (key : String) → Entries → Option Entries
  | [], key, entries =>
      match entries.lookup key with
      | none => some (setEntry key value entries)
      | some _ => none
  | step :: path, key, entries =>
      match entries.lookup step with
      | none => do
          let inner ← assign value path key []
          return setEntry step (.table .dotted inner) entries
      | some (.table .dotted inner) => do
          let inner ← assign value path key inner
          return setEntry step (.table .dotted inner) entries
      | some (.table .implied inner) => do
          if path.isEmpty then none
          let inner ← assign value path key inner
          return setEntry step (.table .implied inner) entries
      | some (.tables items) => do
          if path.isEmpty then none
          let items ← changeLast (assign value path key) items
          return setEntry step (.tables items) entries
      | _ => none

/-- Changes the entries of the table at the end of a path. A table that is missing on the way is
implied, and of several tables of one name the last is meant. -/
def changeAt (change : Entries → Option Entries) :
    (path : List String) → Entries → Option Entries
  | [], entries => change entries
  | step :: path, entries =>
      match entries.lookup step with
      | none => do
          let inner ← changeAt change path []
          return setEntry step (.table .implied inner) entries
      | some (.table .inlined _) => none
      | some (.table origin inner) => do
          let inner ← changeAt change path inner
          return setEntry step (.table origin inner) entries
      | some (.tables items) => do
          let items ← changeLast (changeAt change path) items
          return setEntry step (.tables items) entries
      | some _ => none

/-- Opens a table under its header. It must be new, or at most be implied by others. -/
def openTable (key : String) (entries : Entries) : Option Entries :=
  match entries.lookup key with
  | none => some (setEntry key (.table .header []) entries)
  | some (.table .implied inner) => some (setEntry key (.table .header inner) entries)
  | some _ => none

/-- Adds a table under an array header. -/
def addTable (key : String) (entries : Entries) : Option Entries :=
  match entries.lookup key with
  | none => some (setEntry key (.tables [[]]) entries)
  | some (.tables items) => some (setEntry key (.tables (items ++ [[]])) entries)
  | some _ => none

end Toml

/-- A key, split at its dots into the way to a table and the name in it. -/
structure TomlKey where
  path : List String := []
  name : String
deriving DecidableEq, Repr

/-- All parts of a key. -/
def TomlKey.parts (key : TomlKey) : List String := key.path ++ [key.name]

/-- A line of a document that says something. -/
inductive TomlLine where
  | assignment (key : TomlKey) (value : Toml)
  | tableHeader (key : TomlKey)
  | arrayHeader (key : TomlKey)

/-- The root table of a document, and the way to the table that assignments go to. -/
structure TomlDocument where
  root : Toml.Entries := []
  current : List String := []

namespace TomlDocument

/-- The document with a further line, if the line may stand there. -/
def add (document : TomlDocument) : TomlLine → Option TomlDocument
  | .assignment key value => do
      let root ←
        Toml.changeAt (Toml.assign value key.path key.name) document.current document.root
      return { document with root }
  | .tableHeader key => do
      let root ← Toml.changeAt (Toml.openTable key.name) key.path document.root
      return { root, current := key.parts }
  | .arrayHeader key => do
      let root ← Toml.changeAt (Toml.addTable key.name) key.path document.root
      return { root, current := key.parts }

/-- The root table of the document with the given lines. -/
def ofLines? (lines : List TomlLine) : Option Toml.Entries :=
  (lines.foldlM add {}).map root

end TomlDocument

end HeuristicTyping
