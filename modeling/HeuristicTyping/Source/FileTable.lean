import HeuristicTyping.Source.Path

/-!
# Interned files

A `FileTable` gives each file a small number on first sight and keeps the spelling that was seen
first. Numbers are handed out in order and never taken back.
-/

set_option autoImplicit false

namespace HeuristicTyping

/-- The number of a file in its table. -/
abbrev FileId := Nat

/-- The text of a file number. -/
def FileId.render (file : FileId) : String :=
  "file#" ++ toString file

/-- The paths seen so far; a file's number is its place in the list. -/
structure FileTable where
  paths : List Path := []
deriving DecidableEq, Repr, Inhabited

namespace FileTable

def size (table : FileTable) : Nat := table.paths.length

def isEmpty (table : FileTable) : Bool := table.paths.isEmpty

/-- The number of a file that was seen before, under any of its spellings. -/
def get? (table : FileTable) (path : Path) : Option FileId :=
  table.paths.findIdx? fun known => decide (known.SameFile path)

/-- The spelling first seen for a file. -/
def path? (table : FileTable) (file : FileId) : Option Path :=
  table.paths[file]?

/-- The number of a file, a new one on first sight. -/
def intern (table : FileTable) (path : Path) : FileId × FileTable :=
  match table.get? path with
  | some file => (file, table)
  | none => (table.size, { paths := table.paths ++ [path] })

/-- Interning a known path changes nothing. -/
theorem intern_of_known (table : FileTable) {path : Path} {file : FileId}
    (known : table.get? path = some file) : table.intern path = (file, table) := by
  simp only [intern, known]

/-- A path that was not seen gets the next number. -/
theorem intern_of_new (table : FileTable) {path : Path} (unseen : table.get? path = none) :
    table.intern path = (table.size, { paths := table.paths ++ [path] }) := by
  simp only [intern, unseen]

/-- After interning a path, its number is found. -/
theorem get?_intern_self (table : FileTable) (path : Path) :
    (table.intern path).2.get? path = some (table.intern path).1 := by
  cases known : table.get? path with
  | some file =>
      rw [table.intern_of_known known]
      exact known
  | none =>
      rw [table.intern_of_new known]
      have missed : table.paths.findIdx? (fun seen => decide (seen.SameFile path)) = none := known
      have hit : path.SameFile path := Path.SameFile.refl path
      simp [get?, size, List.findIdx?_append, missed, hit]

end FileTable

end HeuristicTyping
