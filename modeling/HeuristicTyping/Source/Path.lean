/-!
# File paths

Two spellings name the same file when they have the same components: repeated and trailing
separators do not count, nor does a `.` beyond the first component. `..` always counts, and so
does whether the path starts at the root.
-/

set_option autoImplicit false

namespace HeuristicTyping

/-- A file path as it was written. -/
structure Path where
  text : String
deriving DecidableEq, Repr, Inhabited

/-- What identifies the file that a path names. -/
structure PathComponents where
  /-- Whether the path starts at the root. -/
  absolute : Bool
  names : List String
deriving DecidableEq, Repr

namespace Path

/-- The parts between separators, without the empty ones. -/
def segments (path : Path) : List String :=
  (path.text.splitOn "/").filter (fun segment => segment != "")

/-- Whether the path starts at the root. -/
def isAbsolute (path : Path) : Bool :=
  path.text.startsWith "/"

/-- The components of a path. A leading `.` is a component of a relative path only. -/
def components (path : Path) : PathComponents :=
  let proper := fun names : List String => names.filter (fun name => name != ".")
  if path.isAbsolute then { absolute := true, names := proper path.segments }
  else
    match path.segments with
    | "." :: names => { absolute := false, names := "." :: proper names }
    | names => { absolute := false, names := proper names }

/-- Whether two paths name the same file. -/
def SameFile (path other : Path) : Prop :=
  path.components = other.components

instance (path other : Path) : Decidable (SameFile path other) :=
  inferInstanceAs (Decidable (path.components = other.components))

@[refl] theorem SameFile.refl (path : Path) : SameFile path path := rfl

@[symm] theorem SameFile.symm {path other : Path} (same : SameFile path other) :
    SameFile other path :=
  Eq.symm same

theorem SameFile.trans {first second third : Path} (left : SameFile first second)
    (right : SameFile second third) : SameFile first third :=
  Eq.trans left right

end Path

end HeuristicTyping
