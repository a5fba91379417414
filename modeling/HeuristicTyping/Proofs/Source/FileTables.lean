import HeuristicTyping.Source.FileTable

/-!
# Tables of files

A table knows a file under one number, whatever the spelling, and different files under different
numbers. It only grows: what a later table says of a file or of a number is what it said before.
-/

set_option autoImplicit false

namespace HeuristicTyping

theorem Path.components_absolute (path : Path) : path.components.absolute = path.isAbsolute := by
  unfold components
  cases rooted : path.isAbsolute with
  | true => simp
  | false =>
      simp only [Bool.false_eq_true, if_false]
      split <;> rfl

namespace FileTable

theorem get?_lt {table : FileTable} {path : Path} {file : FileId}
    (known : table.get? path = some file) : file < table.size := by
  obtain ⟨bound, _⟩ := List.findIdx?_eq_some_iff_getElem.mp known
  exact bound

theorem get?_congr (table : FileTable) {path other : Path} (same : path.SameFile other) :
    table.get? path = table.get? other := by
  have alike : ∀ seen : Path, decide (seen.SameFile path) = decide (seen.SameFile other) := by
    intro seen
    exact decide_eq_decide.mpr ⟨fun left => left.trans same, fun right => right.trans same.symm⟩
  simp only [get?, alike]

theorem sameFile_of_get? {table : FileTable} {path other : Path} {file : FileId}
    (known : table.get? path = some file) (otherKnown : table.get? other = some file) :
    path.SameFile other := by
  obtain ⟨_, first, _⟩ := List.findIdx?_eq_some_iff_getElem.mp known
  obtain ⟨_, second, _⟩ := List.findIdx?_eq_some_iff_getElem.mp otherKnown
  exact (of_decide_eq_true first).symm.trans (of_decide_eq_true second)

theorem get?_eq_none_iff {table : FileTable} {path : Path} :
    table.get? path = none ↔ path.components ∉ table.paths.map Path.components := by
  simp only [get?, List.findIdx?_eq_none_iff, decide_eq_false_iff_not, List.mem_map, not_exists,
    not_and]
  exact Iff.rfl

theorem get?_snoc (table : FileTable) (path other : Path) :
    FileTable.get? { paths := table.paths ++ [path] } other =
      (table.get? other).or (if path.SameFile other then some table.size else none) := by
  unfold get?
  rw [List.findIdx?_append, List.findIdx?_singleton]
  by_cases same : path.SameFile other
  · simp [same, size]
  · simp [same]

/-! ### Growing tables -/

/-- The later table has the files of this one under their numbers, and possibly more. -/
def Within (table later : FileTable) : Prop :=
  table.paths <+: later.paths

theorem Within.refl (table : FileTable) : table.Within table := List.prefix_rfl

theorem Within.trans {first second third : FileTable} (early : first.Within second)
    (late : second.Within third) : first.Within third :=
  List.IsPrefix.trans early late

theorem Within.size_le {table later : FileTable} (within : table.Within later) :
    table.size ≤ later.size :=
  List.IsPrefix.length_le within

theorem within_intern (table : FileTable) (path : Path) :
    table.Within (table.intern path).2 := by
  cases known : table.get? path with
  | some file =>
      rw [table.intern_of_known known]
      exact Within.refl table
  | none =>
      rw [table.intern_of_new known]
      exact List.prefix_append _ _

theorem intern_lt (table : FileTable) (path : Path) :
    (table.intern path).1 < (table.intern path).2.size :=
  get?_lt (table.get?_intern_self path)

theorem Within.get? {table later : FileTable} (within : table.Within later) {path : Path}
    {file : FileId} (known : table.get? path = some file) : later.get? path = some file := by
  obtain ⟨more, same⟩ := within
  unfold FileTable.get? at known ⊢
  rw [← same, List.findIdx?_append, known]
  rfl

/-- A file that is new to the later table has a number that this one has not handed out. -/
theorem Within.size_le_of_new {table later : FileTable} (within : table.Within later)
    {path : Path} {file : FileId} (unseen : table.get? path = none)
    (known : later.get? path = some file) : table.size ≤ file := by
  obtain ⟨more, same⟩ := within
  unfold FileTable.get? at known unseen
  rw [← same, List.findIdx?_append, unseen, Option.none_or, Option.map_eq_some_iff] at known
  obtain ⟨place, _, rfl⟩ := known
  exact Nat.le_add_left _ _

theorem Within.path? {table later : FileTable} (within : table.Within later) {file : FileId}
    (known : file < table.size) : later.path? file = table.path? file := by
  obtain ⟨more, same⟩ := within
  unfold FileTable.path?
  rw [← same, List.getElem?_append_left known]

end FileTable

end HeuristicTyping
