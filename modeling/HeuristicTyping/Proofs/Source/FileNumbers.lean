import Mathlib
import HeuristicTyping.Proofs.Source.FileTables

/-!
# File numbers

Paths that are interned one after the other are numbered by file, in the order in which the files
are first seen: equal numbers mean the same file, all numbers below the size of the table are in
use, and each stands for the spelling that it was first given to.

A table may look numbers up in a map, in which all spellings of a file are one key, and hold them in
32 bits. It answers what the table here answers, as long as 32 bits suffice for the files.
-/

set_option autoImplicit false

namespace HeuristicTyping

/-! ### Interning one path after the other -/

/-- Interns paths in order. Answers each path with what it was given, and the table after them. -/
def internEach {σ β : Type} (intern : σ → Path → β × σ) : σ → List Path → List (Path × β) × σ
  | table, [] => ([], table)
  | table, path :: paths =>
      let rest := internEach intern (intern table path).2 paths
      ((path, (intern table path).1) :: rest.1, rest.2)

theorem internEach_paths {σ β : Type} (intern : σ → Path → β × σ) (table : σ)
    (paths : List Path) : (internEach intern table paths).1.map Prod.fst = paths := by
  induction paths generalizing table with
  | nil => rfl
  | cons path paths ih => exact congrArg (path :: ·) (ih (intern table path).2)

namespace FileTable

/-- Each path with its number, and the table after all of them were interned. -/
def internAll (table : FileTable) (paths : List Path) : List (Path × FileId) × FileTable :=
  internEach intern table paths

theorem internAll_cons (table : FileTable) (path : Path) (paths : List Path) :
    table.internAll (path :: paths) =
      ((path, (table.intern path).1) :: ((table.intern path).2.internAll paths).1,
        ((table.intern path).2.internAll paths).2) := rfl

theorem within_internAll (table : FileTable) (paths : List Path) :
    table.Within (table.internAll paths).2 := by
  induction paths generalizing table with
  | nil => exact Within.refl table
  | cons path paths ih => exact (table.within_intern path).trans (ih (table.intern path).2)

/-- A number that was given stays the number of the file. -/
theorem get?_of_given {table : FileTable} {paths : List Path} {path : Path} {file : FileId}
    (given : (path, file) ∈ (table.internAll paths).1) :
    (table.internAll paths).2.get? path = some file := by
  induction paths generalizing table with
  | nil => cases given
  | cons first paths ih =>
      rcases List.mem_cons.mp given with now | later
      · obtain ⟨rfl, rfl⟩ := Prod.mk.inj now
        have later := (table.intern path).2.within_internAll paths
        exact later.get? (table.get?_intern_self path)
      · exact ih later

/-- Interning a path makes room for one number at most, its own. -/
theorem intern_eq_of_new {table : FileTable} {path : Path} {file : FileId}
    (new : table.size ≤ file) (taken : file < (table.intern path).2.size) :
    (table.intern path).1 = file := by
  cases known : table.get? path with
  | some held =>
      rw [table.intern_of_known known] at taken
      exact absurd taken (Nat.not_lt_of_le new)
  | none =>
      rw [table.intern_of_new known] at taken ⊢
      have grown : file < table.size + 1 := by simpa [size] using taken
      exact Nat.le_antisymm new (Nat.le_of_lt_succ grown)

/-- Every new number was given to some path. -/
theorem exists_given {table : FileTable} {paths : List Path} {file : FileId}
    (new : table.size ≤ file) (taken : file < (table.internAll paths).2.size) :
    ∃ path, (path, file) ∈ (table.internAll paths).1 := by
  induction paths generalizing table with
  | nil => exact absurd taken (Nat.not_lt_of_le new)
  | cons path paths ih =>
      by_cases now : file < (table.intern path).2.size
      · have own := intern_eq_of_new new now
        exact ⟨path, List.mem_cons.mpr (Or.inl (by rw [own]))⟩
      · obtain ⟨other, given⟩ := ih (Nat.le_of_not_lt now) taken
        exact ⟨other, List.mem_cons_of_mem _ given⟩

theorem path?_intern (table : FileTable) (path : Path) (file : FileId) :
    (table.intern path).2.path? file =
      (table.path? file).or (if (table.intern path).1 = file then some path else none) := by
  cases known : table.get? path with
  | some held =>
      rw [table.intern_of_known known]
      by_cases same : held = file
      · have bound : file < table.paths.length := same ▸ get?_lt known
        simp [path?, bound]
      · simp [same]
  | none =>
      rw [table.intern_of_new known]
      simp only [path?, size]
      grind

/-- A number stands for the path that it was first given to. -/
theorem path?_internAll (table : FileTable) (paths : List Path) (file : FileId) :
    (table.internAll paths).2.path? file =
      (table.path? file).or
        (((table.internAll paths).1.find? fun given => given.2 == file).map Prod.fst) := by
  induction paths generalizing table with
  | nil => simp [internAll, internEach]
  | cons path paths ih =>
      rw [internAll_cons, List.find?_cons, ih, path?_intern, Option.or_assoc]
      by_cases own : (table.intern path).1 = file
      · simp [own]
      · have passed : ((table.intern path).1 == file) = false := by simpa using own
        rw [if_neg own, Option.none_or, passed]

/-- The files of the table are the distinct ones among the paths, in the order of first sight. -/
theorem components_internAll (table : FileTable) (paths : List Path)
    (distinct : (table.paths.map Path.components).eraseDups = table.paths.map Path.components) :
    (table.internAll paths).2.paths.map Path.components =
      (table.paths.map Path.components ++ paths.map Path.components).eraseDups := by
  induction paths generalizing table with
  | nil =>
      rw [List.map_nil, List.append_nil, distinct]
      rfl
  | cons path paths ih =>
      rw [internAll_cons]
      cases known : table.get? path with
      | some file =>
          have listed : path.components ∈ table.paths.map Path.components := by
            by_contra missing
            rw [get?_eq_none_iff.mpr missing] at known
            cases known
          -- A file that comes again adds nothing to the distinct ones.
          simp only [table.intern_of_known known]
          rw [ih table distinct, List.map_cons, List.eraseDups_append,
            List.eraseDups_append, List.cons_removeAll, List.contains_iff_mem.mpr listed]
          rfl
      | none =>
          have missing := get?_eq_none_iff.mp known
          have still : ((table.paths ++ [path]).map Path.components).eraseDups =
              (table.paths ++ [path]).map Path.components := by
            rw [List.map_append, List.eraseDups_append, distinct, List.map_singleton,
              List.cons_removeAll, if_pos (by simpa using missing)]
            rfl
          simp only [table.intern_of_new known]
          rw [ih _ still, List.map_append, List.append_assoc]
          rfl

theorem size_internAll (paths : List Path) :
    (internAll {} paths).2.size = (paths.map Path.components).eraseDups.length := by
  have files := components_internAll {} paths rfl
  rw [List.map_nil, List.nil_append] at files
  rw [← files, List.length_map]
  rfl

/-- A path is known if its file was seen, under the number that was given then. -/
theorem get?_internAll {paths : List Path} {path : Path} {file : FileId} :
    (internAll {} paths).2.get? path = some file ↔
      ∃ seen, (seen, file) ∈ (internAll {} paths).1 ∧ seen.SameFile path := by
  constructor
  · intro known
    obtain ⟨seen, given⟩ := exists_given (Nat.zero_le file) (get?_lt known)
    exact ⟨seen, given, sameFile_of_get? (get?_of_given given) known⟩
  · intro sighted
    rcases sighted with ⟨seen, given, same⟩
    rw [← get?_congr _ same]
    exact get?_of_given given

theorem given_eq_iff {table : FileTable} {paths : List Path} {first second : Path × FileId}
    (given : first ∈ (table.internAll paths).1) (secondGiven : second ∈ (table.internAll paths).1) :
    first.2 = second.2 ↔ first.1.SameFile second.1 := by
  have known := get?_of_given given
  have secondKnown := get?_of_given secondGiven
  constructor
  · intro same
    rw [same] at known
    exact sameFile_of_get? known secondKnown
  · intro same
    rw [get?_congr _ same, secondKnown] at known
    exact (Option.some.inj known).symm

theorem mem_numbers_iff {paths : List Path} {file : FileId} :
    file ∈ (internAll {} paths).1.map Prod.snd ↔ file < (internAll {} paths).2.size := by
  constructor
  · intro listed
    obtain ⟨entry, given, rfl⟩ := List.mem_map.mp listed
    exact get?_lt (get?_of_given given)
  · intro taken
    obtain ⟨path, given⟩ := exists_given (Nat.zero_le file) taken
    exact List.mem_map.mpr ⟨(path, file), given, rfl⟩

end FileTable

/-! ### Numbers in a map -/

/-- A path as a key. All spellings of a file are one key. -/
structure FileKey where
  path : Path

namespace FileKey

instance : BEq FileKey where
  beq key other := decide (key.path.SameFile other.path)

instance : Hashable FileKey where
  hash key := mixHash (hash key.path.components.absolute) (hash key.path.components.names)

theorem beq_iff {key other : FileKey} : (key == other) = true ↔ key.path.SameFile other.path :=
  decide_eq_true_iff

instance : EquivBEq FileKey where
  symm same := beq_iff.mpr (beq_iff.mp same).symm
  trans left right := beq_iff.mpr ((beq_iff.mp left).trans (beq_iff.mp right))
  rfl := beq_iff.mpr (Path.SameFile.refl _)

instance : LawfulHashable FileKey where
  hash_eq key other same := by
    have components : key.path.components = other.path.components := beq_iff.mp same
    change mixHash _ _ = mixHash _ _
    rw [components]

end FileKey

/-- A table that finds numbers in a map and holds them in 32 bits. -/
structure HashedFileTable where
  paths : Array Path := #[]
  numbers : Std.HashMap FileKey UInt32 := {}

namespace HashedFileTable

def get? (hashed : HashedFileTable) (path : Path) : Option UInt32 :=
  hashed.numbers[FileKey.mk path]?

def path? (hashed : HashedFileTable) (file : UInt32) : Option Path :=
  hashed.paths[file.toNat]?

/-- The number of a file. On first sight, the number of paths so far, cut to 32 bits. -/
def intern (hashed : HashedFileTable) (path : Path) : UInt32 × HashedFileTable :=
  match hashed.get? path with
  | some file => (file, hashed)
  | none =>
      let file := UInt32.ofNat hashed.paths.size
      (file, { paths := hashed.paths.push path, numbers := hashed.numbers.insert ⟨path⟩ file })

theorem intern_of_known (hashed : HashedFileTable) {path : Path} {file : UInt32}
    (known : hashed.get? path = some file) : hashed.intern path = (file, hashed) := by
  simp only [intern, known]

theorem intern_of_new (hashed : HashedFileTable) {path : Path}
    (unseen : hashed.get? path = none) :
    hashed.intern path =
      (UInt32.ofNat hashed.paths.size,
        { paths := hashed.paths.push path
          numbers := hashed.numbers.insert ⟨path⟩ (UInt32.ofNat hashed.paths.size) }) := by
  simp only [intern, unseen]

theorem get?_insert (paths : Array Path) (numbers : Std.HashMap FileKey UInt32)
    (path other : Path) (file : UInt32) :
    get? { paths, numbers := numbers.insert ⟨path⟩ file } other =
      if path.SameFile other then some file else get? { paths, numbers } other := by
  unfold get?
  simp only [Std.HashMap.getElem?_insert, FileKey.beq_iff]

/-- Both tables hold the same paths, and the map has their places, cut to 32 bits. -/
structure Mirrors (hashed : HashedFileTable) (table : FileTable) : Prop where
  paths : hashed.paths.toList = table.paths
  numbers : ∀ path, hashed.get? path = (table.get? path).map UInt32.ofNat

theorem mirrors_empty : Mirrors {} {} where
  paths := rfl
  numbers _ := Std.HashMap.getElem?_empty

theorem Mirrors.size_eq {hashed : HashedFileTable} {table : FileTable}
    (mirrors : hashed.Mirrors table) : hashed.paths.size = table.size := by
  rw [FileTable.size, ← mirrors.paths, Array.length_toList]

theorem Mirrors.intern {hashed : HashedFileTable} {table : FileTable}
    (mirrors : hashed.Mirrors table) (path : Path) :
    (hashed.intern path).1 = UInt32.ofNat (table.intern path).1 ∧
      (hashed.intern path).2.Mirrors (table.intern path).2 := by
  have held := mirrors.numbers path
  cases known : table.get? path with
  | some file =>
      rw [known, Option.map_some] at held
      rw [table.intern_of_known known, hashed.intern_of_known held]
      exact ⟨rfl, mirrors⟩
  | none =>
      rw [known, Option.map_none] at held
      rw [table.intern_of_new known, hashed.intern_of_new held, mirrors.size_eq]
      refine ⟨rfl, ?_, ?_⟩
      · simp [mirrors.paths]
      · intro other
        rw [get?_insert, FileTable.get?_snoc]
        by_cases same : path.SameFile other
        · rw [if_pos same, if_pos same, ← table.get?_congr same, known]
          rfl
        · rw [if_neg same, if_neg same, Option.or_none]
          exact mirrors.numbers other

theorem Mirrors.internEach {hashed : HashedFileTable} {table : FileTable}
    (mirrors : hashed.Mirrors table) (paths : List Path) :
    (HeuristicTyping.internEach HashedFileTable.intern hashed paths).1 =
        (table.internAll paths).1.map (fun given => (given.1, UInt32.ofNat given.2)) ∧
      (HeuristicTyping.internEach HashedFileTable.intern hashed paths).2.Mirrors
        (table.internAll paths).2 := by
  induction paths generalizing hashed table with
  | nil => exact ⟨rfl, mirrors⟩
  | cons path paths ih =>
      obtain ⟨number, next⟩ := mirrors.intern path
      obtain ⟨numbers, last⟩ := ih next
      refine ⟨?_, last⟩
      change (path, _) :: _ = (path, _) :: _
      rw [number, numbers]
      rfl

/-- The tables tell the same of any path, and of any number of 32 bits. -/
structure AgreesWith (hashed : HashedFileTable) (table : FileTable) : Prop where
  size : hashed.paths.size = table.size
  get? : ∀ path, (hashed.get? path).map UInt32.toNat = table.get? path
  path? : ∀ file, hashed.path? file = table.path? file.toNat

theorem toNat_ofNat_of_small {table : FileTable} (small : table.size ≤ 2 ^ 32) {file : FileId}
    (taken : file < table.size) : (UInt32.ofNat file).toNat = file :=
  UInt32.toNat_ofNat_of_lt' (Nat.lt_of_lt_of_le taken small)

theorem Mirrors.agreesWith {hashed : HashedFileTable} {table : FileTable}
    (mirrors : hashed.Mirrors table) (small : table.size ≤ 2 ^ 32) :
    hashed.AgreesWith table where
  size := mirrors.size_eq
  get? path := by
    rw [mirrors.numbers, Option.map_map]
    cases known : table.get? path with
    | none => rfl
    | some file =>
        exact congrArg some (toNat_ofNat_of_small small (FileTable.get?_lt known))
  path? file := by
    unfold HashedFileTable.path? FileTable.path?
    rw [← mirrors.paths, Array.getElem?_toList]

/-- As long as 32 bits suffice for the files, the map makes no difference. -/
theorem internEach_agrees {paths : List Path}
    (small : (FileTable.internAll {} paths).2.size ≤ 2 ^ 32) :
    (HeuristicTyping.internEach intern {} paths).1.map (fun entry => (entry.1, entry.2.toNat)) =
        (FileTable.internAll {} paths).1 ∧
      (HeuristicTyping.internEach intern {} paths).2.AgreesWith
        (FileTable.internAll {} paths).2 := by
  obtain ⟨numbers, mirrors⟩ := mirrors_empty.internEach paths
  refine ⟨?_, mirrors.agreesWith small⟩
  rw [numbers, List.map_map]
  refine (List.map_congr_left fun entry given => ?_).trans (List.map_id _)
  have taken := FileTable.get?_lt (FileTable.get?_of_given given)
  exact Prod.ext rfl (toNat_ofNat_of_small small taken)

end HashedFileTable

namespace FileTable

/-- Interning numbers the files among the paths from zero on, in the order in which they are first
seen. Two paths are given one number if and only if they name one file. The numbers given are those
below the size of the table, which counts the files. A path is known if its file was seen, under the
number that was given then. A number stands for the path it was first given to and goes on doing so,
and a path of a known file leaves the table as it is. A table with a map and numbers of 32 bits does
the same unless there are too many files. -/
theorem files_are_numbered_by_first_sight {paths : List Path} {given : List (Path × FileId)}
    {table : FileTable} (interned : internAll {} paths = (given, table)) :
    given.map Prod.fst = paths ∧
    (∀ first ∈ given, ∀ second ∈ given, first.2 = second.2 ↔ first.1.SameFile second.1) ∧
    (∀ file, file ∈ given.map Prod.snd ↔ file < table.size) ∧
    table.size = (paths.map Path.components).eraseDups.length ∧
    (∀ path file, table.get? path = some file ↔
      ∃ seen, (seen, file) ∈ given ∧ seen.SameFile path) ∧
    (∀ file, table.path? file = (given.find? fun entry => entry.2 == file).map Prod.fst) ∧
    (∀ more file, file < table.size → (table.internAll more).2.path? file = table.path? file) ∧
    (∀ entry ∈ given, ∀ path, entry.1.SameFile path → table.intern path = (entry.2, table)) ∧
    ((paths.map Path.components).eraseDups.length ≤ 2 ^ 32 →
      (internEach HashedFileTable.intern {} paths).1.map
          (fun entry => (entry.1, entry.2.toNat)) = given ∧
        (internEach HashedFileTable.intern {} paths).2.AgreesWith table) := by
  obtain rfl : (internAll {} paths).1 = given := congrArg Prod.fst interned
  obtain rfl : (internAll {} paths).2 = table := congrArg Prod.snd interned
  refine ⟨internEach_paths intern {} paths, fun _ first _ second => given_eq_iff first second,
    fun _ => mem_numbers_iff, size_internAll paths, fun _ _ => get?_internAll, ?_, ?_, ?_, ?_⟩
  · intro file
    rw [path?_internAll]
    rfl
  · intro more file taken
    exact (within_internAll _ more).path? taken
  · intro entry held path same
    exact intern_of_known _ (get?_internAll.mpr ⟨entry.1, held, same⟩)
  · intro few
    rw [← size_internAll] at few
    exact HashedFileTable.internEach_agrees few

def plain : Path := { text := "a" }

def trailing : Path := { text := "a/" }

/-- A leading dot counts. -/
def dotted : Path := { text := "./a" }

theorem spellings_interned :
    internAll {} [plain, dotted, trailing, dotted] =
      ([(plain, 0), (dotted, 1), (trailing, 0), (dotted, 1)], { paths := [plain, dotted] }) := by
  have plainly : plain.components = { absolute := false, names := ["a"] } := by cbv
  have trails : trailing.components = { absolute := false, names := ["a"] } := by cbv
  have dots : dotted.components = { absolute := false, names := [".", "a"] } := by cbv
  simp [internAll, internEach, intern, get?, Path.SameFile, plainly, trails, dots,
    List.findIdx?_cons, size]

theorem spellings_are_numbered :
    internAll {} [plain, dotted, trailing, dotted] =
        ([(plain, 0), (dotted, 1), (trailing, 0), (dotted, 1)], { paths := [plain, dotted] }) ∧
      plain.SameFile trailing ∧ ¬ plain.SameFile dotted ∧
      ([plain, dotted, trailing, dotted].map Path.components).eraseDups.length = 2 ∧
      FileTable.get? { paths := [plain, dotted] } trailing = some 0 ∧
      FileTable.path? { paths := [plain, dotted] } 1 = some dotted ∧
      intern { paths := [plain, dotted] } trailing = (0, { paths := [plain, dotted] }) ∧
      ((internEach HashedFileTable.intern {} [plain, dotted, trailing, dotted]).2.get?
        trailing).map UInt32.toNat = some 0 := by
  obtain ⟨-, same, -, count, known, spelling, -, unchanged, mapped⟩ :=
    files_are_numbered_by_first_sight spellings_interned
  have alike : plain.SameFile trailing :=
    (same (plain, 0) (by simp) (trailing, 0) (by simp)).mp rfl
  have apart : ¬ plain.SameFile dotted := by
    intro equal
    have numbers := (same (plain, 0) (by simp) (dotted, 1) (by simp)).mpr equal
    cases numbers
  have found := (known trailing 0).mpr ⟨plain, by simp, alike⟩
  have few : ([plain, dotted, trailing, dotted].map Path.components).eraseDups.length = 2 :=
    count.symm
  have agrees := (mapped (by rw [few]; decide)).2
  exact ⟨spellings_interned, alike, apart, few, found, spelling 1,
    unchanged (plain, 0) (by simp) trailing alike, (agrees.get? trailing).trans found⟩

end FileTable

end HeuristicTyping
