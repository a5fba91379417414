import HeuristicTyping.Catalogue.Basic
import Mathlib.Tactic.SplitIfs

/-!
# Entries that hide others

The overloads and the block templates of a method stand in one entry, and a look-up stops at the
first entry on its way up, whether that has anything to say about what is asked or not. So an entry
that is made for the sake of one of the two hides what the owner inherited of the other, for the
owner and for every type below it. Nothing is hidden if the owner had an entry of its own or there
was nothing to inherit, and only then.
-/

set_option autoImplicit false

namespace HeuristicTyping

theorem MethodTable.lookup_update (table : MethodTable) (owner name : String)
    (change : CatalogueEntry → CatalogueEntry) (key : String × String) :
    (MethodTable.update owner name change table).lookup key =
      if key = (owner, name) then some (change ((table.lookup (owner, name)).getD {}))
      else table.lookup key := by
  induction table with
  | nil =>
      by_cases same : key = (owner, name)
      · simp [MethodTable.update, same]
      · have missed : (key == (owner, name)) = false := by simpa using same
        simp only [MethodTable.update, List.lookup_cons, missed, List.lookup_nil, if_neg same]
  | cons row table ih =>
      obtain ⟨held, entry⟩ := row
      unfold MethodTable.update
      by_cases own : held = (owner, name)
      · subst own
        by_cases same : key = (owner, name)
        · simp [same]
        · have missed : (key == (owner, name)) = false := by simpa using same
          simp only [if_true, List.lookup_cons, missed, if_neg same]
      · have passed : ((owner, name) == held) = false := by simpa using Ne.symm own
        simp only [if_neg own, List.lookup_cons, passed, ih]
        by_cases here : key = held
        · subst here
          simp [own]
        · have missed : (key == held) = false := by simpa using here
          simp only [missed]

namespace Catalogue

variable {catalogue : Catalogue} {table : MethodTable} {owner name : String}

/-! ### Ways up -/

theorem findFrom_congr {other : Catalogue} (parents : other.parents = catalogue.parents)
    (table : MethodTable) (name : String) (tries : Nat) (owner : String) :
    other.findFrom table name tries owner = catalogue.findFrom table name tries owner := by
  induction tries generalizing owner with
  | zero => rfl
  | succ tries ih => simp only [findFrom, parents, ih]

theorem findFrom_more {tries : Nat} {entry : CatalogueEntry}
    (found : catalogue.findFrom table name tries owner = some entry) (more : Nat) :
    catalogue.findFrom table name (tries + more) owner = some entry := by
  induction tries generalizing owner with
  | zero => cases found
  | succ tries ih =>
      rw [Nat.add_right_comm]
      unfold findFrom at found ⊢
      cases own : table.lookup (owner, name) with
      | some held => simpa [own] using found
      | none =>
          simp only [own] at found ⊢
          cases parent : catalogue.parents.lookup owner with
          | none => simp [parent] at found
          | some parent' =>
              simp only [parent] at found
              exact ih found

/-! ### Parts of entries -/

section Parts

variable {α : Type} {part : CatalogueEntry → List α}

/-- The overloads or the templates that are found on the way up from a type, none if there is no
entry. -/
def partFrom (catalogue : Catalogue) (part : CatalogueEntry → List α) (table : MethodTable)
    (name : String) (tries : Nat) (owner : String) : List α :=
  ((catalogue.findFrom table name tries owner).map part).getD []

theorem partFrom_succ (part : CatalogueEntry → List α) (tries : Nat) :
    catalogue.partFrom part table name (tries + 1) owner =
      match table.lookup (owner, name) with
      | some entry => part entry
      | none =>
          match catalogue.parents.lookup owner with
          | some parent => catalogue.partFrom part table name tries parent
          | none => [] := by
  unfold partFrom
  rw [findFrom]
  cases table.lookup (owner, name) with
  | some entry => rfl
  | none => cases catalogue.parents.lookup owner <;> rfl

theorem partFrom_fewer {tries limit : Nat} (within : tries ≤ limit)
    (nothing : catalogue.partFrom part table name limit owner = []) :
    catalogue.partFrom part table name tries owner = [] := by
  unfold partFrom at nothing ⊢
  cases found : catalogue.findFrom table name tries owner with
  | none => rfl
  | some entry =>
      have later := findFrom_more found (limit - tries)
      rw [Nat.add_sub_cancel' within] at later
      simpa [later] using nothing

/-- A change that leaves a part of an entry alone makes no difference to that part for any type and
any method, if the entry existed or the part was not to be found for its owner. -/
theorem partFrom_update {change : CatalogueEntry → CatalogueEntry} {limit : Nat}
    (kept : ∀ entry, part (change entry) = part entry) (blank : part {} = [])
    (harmless : (table.lookup (owner, name)).isSome ∨
      catalogue.partFrom part table name limit owner = [])
    {tries : Nat} (within : tries ≤ limit) (method start : String) :
    catalogue.partFrom part (table.update owner name change) method tries start =
      catalogue.partFrom part table method tries start := by
  induction tries generalizing start with
  | zero => rfl
  | succ tries ih =>
      have onward := ih (Nat.le_of_succ_le within)
      by_cases here : (start, method) = (owner, name)
      · obtain ⟨rfl, rfl⟩ := Prod.mk.inj here
        rw [partFrom_succ, MethodTable.lookup_update, if_pos rfl]
        cases own : table.lookup (start, method) with
        | some entry => simp only [partFrom_succ, own, Option.getD_some, kept]
        | none =>
            have nothing := partFrom_fewer within (harmless.resolve_left (by simp [own]))
            simp only [nothing, Option.getD_none, kept, blank]
      · simp only [partFrom_succ, MethodTable.lookup_update, if_neg here, onward]

theorem partFrom_update_iff {change : CatalogueEntry → CatalogueEntry} {limit : Nat}
    (kept : ∀ entry, part (change entry) = part entry) (blank : part {} = [])
    (tried : 0 < limit) :
    (∀ type method, catalogue.partFrom part (table.update owner name change) method limit type =
        catalogue.partFrom part table method limit type) ↔
      (table.lookup (owner, name)).isSome ∨
        catalogue.partFrom part table name limit owner = [] := by
  constructor
  · intro same
    obtain ⟨tries, rfl⟩ := Nat.exists_eq_add_one.mpr tried
    cases own : table.lookup (owner, name) with
    | some entry => exact Or.inl rfl
    | none =>
        -- The new entry is the first one on the way up from its owner, and it is blank.
        refine Or.inr ?_
        rw [← same owner name, partFrom_succ, MethodTable.lookup_update, if_pos rfl]
        simp only [own, Option.getD_none, kept, blank]
  · intro harmless type method
    exact partFrom_update kept blank harmless (Nat.le_refl limit) method type

end Parts

/-! ### Answers of a catalogue -/

theorem overloads_eq (catalogue : Catalogue) (type method : String) :
    catalogue.signatures.overloads type method =
      catalogue.partFrom CatalogueEntry.overloads catalogue.ofInstances method maxParents type := by
  simp only [signatures, find?, partFrom]
  cases catalogue.findFrom catalogue.ofInstances method maxParents type <;> rfl

theorem blockParams_eq (catalogue : Catalogue) (type method : String) :
    catalogue.signatures.blockParams type method =
      catalogue.partFrom CatalogueEntry.blockParams catalogue.ofInstances method maxParents
        type := by
  simp only [signatures, find?, partFrom]
  cases catalogue.findFrom catalogue.ofInstances method maxParents type <;> rfl

theorem returnType_eq (catalogue : Catalogue) (type method : String) (arguments : List Ty) :
    catalogue.signatures.returnType type method arguments =
      match selectOverload? (catalogue.signatures.overloads type method) arguments with
      | some signature => signature.result
      | none => .unknown := by
  simp only [signatures, resultIn]
  cases catalogue.find? catalogue.ofInstances type method <;> rfl

theorem partFrom_congr {other : Catalogue} (parents : other.parents = catalogue.parents)
    {α : Type} (part : CatalogueEntry → List α) (table : MethodTable) (name : String)
    (tries : Nat) (owner : String) :
    other.partFrom part table name tries owner =
      catalogue.partFrom part table name tries owner := by
  unfold partFrom
  rw [findFrom_congr parents]

theorem overloads_setBlockParams_iff (catalogue : Catalogue) (owner name : String)
    (types : List Ty) :
    (∀ type method, (catalogue.setBlockParams owner name types).signatures.overloads type method =
        catalogue.signatures.overloads type method) ↔
      (catalogue.ofInstances.lookup (owner, name)).isSome ∨
        catalogue.signatures.overloads owner name = [] := by
  have parents : (catalogue.setBlockParams owner name types).parents = catalogue.parents := rfl
  simp only [overloads_eq, partFrom_congr parents]
  exact partFrom_update_iff (fun _ => rfl) rfl (by decide)

theorem blockParams_addMethod_iff (catalogue : Catalogue) (owner name : String)
    (signature : MethodSig) :
    (∀ type method,
        (catalogue.addMethod owner name signature).signatures.blockParams type method =
          catalogue.signatures.blockParams type method) ↔
      (catalogue.ofInstances.lookup (owner, name)).isSome ∨
        catalogue.signatures.blockParams owner name = [] := by
  have parents : (catalogue.addMethod owner name signature).parents = catalogue.parents := rfl
  simp only [blockParams_eq, partFrom_congr parents]
  exact partFrom_update_iff (fun _ => rfl) rfl (by decide)

/-- Block templates and overloads of methods leave each other alone if the owner has an entry of its
own for the method or inherits nothing that the new entry could hide, and only then. Methods of
types as objects are left alone by templates in any case. -/
theorem parts_are_undisturbed_iff (catalogue : Catalogue) (owner name : String) (types : List Ty)
    (signature : MethodSig) :
    (∀ type method arguments,
      (catalogue.setBlockParams owner name types).signatures.typeLevelReturnType type method
          arguments =
        catalogue.signatures.typeLevelReturnType type method arguments) ∧
    ((∀ type method arguments,
        (catalogue.setBlockParams owner name types).signatures.returnType type method arguments =
            catalogue.signatures.returnType type method arguments ∧
          (catalogue.setBlockParams owner name types).signatures.overloads type method =
            catalogue.signatures.overloads type method) ↔
      (catalogue.ofInstances.lookup (owner, name)).isSome ∨
        catalogue.signatures.overloads owner name = []) ∧
    ((∀ type method,
        (catalogue.addMethod owner name signature).signatures.blockParams type method =
          catalogue.signatures.blockParams type method) ↔
      (catalogue.ofInstances.lookup (owner, name)).isSome ∨
        catalogue.signatures.blockParams owner name = []) := by
  refine ⟨?_, ?_, blockParams_addMethod_iff catalogue owner name signature⟩
  · intro type method arguments
    have parents : (catalogue.setBlockParams owner name types).parents = catalogue.parents := rfl
    have found := findFrom_congr parents catalogue.ofTypes method maxParents type
    simp only [signatures, resultIn, find?, setBlockParams] at found ⊢
    rw [found]
  · rw [← overloads_setBlockParams_iff catalogue owner name types]
    constructor
    · exact fun same type method => (same type method []).2
    · intro same type method arguments
      exact ⟨by rw [returnType_eq, returnType_eq, same], same type method⟩

/-- A type that inherits an overload and templates of a method from its parent. -/
def drawers : List CatalogueDef :=
  [.parent "Drawer" "Box", .method "Box" "open" { params := [], result := .string },
    .blockParams "Box" "open" [.integer]]

/-- Templates that are set for a type hide the overloads that it inherits, and an overload that is
added for it hides the templates. -/
theorem new_entries_hide_inherited_ones :
    (¬ ∀ definitions owner name types type method arguments,
      ((ofDefs definitions).setBlockParams owner name types).signatures.returnType type method
            arguments =
          (ofDefs definitions).signatures.returnType type method arguments ∧
        ((ofDefs definitions).setBlockParams owner name types).signatures.typeLevelReturnType type
            method arguments =
          (ofDefs definitions).signatures.typeLevelReturnType type method arguments ∧
        ((ofDefs definitions).setBlockParams owner name types).signatures.overloads type method =
          (ofDefs definitions).signatures.overloads type method) ∧
      ¬ ∀ definitions owner name signature type method,
        ((ofDefs definitions).addMethod owner name signature).signatures.blockParams type method =
          (ofDefs definitions).signatures.blockParams type method := by
  constructor
  · intro undisturbed
    have same := (undisturbed drawers "Drawer" "open" [.string] "Drawer" "open" []).1
    have hidden : Ty.unknown = .string := same
    cases hidden
  · intro undisturbed
    have same := undisturbed drawers "Drawer" "open" { params := [], result := .string } "Drawer"
      "open"
    have hidden : [] = [Ty.integer] := same
    cases hidden

end Catalogue

end HeuristicTyping
