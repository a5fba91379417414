import Mathlib.Data.Set.Card
import HeuristicTyping.Catalogue.Basic

/-!
# Inherited entries

A look-up goes up from a type to its parents, a bounded number of times, for parents may form a
loop. What it finds is the entry of the nearest type among those it tries. Each type of a chain is
reached before any type comes twice, so if no more types are on the chain than are tried, all of
them are tried, whether the chain ends or goes round.
-/

set_option autoImplicit false

namespace HeuristicTyping.Catalogue

variable {catalogue : Catalogue} {table : MethodTable} {owner name : String}

/-! ### Chains of parents -/

/-- The type that is a number of steps up from a type. -/
def up? (catalogue : Catalogue) : (steps : Nat) → (owner : String) → Option String
  | 0, owner => some owner
  | steps + 1, owner => (catalogue.parents.lookup owner).bind (catalogue.up? steps)

/-- A type and all types above it. -/
def chain (catalogue : Catalogue) (owner : String) : Set String :=
  {type | ∃ steps, catalogue.up? steps owner = some type}

theorem up?_succ (catalogue : Catalogue) (steps : Nat) (owner : String) :
    catalogue.up? (steps + 1) owner =
      (catalogue.parents.lookup owner).bind (catalogue.up? steps) := rfl

theorem up?_add (catalogue : Catalogue) (first later : Nat) (owner : String) :
    catalogue.up? (first + later) owner =
      (catalogue.up? first owner).bind (catalogue.up? later) := by
  induction first generalizing owner with
  | zero => rw [Nat.zero_add]; rfl
  | succ first ih =>
      rw [Nat.add_right_comm, up?_succ, up?_succ, Option.bind_assoc]
      exact congrArg _ (funext ih)

/-- A chain that is as long as this has a type on each step before. -/
theorem exists_up?_of_le {steps fewer : Nat} {type : String}
    (reached : catalogue.up? steps owner = some type) (before : fewer ≤ steps) :
    ∃ passed, catalogue.up? fewer owner = some passed := by
  rw [← Nat.add_sub_cancel' before, up?_add] at reached
  obtain ⟨passed, way, _⟩ := Option.bind_eq_some_iff.mp reached
  exact ⟨passed, way⟩

/-- A way that passes a type twice is no shortest way. -/
theorem exists_shorter {steps first second : Nat} (apart : first < second) (within : second ≤ steps)
    (again : catalogue.up? first owner = catalogue.up? second owner) :
    ∃ fewer < steps, catalogue.up? fewer owner = catalogue.up? steps owner := by
  refine ⟨first + (steps - second), by omega, ?_⟩
  rw [up?_add, again, ← up?_add, Nat.add_sub_cancel' within]

theorem chain_subset {types : Set String} (start : owner ∈ types)
    (closed : ∀ type ∈ types, ∀ parent, catalogue.parents.lookup type = some parent →
      parent ∈ types) : catalogue.chain owner ⊆ types := by
  rintro type ⟨steps, reached⟩
  induction steps generalizing owner with
  | zero =>
      rw [← Option.some.inj reached]
      exact start
  | succ steps ih =>
      obtain ⟨parent, next, onward⟩ := Option.bind_eq_some_iff.mp reached
      exact ih (closed owner start parent next) onward

section Shortest

variable {steps : Nat} {type : String} (reached : catalogue.up? steps owner = some type)
  (shortest : ∀ fewer < steps, catalogue.up? fewer owner ≠ some type)

include reached shortest

theorem injOn_up?_of_shortest :
    Set.InjOn (catalogue.up? · owner) (Finset.range (steps + 1) : Set Nat) := by
  have onward : ∀ first second, first < second → second ≤ steps →
      catalogue.up? first owner ≠ catalogue.up? second owner := by
    intro first second apart within again
    obtain ⟨fewer, less, same⟩ := exists_shorter apart within again
    exact shortest fewer less (same.trans reached)
  intro first among second other again
  have firstWithin := Finset.mem_range.mp (Finset.mem_coe.mp among)
  have secondWithin := Finset.mem_range.mp (Finset.mem_coe.mp other)
  rcases Nat.lt_trichotomy first second with less | same | more
  · exact absurd again (onward first second less (by omega))
  · exact same
  · exact absurd again.symm (onward second first more (by omega))

/-- The types on a shortest way are all different, so the chain has more of them than steps. -/
theorem lt_of_shortest {limit : Nat} (few : (catalogue.chain owner).encard ≤ limit) :
    steps < limit := by
  have distinct := injOn_up?_of_shortest reached shortest
  have listed : (catalogue.up? · owner) '' (Finset.range (steps + 1) : Set Nat) ⊆
      some '' catalogue.chain owner := by
    rintro _ ⟨place, among, rfl⟩
    have within := Finset.mem_range.mp (Finset.mem_coe.mp among)
    obtain ⟨passed, here⟩ := exists_up?_of_le reached (Nat.le_of_lt_succ within)
    exact ⟨passed, ⟨place, here⟩, here.symm⟩
  have counted : ((steps + 1 : Nat) : ℕ∞) ≤ limit := by
    calc
      ((steps + 1 : Nat) : ℕ∞) = (Finset.range (steps + 1) : Set Nat).encard := by
        rw [Set.encard_coe_eq_coe_finsetCard, Finset.card_range]
      _ = ((catalogue.up? · owner) '' (Finset.range (steps + 1) : Set Nat)).encard :=
        distinct.encard_image.symm
      _ ≤ (some '' catalogue.chain owner).encard := Set.encard_le_encard listed
      _ = (catalogue.chain owner).encard := (Option.some_injective String).encard_image _
      _ ≤ limit := few
  exact Nat.cast_le.mp counted

end Shortest

/-- On a chain of few types, each is few steps up. -/
theorem exists_short_way {limit : Nat} {type : String}
    (few : (catalogue.chain owner).encard ≤ limit) (above : type ∈ catalogue.chain owner) :
    ∃ steps < limit, catalogue.up? steps owner = some type := by
  classical
  have way : ∃ steps, catalogue.up? steps owner = some type := above
  have shortest : ∀ fewer < Nat.find way, catalogue.up? fewer owner ≠ some type :=
    fun fewer less => Nat.find_min way less
  exact ⟨Nat.find way, lt_of_shortest (Nat.find_spec way) shortest few, Nat.find_spec way⟩

/-! ### The nearest entry -/

/-- A type so many steps up has the entry for the method, and none before it has one. -/
structure NearestAt (catalogue : Catalogue) (table : MethodTable) (owner name : String)
    (steps : Nat) (entry : CatalogueEntry) : Prop where
  here : ∃ type, catalogue.up? steps owner = some type ∧ table.lookup (type, name) = some entry
  first : ∀ fewer < steps, ∀ type, catalogue.up? fewer owner = some type →
    table.lookup (type, name) = none

theorem nearestAt_zero {entry : CatalogueEntry} :
    catalogue.NearestAt table owner name 0 entry ↔ table.lookup (owner, name) = some entry := by
  constructor
  · intro nearest
    obtain ⟨type, reached, held⟩ := nearest.here
    rw [Option.some.inj reached]
    exact held
  · intro held
    exact ⟨⟨owner, rfl, held⟩, fun fewer less => absurd less (Nat.not_lt_zero fewer)⟩

theorem nearestAt_succ {steps : Nat} {entry : CatalogueEntry} :
    catalogue.NearestAt table owner name (steps + 1) entry ↔
      table.lookup (owner, name) = none ∧ ∃ parent, catalogue.parents.lookup owner = some parent ∧
        catalogue.NearestAt table parent name steps entry := by
  constructor
  · intro nearest
    obtain ⟨type, reached, held⟩ := nearest.here
    obtain ⟨parent, next, onward⟩ := Option.bind_eq_some_iff.mp reached
    refine ⟨nearest.first 0 (Nat.succ_pos steps) owner rfl, parent, next, ⟨type, onward, held⟩, ?_⟩
    intro fewer less other way
    apply nearest.first (fewer + 1) (Nat.succ_lt_succ less)
    exact Option.bind_eq_some_iff.mpr ⟨parent, next, way⟩
  · intro above
    obtain ⟨missing, parent, next, nearest⟩ := above
    obtain ⟨type, reached, held⟩ := nearest.here
    refine ⟨⟨type, Option.bind_eq_some_iff.mpr ⟨parent, next, reached⟩, held⟩, ?_⟩
    intro fewer less other way
    cases fewer with
    | zero =>
        rw [← Option.some.inj way]
        exact missing
    | succ fewer =>
        obtain ⟨above, same, onward⟩ := Option.bind_eq_some_iff.mp way
        rw [Option.some.inj (same.symm.trans next)] at onward
        exact nearest.first fewer (Nat.lt_of_succ_lt_succ less) other onward

/-- A look-up finds the nearest entry, if it is not more steps up than are tried. -/
theorem findFrom_eq_some_iff {tries : Nat} {entry : CatalogueEntry} :
    catalogue.findFrom table name tries owner = some entry ↔
      ∃ steps < tries, catalogue.NearestAt table owner name steps entry := by
  induction tries generalizing owner with
  | zero => simp [findFrom]
  | succ tries ih =>
      unfold findFrom
      rw [Nat.exists_lt_succ_left]
      simp only [nearestAt_zero, nearestAt_succ]
      cases table.lookup (owner, name) with
      | some held => simp
      | none =>
          cases catalogue.parents.lookup owner with
          | none => simp
          | some parent => simpa using ih

theorem NearestAt.lt {limit steps : Nat} {entry : CatalogueEntry}
    (nearest : catalogue.NearestAt table owner name steps entry)
    (few : (catalogue.chain owner).encard ≤ limit) : steps < limit := by
  obtain ⟨type, reached, held⟩ := nearest.here
  obtain ⟨fewer, less, way⟩ := exists_short_way few ⟨steps, reached⟩
  by_contra far
  have missing := nearest.first fewer (by omega) type way
  rw [held] at missing
  cases missing

/-- If some type on the chain has an entry, one of them is the nearest that has one. -/
theorem exists_nearestAt {type : String} {held : CatalogueEntry}
    (above : type ∈ catalogue.chain owner) (own : table.lookup (type, name) = some held) :
    ∃ steps entry, catalogue.NearestAt table owner name steps entry := by
  classical
  have way : ∃ steps type entry, catalogue.up? steps owner = some type ∧
      table.lookup (type, name) = some entry := by
    obtain ⟨steps, reached⟩ := above
    exact ⟨steps, type, held, reached, own⟩
  obtain ⟨nearest, entry, reached, found⟩ := Nat.find_spec way
  refine ⟨Nat.find way, entry, ⟨nearest, reached, found⟩, ?_⟩
  intro fewer less passed here
  cases missing : table.lookup (passed, name) with
  | none => rfl
  | some other => exact absurd ⟨passed, other, here, missing⟩ (Nat.find_min way less)

section FewTypes

variable (few : (catalogue.chain owner).encard ≤ 32)

include few

theorem find?_eq_some_iff {entry : CatalogueEntry} :
    catalogue.find? table owner name = some entry ↔
      ∃ steps, catalogue.NearestAt table owner name steps entry := by
  unfold find?
  rw [findFrom_eq_some_iff]
  constructor
  · intro tried
    obtain ⟨steps, _, nearest⟩ := tried
    exact ⟨steps, nearest⟩
  · intro found
    obtain ⟨steps, nearest⟩ := found
    exact ⟨steps, nearest.lt few, nearest⟩

theorem find?_eq_none_iff :
    catalogue.find? table owner name = none ↔
      ∀ type ∈ catalogue.chain owner, table.lookup (type, name) = none := by
  constructor
  · intro nothing type above
    cases own : table.lookup (type, name) with
    | none => rfl
    | some held =>
        obtain ⟨steps, entry, nearest⟩ := exists_nearestAt above own
        rw [(find?_eq_some_iff few).mpr ⟨steps, nearest⟩] at nothing
        cases nothing
  · intro missing
    cases found : catalogue.find? table owner name with
    | none => rfl
    | some entry =>
        obtain ⟨steps, nearest⟩ := (find?_eq_some_iff few).mp found
        obtain ⟨type, reached, held⟩ := nearest.here
        rw [missing type ⟨steps, reached⟩] at held
        cases held

end FewTypes

/-- If at most 32 types are on the chain of a type, itself included, a look-up is exact: what it
finds is the entry of the first type on the chain that has one for the method, and it finds nothing
if and only if no type on the chain has one. This holds of methods of instances and of types alike,
and whether the chain ends or runs into a loop. -/
theorem nearest_entry_is_found (few : (catalogue.chain owner).encard ≤ 32) (table : MethodTable)
    (name : String) :
    (∀ entry, catalogue.find? table owner name = some entry ↔
      ∃ steps, catalogue.NearestAt table owner name steps entry) ∧
    (catalogue.find? table owner name = none ↔
      ∀ type ∈ catalogue.chain owner, table.lookup (type, name) = none) :=
  ⟨fun _ => find?_eq_some_iff few, find?_eq_none_iff few⟩

/-- The name of a type on a winding stair. -/
def stair (step : Nat) : String :=
  String.ofList (List.replicate step 'i')

/-- A stair that leads from its top step back to the fifth. Only the type on the top step has the
method, as a method of the type. -/
def windingStair (top : Nat) : List CatalogueDef :=
  (List.range top).map (fun step => .parent (stair step) (stair (step + 1))) ++
    [.parent (stair top) (stair 4),
      .typeMethod (stair top) "climb" { params := [], result := .nil }]

theorem windingStair_parents : ∀ step < 32,
    (ofDefs (windingStair 31)).parents.lookup (stair step) =
      some (stair (if step < 31 then step + 1 else 4)) := by
  decide +kernel

theorem windingStair_chain : ((ofDefs (windingStair 31)).chain (stair 0)).encard ≤ 32 := by
  have steps : (ofDefs (windingStair 31)).chain (stair 0) ⊆
      stair '' (Finset.range 32 : Set Nat) := by
    apply chain_subset
    · exact ⟨0, by simp, rfl⟩
    · rintro _ ⟨step, among, rfl⟩ parent next
      have within := Finset.mem_range.mp (Finset.mem_coe.mp among)
      rw [windingStair_parents step within] at next
      obtain rfl := Option.some.inj next
      refine ⟨_, Finset.mem_coe.mpr (Finset.mem_range.mpr ?_), rfl⟩
      split <;> omega
  calc
    _ ≤ (stair '' (Finset.range 32 : Set Nat)).encard := Set.encard_le_encard steps
    _ ≤ (Finset.range 32 : Set Nat).encard := Set.encard_image_le _ _
    _ = 32 := by rw [Set.encard_coe_eq_coe_finsetCard, Finset.card_range]; rfl

theorem windingStair_is_climbed :
    let catalogue := ofDefs (windingStair 31)
    let entry : CatalogueEntry := { overloads := [{ params := [], result := .nil }] }
    (catalogue.chain (stair 0)).encard ≤ 32 ∧
      catalogue.find? catalogue.ofTypes (stair 0) "climb" = some entry ∧
      (∃ steps, catalogue.NearestAt catalogue.ofTypes (stair 0) "climb" steps entry) ∧
      catalogue.find? catalogue.ofInstances (stair 0) "climb" = none ∧
      ∀ type ∈ catalogue.chain (stair 0), catalogue.ofInstances.lookup (type, "climb") = none := by
  intro catalogue entry
  have found : catalogue.find? catalogue.ofTypes (stair 0) "climb" = some entry := by rfl
  have nothing : catalogue.find? catalogue.ofInstances (stair 0) "climb" = none := by rfl
  have ofTypes := nearest_entry_is_found windingStair_chain catalogue.ofTypes "climb"
  have ofInstances := nearest_entry_is_found windingStair_chain catalogue.ofInstances "climb"
  exact ⟨windingStair_chain, found, (ofTypes.1 entry).mp found, nothing,
    ofInstances.2.mp nothing⟩

-- The top step of a longer stair is out of reach.
example : ((ofDefs (windingStair 32)).find? (ofDefs (windingStair 32)).ofTypes (stair 0)
    "climb").isNone := by
  decide +kernel

end HeuristicTyping.Catalogue
