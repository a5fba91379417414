import HeuristicTyping.Proofs.Registries
import HeuristicTyping.Proofs.TypeIndex.Ancestry

/-!
# Who answers for a method

A hierarchy knows the arities of methods, and a registry knows their definitions. Each goes up from
a type by itself and stops at the first one that has the method. If the two hold the same methods
type by type, then both stop at the same type, whatever the hierarchy is like: a line of ancestors
names no type twice and not the one that it starts from, so passing over the start is no loss.
-/

set_option autoImplicit false

namespace HeuristicTyping

/-! ### Lines of ancestors -/

namespace Hierarchy

variable {hierarchy : Hierarchy}

theorem nodup_snoc_seen {start new : String} {found : List String}
    (apart : (start :: found).Nodup) (unseen : new ∉ start :: found) :
    (start :: (found ++ [new])).Nodup := by
  rw [← List.cons_append, ← List.concat_eq_append]
  exact apart.concat unseen

theorem nodup_gathered {start : String} (name : String) {found : List String}
    (apart : (start :: found).Nodup) : (start :: hierarchy.gathered start name found).Nodup := by
  unfold gathered
  induction hierarchy.mixinsOf name generalizing found with
  | nil => exact apart
  | cons mixin mixins ih =>
      rw [List.foldl_cons]
      apply ih
      split_ifs with itself
      · exact apart
      · unfold addName
        split_ifs with listed
        · exact apart
        · exact nodup_snoc_seen apart (by simp [itself, listed])

theorem Climbs.nodup {start name : String} {found result : List String}
    (climbs : hierarchy.Climbs start name found result) (apart : (start :: found).Nodup) :
    (start :: result).Nodup := by
  induction climbs with
  | stop ended => exact nodup_gathered _ apart
  | up above new rest ih =>
      exact ih (nodup_snoc_seen (nodup_gathered _ apart) new)

/-- A type and its ancestors are different types. -/
theorem lineage_nodup (hierarchy : Hierarchy) (name : String) : (hierarchy.lineage name).Nodup :=
  (hierarchy.climbs_ancestors name).nodup (List.nodup_singleton name)

/-! ### Owners -/

/-- The nearest type on the lineage of a type that has a method itself. -/
def methodOwner? (hierarchy : Hierarchy) (name method : String) : Option String :=
  (hierarchy.lineage name).find? fun owner => (hierarchy.ownMethod? owner method).isSome

end Hierarchy

theorem findSome?_eq_find?_bind {α β : Type} {answer : α → Option β} {has : α → Bool}
    {elements : List α} (agree : ∀ element, (answer element).isSome = has element) :
    elements.findSome? answer = (elements.find? has).bind answer := by
  induction elements with
  | nil => rfl
  | cons element elements ih =>
      rw [List.findSome?_cons, List.find?_cons, ← agree]
      cases own : answer element with
      | none => exact ih
      | some result => exact own.symm

namespace Hierarchy

variable {hierarchy : Hierarchy}

theorem method?_eq (hierarchy : Hierarchy) (name method : String) :
    hierarchy.method? name method =
      (hierarchy.methodOwner? name method).bind (hierarchy.ownMethod? · method) :=
  findSome?_eq_find?_bind fun _ => rfl

theorem ownMethod?_of_methodOwner? {name method owner : String}
    (nearest : hierarchy.methodOwner? name method = some owner) :
    (hierarchy.ownMethod? owner method).isSome := by
  unfold methodOwner? at nearest
  simpa using List.find?_some nearest

end Hierarchy

theorem RegistryTable.isSome_get? (table : RegistryTable) (owner name : String) :
    (table.get? owner name).isSome ↔ table.registrations { owner, name } ≠ [] := by
  rw [get?_eq_winner, Option.isSome_map]
  cases table.precedence <;> simp [Precedence.winner]

/-- A look-up by way of a hierarchy goes along the lineage: the owner, which it passes over among
the ancestors, is not one of them. -/
theorem RegistryTable.lookup?_index (table : RegistryTable) (hierarchy : Hierarchy)
    (owner name : String) :
    table.lookup? owner name (some hierarchy.index) =
      (hierarchy.lineage owner).findSome? fun ancestor => table.get? ancestor name := by
  have apart : owner ∉ hierarchy.ancestors owner :=
    (List.nodup_cons.mp (hierarchy.lineage_nodup owner)).1
  have kept : (hierarchy.ancestors owner).filter (fun ancestor => ancestor != owner) =
      hierarchy.ancestors owner := by
    refine List.filter_eq_self.mpr fun ancestor above => ?_
    simpa using fun same : ancestor = owner => apart (same ▸ above)
  unfold lookup? inherited? Hierarchy.lineage
  rw [List.findSome?_cons]
  cases table.get? owner name with
  | some node => rfl
  | none => exact congrArg (List.findSome? fun ancestor => table.get? ancestor name) kept

namespace MethodRegistry

/-- The registry holds a method of instances for the types for which the hierarchy records it, and
for no others. -/
def Mirrors (registry : MethodRegistry) (hierarchy : Hierarchy) : Prop :=
  ∀ owner name, registry.ofInstances.registrations { owner, name } ≠ [] ↔
    (hierarchy.ownMethod? owner name).isSome

theorem lookup?_eq {registry : MethodRegistry} {hierarchy : Hierarchy}
    (mirrors : registry.Mirrors hierarchy) (name method : String) :
    registry.lookup? name method false (some hierarchy.index) =
      (hierarchy.methodOwner? name method).bind (registry.ofInstances.get? · method) := by
  have agree : ∀ owner, (registry.ofInstances.get? owner method).isSome =
      (hierarchy.ownMethod? owner method).isSome := by
    intro owner
    rw [Bool.eq_iff_iff, RegistryTable.isSome_get?]
    exact mirrors owner method
  have along := registry.ofInstances.lookup?_index hierarchy name method
  rw [findSome?_eq_find?_bind agree] at along
  exact along

/-- A hierarchy and a registry that hold the same methods agree on which definition answers. The
ancestors of a type are different from it and from each other; a look-up by way of the hierarchy
finds a definition if and only if the hierarchy finds the method, and then both stop at the same
owner: the definition is the one registered for it, and the arity is the one recorded for it. -/
theorem index_and_registry_agree {registry : MethodRegistry} {hierarchy : Hierarchy}
    (mirrors : registry.Mirrors hierarchy) (name method : String) :
    (hierarchy.ancestors name).Nodup ∧ name ∉ hierarchy.ancestors name ∧
      ((registry.lookup? name method false (some hierarchy.index)).isSome ↔
        (hierarchy.method? name method).isSome) ∧
      ∀ node, registry.lookup? name method false (some hierarchy.index) = some node →
        ∃ owner arity, hierarchy.methodOwner? name method = some owner ∧
          registry.ofInstances.get? owner method = some node ∧
          hierarchy.method? name method = some arity ∧
          hierarchy.ownMethod? owner method = some arity := by
  obtain ⟨apart, distinct⟩ := List.nodup_cons.mp (hierarchy.lineage_nodup name)
  refine ⟨distinct, apart, ?_, ?_⟩
  · rw [lookup?_eq mirrors, hierarchy.method?_eq]
    cases nearest : hierarchy.methodOwner? name method with
    | none => simp
    | some owner =>
        have recorded := Hierarchy.ownMethod?_of_methodOwner? nearest
        have registered := (registry.ofInstances.isSome_get? owner method).mpr
          ((mirrors owner method).mpr recorded)
        simp [recorded, registered]
  · intro node found
    rw [lookup?_eq mirrors] at found
    obtain ⟨owner, nearest, held⟩ := Option.bind_eq_some_iff.mp found
    obtain ⟨arity, recorded⟩ :=
      Option.isSome_iff_exists.mp (Hierarchy.ownMethod?_of_methodOwner? nearest)
    refine ⟨owner, arity, nearest, held, ?_, recorded⟩
    rw [hierarchy.method?_eq, nearest]
    exact recorded

/-! ### Registries that are filled along with a hierarchy -/

/-- Registers a node for a definition that is one of a method of instances. -/
def note (registry : MethodRegistry) (node : NodeId) : HierarchyDef → MethodRegistry
  | .method owner name _ => registry.register owner name false node
  | _ => registry

/-- The registry that has taken note of definitions, each with its node. -/
def noted (definitions : List (HierarchyDef × NodeId)) : MethodRegistry :=
  definitions.foldl (fun registry entry => registry.note entry.2 entry.1) {}

end MethodRegistry

namespace Hierarchy

theorem entry_update (hierarchy : Hierarchy) (name other : String) (kind : ConstantKind)
    {change : TypeEntry → TypeEntry} (named : ∀ entry, (change entry).name = entry.name) :
    Hierarchy.entry? (hierarchy.update name kind change) other =
      if other = name then some (change ((hierarchy.entry? name).getD { name, kind }))
      else hierarchy.entry? other := by
  unfold update
  split
  · rename_i known
    have found : ∀ entry, hierarchy.entry? other = some entry → entry.name = other :=
      fun entry held => by simpa using List.find?_some held
    have kept : (fun entry : TypeEntry => entry.name == other) ∘
        (fun entry => if entry.name = name then change entry else entry) =
        fun entry => entry.name == other := by
      funext entry
      by_cases same : entry.name = name <;> simp [same, named]
    have changed : Hierarchy.entry?
        { entries := hierarchy.entries.map fun entry =>
            if entry.name = name then change entry else entry } other =
        (hierarchy.entry? other).map fun entry =>
          if entry.name = name then change entry else entry := by
      unfold entry?
      rw [List.find?_map, kept]
    rw [changed]
    split
    · rename_i same
      subst same
      obtain ⟨entry, held⟩ := Option.isSome_iff_exists.mp known
      simp [held, found entry held]
    · rename_i apart
      cases held : hierarchy.entry? other with
      | none => rfl
      | some entry => simp [found entry held, apart]
  · rename_i unknown
    have missing : hierarchy.entry? name = none := by simpa [contains] using unknown
    unfold entry? at missing ⊢
    rw [List.find?_append, missing]
    split
    · rename_i same
      subst same
      simp [missing, named]
    · rename_i apart
      have passed : (name == other) = false := by simpa using Ne.symm apart
      simp [named, passed]

theorem ownMethod?_update (hierarchy : Hierarchy) (name : String) (kind : ConstantKind)
    {change : TypeEntry → TypeEntry} (named : ∀ entry, (change entry).name = entry.name)
    (owner method : String) :
    (hierarchy.update name kind change).ownMethod? owner method =
      if owner = name then
        (change ((hierarchy.entry? name).getD { name, kind })).methods.lookup method
      else hierarchy.ownMethod? owner method := by
  unfold ownMethod?
  rw [entry_update hierarchy name owner kind named]
  split <;> rfl

/-- A type without an entry has the methods of a new one: none. -/
theorem ownMethod?_eq (hierarchy : Hierarchy) (name : String) (kind : ConstantKind)
    (method : String) :
    hierarchy.ownMethod? name method =
      ((hierarchy.entry? name).getD { name, kind }).methods.lookup method := by
  unfold ownMethod?
  cases hierarchy.entry? name <;> rfl

theorem ownMethod?_update_of_kept (hierarchy : Hierarchy) (name : String) (kind : ConstantKind)
    {change : TypeEntry → TypeEntry} (named : ∀ entry, (change entry).name = entry.name)
    (kept : ∀ entry, (change entry).methods = entry.methods) (owner method : String) :
    (hierarchy.update name kind change).ownMethod? owner method =
      hierarchy.ownMethod? owner method := by
  rw [ownMethod?_update hierarchy name kind named]
  split
  · rename_i same
    rw [kept, same, ownMethod?_eq hierarchy name kind]
  · rfl

theorem isSome_lookup_setMethod (entry : TypeEntry) (method wanted : String)
    (arity : Option Arity) :
    ((entry.setMethod method arity).methods.lookup wanted).isSome ↔
      (entry.methods.lookup wanted).isSome ∨ method = wanted := by
  simp only [TypeEntry.setMethod, List.lookup_isSome_iff]
  constructor
  · rintro ⟨known, listed, same⟩
    rcases List.mem_cons.mp listed with rfl | kept
    · exact Or.inr (eq_of_beq same).symm
    · exact Or.inl ⟨known, List.mem_of_mem_filter kept, same⟩
  · rintro (⟨known, listed, same⟩ | rfl)
    · by_cases replaced : known.1 = method
      · exact ⟨(method, arity), List.mem_cons_self, replaced ▸ same⟩
      · refine ⟨known, List.mem_cons_of_mem _ (List.mem_filter.mpr ⟨listed, ?_⟩), same⟩
        simpa using replaced
    · exact ⟨(method, arity), List.mem_cons_self, by simp⟩

/-- A definition adds a method of instances only if it is the definition of one, and takes none
away. -/
theorem ownMethod?_define (hierarchy : Hierarchy) (definition : HierarchyDef)
    (owner name : String) :
    ((hierarchy.define definition).ownMethod? owner name).isSome ↔
      (hierarchy.ownMethod? owner name).isSome ∨
        ∃ arity, definition = .method owner name arity := by
  have unchanged : ∀ target kind (change : TypeEntry → TypeEntry),
      (∀ entry, (change entry).name = entry.name) →
      (∀ entry, (change entry).methods = entry.methods) →
      (∀ arity, definition ≠ .method owner name arity) →
      (((hierarchy.update target kind change).ownMethod? owner name).isSome ↔
        (hierarchy.ownMethod? owner name).isSome ∨
          ∃ arity, definition = .method owner name arity) := by
    intro target kind change named kept other
    rw [ownMethod?_update_of_kept hierarchy target kind named kept]
    simp [other]
  cases definition with
  | method target method arity =>
      have named : ∀ entry : TypeEntry, (entry.setMethod method arity).name = entry.name :=
        fun _ => rfl
      rw [define, ownMethod?_update hierarchy target .type named]
      split
      · rename_i same
        subst same
        rw [isSome_lookup_setMethod, ← ownMethod?_eq]
        simp
      · rename_i apart
        simp [Ne.symm apart]
  | ofClass _ _ | ofModule _ | mixIn _ _ | extend _ _ | typeMethod _ _ =>
      exact unchanged _ _ _ (fun _ => rfl) (fun _ => rfl) fun _ => HierarchyDef.noConfusion

end Hierarchy

namespace MethodRegistry

theorem registrations_note (registry : MethodRegistry) (node : NodeId) (definition : HierarchyDef)
    (owner name : String) :
    (registry.note node definition).ofInstances.registrations { owner, name } ≠ [] ↔
      registry.ofInstances.registrations { owner, name } ≠ [] ∨
        ∃ arity, definition = .method owner name arity := by
  cases definition with
  | method target method arity =>
      by_cases same : target = owner ∧ method = name
      · obtain ⟨rfl, rfl⟩ := same
        have added := registry.ofInstances.registrations_register_self target method node none
        simp [note, register, added]
      · have apart : MemberKey.mk owner name ≠ { owner := target, name := method } := by
          simpa [eq_comm] using same
        have kept := registry.ofInstances.registrations_register_of_ne node none apart
        have other : ¬ ∃ known, HierarchyDef.method target method arity =
            .method owner name known := by
          simpa using same
        simp only [note, register, Bool.false_eq_true, if_false, kept, other, or_false]
  | _ => simp [note]

/-- A registry that takes note of every definition mirrors the hierarchy that the definitions
make. -/
theorem noted_mirrors (definitions : List (HierarchyDef × NodeId)) :
    (noted definitions).Mirrors (Hierarchy.ofDefs (definitions.map Prod.fst)) := by
  have filled : ∀ registry hierarchy, Mirrors registry hierarchy →
      Mirrors (definitions.foldl (fun registry entry => registry.note entry.2 entry.1) registry)
        ((definitions.map Prod.fst).foldl Hierarchy.define hierarchy) := by
    induction definitions with
    | nil => exact fun _ _ mirrors => mirrors
    | cons entry definitions ih =>
        intro registry hierarchy mirrors
        refine ih _ _ fun owner name => ?_
        rw [registrations_note, Hierarchy.ownMethod?_define, mirrors owner name]
  exact filled {} {} fun _ _ => by simp [RegistryTable.registrations, Hierarchy.ownMethod?,
    Hierarchy.entry?]

/-- Two types that are each other's superclass, one of them with a mixin. A method of the mixin is
defined twice, one of the other type again on the mixin, and one type is opened again. -/
def fleet : List (HierarchyDef × NodeId) :=
  [(.ofClass "Sloop" (some "Boat"), 0), (.ofClass "Boat" (some "Sloop"), 1),
    (.method "Boat" "moor" none, 2), (.ofModule "Sails", 3), (.mixIn "Sloop" "Sails", 4),
    (.method "Sails" "tack" none, 5), (.method "Sails" "tack" (some { required := 1 }), 6),
    (.ofClass "Sloop" none, 7), (.method "Sails" "moor" (some { optional := 2 }), 8)]

theorem fleet_agrees :
    let hierarchy := Hierarchy.ofDefs (fleet.map Prod.fst)
    (noted fleet).Mirrors hierarchy ∧
      hierarchy.methodOwner? "Sloop" "moor" = some "Sails" ∧
      (noted fleet).lookup? "Sloop" "moor" false (some hierarchy.index) = some 8 ∧
      ∃ owner arity, hierarchy.methodOwner? "Sloop" "moor" = some owner ∧
        (noted fleet).ofInstances.get? owner "moor" = some 8 ∧
        hierarchy.method? "Sloop" "moor" = some arity ∧
        hierarchy.ownMethod? owner "moor" = some arity := by
  have found : (noted fleet).lookup? "Sloop" "moor" false
      (some (Hierarchy.ofDefs (fleet.map Prod.fst)).index) = some 8 := by decide
  have agree := index_and_registry_agree (noted_mirrors fleet) "Sloop" "moor"
  exact ⟨noted_mirrors fleet, by decide, found, agree.2.2.2 8 found⟩

end MethodRegistry

end HeuristicTyping
