import HeuristicTyping.TypeIndex.Hierarchy
import Mathlib.Data.List.Nodup
import Mathlib.Order.WellFoundedSet

/-!
# Ancestors of ancestors

The climb from a type goes up the line of its superclasses and gathers the mixins of every type on
it. It does not go up from a mixin, and it ends at a superclass that was gathered before. So a type
may lack what one of its ancestors inherits. It never does if every type has the ancestors of its
own mixins, and only then: `Hierarchy.isTransitive_iff`. That the ancestors of superclasses are
there as well follows, although the two climbs may part where one of them meets a mixin again.
-/

set_option autoImplicit false

namespace HeuristicTyping

namespace Ancestry

/-- What is above an ancestor of a type is above the type, or is the type itself. Types may be
ancestors of each other. -/
def IsTransitive (ancestors : String → List String) : Prop :=
  ∀ name other third, other ∈ ancestors name → third ∈ ancestors other → third ≠ name →
    third ∈ ancestors name

/-- No two types are ancestors of each other. A type may be listed among its own ancestors. -/
def IsLoopFree (ancestors : String → List String) : Prop :=
  ∀ name other, other ∈ ancestors name → name ∈ ancestors other → other = name

/-- Where nothing is below itself, the way up from each of finitely many types leads to one that is
below none of them. -/
theorem exists_top {below : String → String → Prop}
    (acyclic : ∀ name, ¬ Relation.TransGen below name name) {among : Set String}
    (finite : among.Finite) {name : String} (listed : name ∈ among) :
    ∃ top ∈ among, Relation.ReflTransGen below name top ∧ ∀ other ∈ among, ¬ below top other := by
  have strict : IsStrictOrder String fun upper lower => Relation.TransGen below lower upper :=
    { irrefl := acyclic
      trans := fun _ _ _ upper lower => lower.trans upper }
  have upward : among.WellFoundedOn fun upper lower => Relation.TransGen below lower upper :=
    finite.wellFoundedOn
  apply upward.induction listed
  intro name listed ih
  by_cases covered : ∃ other ∈ among, below name other
  · obtain ⟨other, held, step⟩ := covered
    obtain ⟨top, topHeld, path, free⟩ := ih other held (.single step)
    exact ⟨top, topHeld, .head step path, free⟩
  · exact ⟨name, listed, .refl, fun other held step => covered ⟨other, held, step⟩⟩

end Ancestry

theorem mem_addName {names : List String} {name other : String} :
    other ∈ addName names name ↔ other ∈ names ∨ other = name := by
  unfold addName
  split_ifs with listed
  · exact ⟨Or.inl, fun either => either.elim id fun same => same ▸ listed⟩
  · simp

namespace Hierarchy

variable {hierarchy : Hierarchy}

/-! ### Parents -/

/-- The mixins of a type, in the order in which methods are looked up. -/
def mixinsOf (hierarchy : Hierarchy) (name : String) : List String :=
  ((hierarchy.entry? name).map TypeEntry.mixins).getD []

def superclassOf? (hierarchy : Hierarchy) (name : String) : Option String :=
  (hierarchy.entry? name).bind TypeEntry.superclass

/-- The second type is a mixin or the superclass of the first. -/
def Parent (hierarchy : Hierarchy) (name parent : String) : Prop :=
  parent ∈ hierarchy.mixinsOf name ∨ hierarchy.superclassOf? name = some parent

/-- What was found, and the mixins of a type behind it. -/
def gathered (hierarchy : Hierarchy) (start name : String) (found : List String) : List String :=
  (hierarchy.mixinsOf name).foldl
    (fun found mixin => if mixin = start then found else addName found mixin) found

theorem mem_gathered {start name other : String} {found : List String} :
    other ∈ hierarchy.gathered start name found ↔
      other ∈ found ∨ (other ≠ start ∧ other ∈ hierarchy.mixinsOf name) := by
  unfold gathered
  induction hierarchy.mixinsOf name generalizing found with
  | nil => simp
  | cons mixin mixins ih =>
      rw [List.foldl_cons, ih, List.mem_cons]
      split_ifs with same
      · subst same
        tauto
      · rw [mem_addName]
        constructor
        · rintro ((listed | rfl) | ⟨apart, listed⟩)
          · exact Or.inl listed
          · exact Or.inr ⟨same, Or.inl rfl⟩
          · exact Or.inr ⟨apart, Or.inr listed⟩
        · tauto

theorem mem_seen {start name other : String} {found : List String} :
    other ∈ start :: hierarchy.gathered start name found ↔
      other ∈ start :: found ∨ other ∈ hierarchy.mixinsOf name := by
  simp only [List.mem_cons, mem_gathered]
  by_cases same : other = start <;> simp [same]

theorem mem_seen_up {start name superclass other : String} {found : List String}
    (above : hierarchy.superclassOf? name = some superclass) :
    other ∈ start :: (hierarchy.gathered start name found ++ [superclass]) ↔
      other ∈ start :: found ∨ hierarchy.Parent name other := by
  rw [← List.cons_append, List.mem_append, mem_seen, List.mem_singleton, Parent, above, or_assoc,
    Option.some.injEq, @eq_comm _ superclass]

/-! ### Climbs -/

/-- A climb from `start` that has come to a type and has `found` some names ends with the names in
`result`. -/
inductive Climbs (hierarchy : Hierarchy) (start : String) :
    (name : String) → (found result : List String) → Prop
  | stop {name : String} {found : List String}
      (ended : ∀ superclass, hierarchy.superclassOf? name = some superclass →
        superclass ∈ start :: hierarchy.gathered start name found) :
      Climbs hierarchy start name found (hierarchy.gathered start name found)
  | up {name superclass : String} {found result : List String}
      (above : hierarchy.superclassOf? name = some superclass)
      (new : superclass ∉ start :: hierarchy.gathered start name found)
      (rest : Climbs hierarchy start superclass
        (hierarchy.gathered start name found ++ [superclass]) result) :
      Climbs hierarchy start name found result

theorem climb_succ (hierarchy : Hierarchy) (start : String) (steps : Nat) (name : String)
    (found : List String) :
    hierarchy.climb start (steps + 1) name found =
      match hierarchy.superclassOf? name with
      | none => hierarchy.gathered start name found
      | some superclass =>
          if superclass ∈ start :: hierarchy.gathered start name found then
            hierarchy.gathered start name found
          else hierarchy.climb start steps superclass
            (hierarchy.gathered start name found ++ [superclass]) := by
  rw [climb, superclassOf?, gathered, mixinsOf]
  cases hierarchy.entry? name with
  | none => rfl
  | some entry =>
      cases above : entry.superclass with
      | none => simp [above]
      | some superclass => simp [above]

theorem contains_of_parent {name parent : String} (parental : hierarchy.Parent name parent) :
    hierarchy.contains name = true := by
  unfold Parent mixinsOf superclassOf? at parental
  unfold contains
  cases held : hierarchy.entry? name with
  | none => simp [held] at parental
  | some entry => rfl

theorem exists_entry {name : String} (known : hierarchy.contains name = true) :
    ∃ entry ∈ hierarchy.entries, entry.name = name := by
  obtain ⟨entry, held⟩ := Option.isSome_iff_exists.mp known
  exact ⟨entry, List.mem_of_find?_eq_some held, by simpa using List.find?_some held⟩

theorem length_le_of_contains {names : List String} (apart : names.Nodup)
    (known : ∀ name ∈ names, hierarchy.contains name = true) :
    names.length ≤ hierarchy.entries.length := by
  have inside : names ⊆ hierarchy.entries.map TypeEntry.name := by
    intro name listed
    obtain ⟨entry, held, rfl⟩ := exists_entry (known name listed)
    exact List.mem_map_of_mem held
  simpa using apart.length_le_of_subset inside

/-- The steps are enough for a climb to its end: the types that it has left behind are different
and have entries, so there are no more of them than entries. -/
theorem climbs_climb {start name : String} {found left : List String} {steps : Nat}
    (apart : left.Nodup) (known : ∀ lower ∈ left, hierarchy.contains lower = true)
    (seen : name :: left ⊆ start :: found) (new : name ∉ left)
    (enough : hierarchy.entries.length < steps + left.length) :
    hierarchy.Climbs start name found (hierarchy.climb start steps name found) := by
  induction steps generalizing name found left with
  | zero =>
      have bounded := length_le_of_contains apart known
      omega
  | succ steps ih =>
      rw [climb_succ]
      split
      · rename_i top
        exact .stop fun superclass above => by simp [top] at above
      · rename_i superclass above
        split_ifs with again
        · refine .stop fun other same => ?_
          rw [above] at same
          exact Option.some.inj same ▸ again
        · have kept : name :: left ⊆ start :: hierarchy.gathered start name found :=
            fun lower listed => mem_seen.mpr (Or.inl (seen listed))
          have fresh : (name :: left).Nodup := List.nodup_cons.mpr ⟨new, apart⟩
          refine .up above again (ih fresh ?_ ?_ ?_ ?_)
          · exact List.forall_mem_cons.mpr ⟨contains_of_parent (Or.inr above), known⟩
          · rw [List.cons_subset, ← List.cons_append]
            exact ⟨by simp, fun lower listed => List.mem_append_left _ (kept listed)⟩
          · exact fun listed => again (kept listed)
          · simp only [List.length_cons]
            omega

theorem climbs_ancestors (hierarchy : Hierarchy) (name : String) :
    hierarchy.Climbs name name [] (hierarchy.ancestors name) :=
  climbs_climb List.nodup_nil (by simp) (by simp) (by simp) (by simp)

namespace Climbs

variable {start other name : String} {found result otherFound otherResult : List String}

theorem gathered_subset (climbs : hierarchy.Climbs start name found result) :
    hierarchy.gathered start name found ⊆ result := by
  induction climbs with
  | stop ended => exact List.Subset.refl _
  | up above new rest ih =>
      intro lower listed
      exact ih (mem_gathered.mpr (Or.inl (List.mem_append_left _ listed)))

theorem found_subset (climbs : hierarchy.Climbs start name found result) : found ⊆ result :=
  fun _ listed => climbs.gathered_subset (mem_gathered.mpr (Or.inl listed))

/-- The parents of a type that a climb comes to are the start of the climb or found. -/
theorem parent_mem (climbs : hierarchy.Climbs start name found result) {parent : String}
    (parental : hierarchy.Parent name parent) : parent ∈ start :: result := by
  cases climbs with
  | stop ended =>
      rcases parental with mixin | above
      · exact mem_seen.mpr (Or.inr mixin)
      · exact ended parent above
  | up above new rest =>
      exact List.cons_subset_cons _ rest.found_subset ((mem_seen_up above).mpr (Or.inr parental))

theorem next (climbs : hierarchy.Climbs start name found result) {superclass : String}
    (above : hierarchy.superclassOf? name = some superclass) :
    superclass ∈ start :: hierarchy.gathered start name found ∨
      hierarchy.Climbs start superclass (hierarchy.gathered start name found ++ [superclass])
        result := by
  cases climbs with
  | stop ended => exact Or.inl (ended superclass above)
  | up same new rest =>
      obtain rfl := Option.some.inj (above.symm.trans same)
      exact Or.inr rest

/-- What was not found before is reached by going from parent to parent. -/
theorem reached (climbs : hierarchy.Climbs start name found result) {target : String}
    (listed : target ∈ start :: result) :
    target ∈ start :: found ∨ Relation.TransGen hierarchy.Parent name target := by
  induction climbs with
  | stop ended => exact (mem_seen.mp listed).imp_right fun mixin => .single (Or.inl mixin)
  | up above new rest ih =>
      rcases ih listed with early | later
      · exact ((mem_seen_up above).mp early).imp_right .single
      · exact Or.inr (.head (Or.inr above) later)

/-- Having seen more, a climb does not come further. -/
theorem subset_of_seen (climbs : hierarchy.Climbs start name found result)
    (others : hierarchy.Climbs other name otherFound otherResult)
    (seen : other :: otherFound ⊆ start :: found) {target : String}
    (listed : target ∈ start :: result) :
    target ∈ start :: found ∨ target ∈ other :: otherResult := by
  induction climbs generalizing otherFound with
  | stop ended =>
      exact (mem_seen.mp listed).imp_right fun mixin => others.parent_mem (Or.inl mixin)
  | @up name superclass found result above new rest ih =>
      cases others with
      | stop ended =>
          -- The other climb has seen the superclass, so this one has too.
          rcases mem_seen.mp (ended _ above) with early | mixin
          · exact absurd (mem_seen.mpr (Or.inl (seen early))) new
          · exact absurd (mem_seen.mpr (Or.inr mixin)) new
      | up otherAbove otherNew otherRest =>
          obtain rfl := Option.some.inj (above.symm.trans otherAbove)
          have within : other :: (hierarchy.gathered other name otherFound ++ [superclass]) ⊆
              start :: (hierarchy.gathered start name found ++ [superclass]) := by
            intro lower held
            rw [mem_seen_up above] at held ⊢
            exact held.imp_left fun early => seen early
          rcases ih otherRest within listed with early | later
          · refine ((mem_seen_up above).mp early).imp_right fun parental => ?_
            exact List.cons_subset_cons _ otherRest.found_subset
              ((mem_seen_up above).mpr (Or.inr parental))
          · exact Or.inr later

/-- A climb that has seen less comes further, but only from where the other one has come to by
another way. If it leads nowhere from there, then it finds nothing new. -/
theorem subset_of_stopped (climbs : hierarchy.Climbs start name found result)
    (others : hierarchy.Climbs other name otherFound otherResult)
    (within : other :: otherFound ⊆ start :: result)
    (apart : ∀ lower ∈ start :: found, lower ∈ other :: otherFound ∨
      hierarchy.lineage lower ⊆ start :: result) :
    other :: otherResult ⊆ start :: result := by
  induction climbs generalizing otherFound with
  | @stop name found ended =>
      have parents : ∀ parent, hierarchy.Parent name parent →
          parent ∈ start :: hierarchy.gathered start name found := fun parent =>
        (Climbs.stop ended).parent_mem
      cases others with
      | stop otherEnded =>
          intro target listed
          rcases mem_seen.mp listed with early | mixin
          · exact within early
          · exact parents target (Or.inl mixin)
      | @up _ superclass _ _ above new rest =>
          -- The first climb has come to the superclass by another way.
          have inherited : hierarchy.lineage superclass ⊆
              start :: hierarchy.gathered start name found := by
            rcases mem_seen.mp (ended superclass above) with early | mixin
            · refine (apart superclass early).resolve_left fun seen => ?_
              exact new (mem_seen.mpr (Or.inl seen))
            · exact absurd (mem_seen.mpr (Or.inr mixin)) new
          intro target listed
          rcases rest.subset_of_seen (hierarchy.climbs_ancestors superclass) (by simp) listed
            with early | later
          · rcases (mem_seen_up above).mp early with seen | parental
            · exact within seen
            · exact parents target parental
          · exact inherited later
  | @up name superclass found result above new rest ih =>
      have parents : ∀ parent, hierarchy.Parent name parent → parent ∈ start :: result :=
        fun parent => (Climbs.up above new rest).parent_mem
      cases others with
      | stop otherEnded =>
          intro target listed
          rcases mem_seen.mp listed with early | mixin
          · exact within early
          · exact parents target (Or.inl mixin)
      | up otherAbove otherNew otherRest =>
          obtain rfl := Option.some.inj (above.symm.trans otherAbove)
          apply ih otherRest
          · intro lower listed
            rcases (mem_seen_up above).mp listed with early | parental
            · exact within early
            · exact parents lower parental
          · intro lower listed
            rcases (mem_seen_up above).mp listed with early | parental
            · exact (apart lower early).imp_left fun seen =>
                (mem_seen_up above).mpr (Or.inl seen)
            · exact Or.inl ((mem_seen_up above).mpr (Or.inr parental))

end Climbs

/-! ### Lineages -/

theorem parent_mem_lineage {name parent : String} (parental : hierarchy.Parent name parent) :
    parent ∈ hierarchy.lineage name :=
  (hierarchy.climbs_ancestors name).parent_mem parental

theorem reached_of_mem_lineage {name ancestor : String}
    (listed : ancestor ∈ hierarchy.lineage name) :
    Relation.ReflTransGen hierarchy.Parent name ancestor := by
  rcases (hierarchy.climbs_ancestors name).reached listed with start | above
  · obtain rfl := List.mem_singleton.mp start
    exact .refl
  · exact above.to_reflTransGen

/-- A type has the lineage of its superclass if it has those of its mixins. -/
theorem superclass_lineage_subset {name superclass : String}
    (above : hierarchy.superclassOf? name = some superclass)
    (mixed : ∀ mixin ∈ hierarchy.mixinsOf name,
      hierarchy.lineage mixin ⊆ hierarchy.lineage name) :
    hierarchy.lineage superclass ⊆ hierarchy.lineage name := by
  have climbs := hierarchy.climbs_ancestors name
  rcases climbs.next above with seen | rest
  · rcases mem_seen.mp seen with itself | mixin
    · obtain rfl := List.mem_singleton.mp itself
      exact List.Subset.refl _
    · exact mixed superclass mixin
  · apply rest.subset_of_stopped (hierarchy.climbs_ancestors superclass)
    · simpa using climbs.parent_mem (Or.inr above)
    · intro lower listed
      rcases (mem_seen_up above).mp listed with itself | mixin | same
      · obtain rfl := List.mem_singleton.mp itself
        exact Or.inr (List.Subset.refl _)
      · exact Or.inr (mixed lower mixin)
      · obtain rfl := Option.some.inj (above.symm.trans same)
        exact Or.inl List.mem_cons_self

/-- The ancestors of a mixin of a type are ancestors of the type, or the type itself. -/
def InheritsFromMixins (hierarchy : Hierarchy) : Prop :=
  ∀ name mixin ancestor, mixin ∈ hierarchy.mixinsOf name →
    ancestor ∈ hierarchy.ancestors mixin → ancestor ≠ name → ancestor ∈ hierarchy.ancestors name

theorem parent_lineage_subset (inherits : hierarchy.InheritsFromMixins) {name parent : String}
    (parental : hierarchy.Parent name parent) :
    hierarchy.lineage parent ⊆ hierarchy.lineage name := by
  have mixed : ∀ mixin ∈ hierarchy.mixinsOf name,
      hierarchy.lineage mixin ⊆ hierarchy.lineage name := by
    intro mixin listed ancestor above
    rcases List.mem_cons.mp above with rfl | above
    · exact parent_mem_lineage (Or.inl listed)
    · by_cases itself : ancestor = name
      · exact itself ▸ List.mem_cons_self
      · exact List.mem_cons_of_mem _ (inherits name mixin ancestor listed above itself)
  rcases parental with mixin | above
  · exact mixed parent mixin
  · exact superclass_lineage_subset above mixed

theorem lineage_subset_of_reached (inherits : hierarchy.InheritsFromMixins)
    {name ancestor : String} (path : Relation.ReflTransGen hierarchy.Parent name ancestor) :
    hierarchy.lineage ancestor ⊆ hierarchy.lineage name := by
  induction path with
  | refl => exact List.Subset.refl _
  | tail _ parental ih => exact List.Subset.trans (parent_lineage_subset inherits parental) ih

theorem isTransitive_iff_lineage_subset :
    Ancestry.IsTransitive hierarchy.ancestors ↔
      ∀ name, ∀ ancestor ∈ hierarchy.lineage name,
        hierarchy.lineage ancestor ⊆ hierarchy.lineage name := by
  constructor
  · intro transitive name ancestor listed third above
    rcases List.mem_cons.mp listed with rfl | listed
    · exact above
    rcases List.mem_cons.mp above with rfl | above
    · exact List.mem_cons_of_mem _ listed
    by_cases itself : third = name
    · exact itself ▸ List.mem_cons_self
    · exact List.mem_cons_of_mem _ (transitive name ancestor third listed above itself)
  · intro included name other third listed above apart
    have inside := included name other (List.mem_cons_of_mem _ listed)
    exact (List.mem_cons.mp (inside (List.mem_cons_of_mem _ above))).resolve_left apart

theorem isTransitive_iff :
    Ancestry.IsTransitive hierarchy.ancestors ↔ hierarchy.InheritsFromMixins := by
  constructor
  · intro transitive name mixin ancestor listed above apart
    rcases List.mem_cons.mp (parent_mem_lineage (Or.inl listed)) with rfl | held
    · exact above
    · exact transitive name mixin ancestor held above apart
  · intro inherits
    rw [isTransitive_iff_lineage_subset]
    intro name ancestor listed
    exact lineage_subset_of_reached inherits (reached_of_mem_lineage listed)

theorem method_of_lineage_subset {name other method : String}
    (included : hierarchy.lineage other ⊆ hierarchy.lineage name)
    (found : (hierarchy.method? other method).isSome) :
    (hierarchy.method? name method).isSome := by
  unfold method? at *
  rw [List.findSome?_isSome_iff] at *
  obtain ⟨owner, listed, held⟩ := found
  exact ⟨owner, included listed, held⟩

theorem inheritsFromMixins_iff :
    hierarchy.InheritsFromMixins ↔
      ∀ entry ∈ hierarchy.entries, ∀ mixin ∈ hierarchy.mixinsOf entry.name,
        ∀ ancestor ∈ hierarchy.ancestors mixin, ancestor ≠ entry.name →
          ancestor ∈ hierarchy.ancestors entry.name := by
  constructor
  · exact fun inherits entry _ mixin listed ancestor above =>
      inherits entry.name mixin ancestor listed above
  · intro checked name mixin ancestor listed above
    obtain ⟨entry, held, rfl⟩ := exists_entry (contains_of_parent (Or.inl listed))
    exact checked entry held mixin listed ancestor above

instance : Decidable hierarchy.InheritsFromMixins :=
  decidable_of_iff _ inheritsFromMixins_iff.symm

theorem contains_of_mem_ancestors {name ancestor : String} (apart : ancestor ≠ name)
    (above : ancestor ∈ hierarchy.ancestors name) : hierarchy.contains name = true := by
  rcases (reached_of_mem_lineage (List.mem_cons_of_mem _ above)).cases_head with same | path
  · exact absurd same.symm apart
  · obtain ⟨parent, parental, _⟩ := path
    exact contains_of_parent parental

theorem isLoopFree_iff :
    Ancestry.IsLoopFree hierarchy.ancestors ↔
      ∀ entry ∈ hierarchy.entries, ∀ other ∈ hierarchy.ancestors entry.name,
        entry.name ∈ hierarchy.ancestors other → other = entry.name := by
  constructor
  · exact fun loopFree entry _ other => loopFree entry.name other
  · intro checked name other above below
    by_contra apart
    obtain ⟨entry, held, rfl⟩ := exists_entry (contains_of_mem_ancestors apart above)
    exact apart (checked entry held other above below)

instance : Decidable (Ancestry.IsLoopFree hierarchy.ancestors) :=
  decidable_of_iff _ isLoopFree_iff.symm

/-- Ancestors of ancestors are ancestors in a hierarchy in which every type has the ancestors of its
own mixins, and in no other. Whatever method is found for an ancestor of a type is then found for
the type. -/
theorem ancestors_are_transitive_iff (hierarchy : Hierarchy) :
    ((∀ name other third, other ∈ hierarchy.ancestors name → third ∈ hierarchy.ancestors other →
        third ≠ name → third ∈ hierarchy.ancestors name) ↔ hierarchy.InheritsFromMixins) ∧
      (hierarchy.InheritsFromMixins → ∀ name, ∀ other ∈ hierarchy.ancestors name, ∀ method,
        (hierarchy.method? other method).isSome → (hierarchy.method? name method).isSome) := by
  refine ⟨isTransitive_iff, fun inherits name other listed method found => ?_⟩
  have included := isTransitive_iff_lineage_subset.mp (isTransitive_iff.mpr inherits)
  exact method_of_lineage_subset (included name other (List.mem_cons_of_mem _ listed)) found

/-- A module that includes another one, and a class that includes the first. -/
def pond : List HierarchyDef :=
  [.ofModule "Floats", .method "Floats" "float" none, .ofModule "Swims",
    .mixIn "Swims" "Floats", .ofClass "Duck" none, .mixIn "Duck" "Swims"]

/-- The class includes the other module too, and is its own ancestor by a class below it. -/
def reopenedPond : List HierarchyDef :=
  pond ++ [.mixIn "Duck" "Floats", .ofClass "Mallard" (some "Duck"),
    .ofClass "Duck" (some "Mallard")]

theorem reopenedPond_inherits :
    (ofDefs reopenedPond).InheritsFromMixins ∧
      (ofDefs reopenedPond).ancestors "Mallard" = ["Duck", "Floats", "Swims"] ∧
      (∀ name other third, other ∈ (ofDefs reopenedPond).ancestors name →
        third ∈ (ofDefs reopenedPond).ancestors other → third ≠ name →
          third ∈ (ofDefs reopenedPond).ancestors name) ∧
      ((ofDefs reopenedPond).method? "Mallard" "float").isSome := by
  have inherits : (ofDefs reopenedPond).InheritsFromMixins := by decide
  obtain ⟨transitive, found⟩ := ancestors_are_transitive_iff (ofDefs reopenedPond)
  exact ⟨inherits, by decide, transitive.mpr inherits,
    found inherits "Mallard" "Swims" (by decide) "float" (by decide)⟩

/-- What a mixin includes is not inherited by the types that include the mixin, and neither are its
methods found for them. -/
theorem mixins_of_mixins_are_not_inherited :
    (¬ ∀ definitions name other third, other ∈ (ofDefs definitions).ancestors name →
      third ∈ (ofDefs definitions).ancestors other → third ≠ name →
        third ∈ (ofDefs definitions).ancestors name) ∧
      ¬ ∀ definitions name, ∀ other ∈ (ofDefs definitions).ancestors name, ∀ method,
        ((ofDefs definitions).method? other method).isSome →
          ((ofDefs definitions).method? name method).isSome := by
  constructor
  · intro transitive
    have inherited := transitive pond "Duck" "Swims" "Floats" (by decide) (by decide) (by decide)
    exact absurd inherited (by decide)
  · intro found
    have inherited := found pond "Duck" "Swims" (by decide) "float" (by decide)
    exact absurd inherited (by decide)

end Hierarchy

end HeuristicTyping
