import HeuristicTyping.Proofs.Ty.Joins
import HeuristicTyping.Simplifier

/-!
# Normal forms

A type is normal if all unions, tuples and shapes inside it are as `Ty.join`, `Ty.tupleOf` and
`Ty.shapeOf` build them. `Ty.Robust` collects what all of these constructors establish, so whatever
is robust and holds of all parts of some types still does after they were joined, substituted,
erased or simplified. Being normal is robust, and so is holding no placeholder.
-/

set_option autoImplicit false

namespace HeuristicTyping

/-- The placeholder as a type. -/
def Placeholder.type : Placeholder → Ty
  | .var name => .var name
  | .self => .self

theorem Placeholder.type_injective {first second : Placeholder}
    (same : first.type = second.type) : first = second := by
  cases first <;> cases second <;> cases same <;> rfl

namespace Ty

def isPlaceholder : Ty → Bool
  | .var _ | .self => true
  | _ => false

/-- A union, a tuple or a shape is as its constructor builds it. -/
def IsRegular : Ty → Prop
  | .union members => ProperMembers members
  | .tuple elements => elements.length ≤ tupleCap
  | .shape fields => fields.length ≤ shapeCap
  | _ => True

instance : DecidablePred IsRegular
  | .union members => inferInstanceAs (Decidable (ProperMembers members))
  | .tuple elements => inferInstanceAs (Decidable (elements.length ≤ tupleCap))
  | .shape fields => inferInstanceAs (Decidable (fields.length ≤ shapeCap))
  | .unknown | .unguessed | .instanceOf _ | .singleton _ | .array _ | .hash _ _ | .range _
  | .var _ | .self | .forwarded | .method _ _ => inferInstanceAs (Decidable True)

/-- Every union inside the type has from two to ten members, of which no two are equal and none is
a union or unknown; tuples have at most eight elements and shapes at most fifteen fields. -/
def IsNormal (type : Ty) : Prop := type.All IsRegular

instance : DecidablePred IsNormal := fun type => inferInstanceAs (Decidable (type.All IsRegular))

/-- The property holds of every regular type that is no placeholder. -/
def Robust (property : Ty → Prop) : Prop :=
  ∀ type : Ty, type.IsRegular → type.isPlaceholder = false → property type

theorem robust_isRegular : Robust IsRegular := fun _ regular _ => regular

theorem isProper_of_isRegular {type : Ty} (regular : type.IsRegular) : type.IsProper := by
  cases type with
  | union members => exact regular
  | _ => trivial

theorem robust_isProper : Robust IsProper := fun _ regular _ => isProper_of_isRegular regular

theorem robust_isPlaceholder : Robust fun type => type.isPlaceholder = false :=
  fun _ _ plain => plain

/-! ### Joins -/

theorem mem_knownAlternatives {property : Ty → Prop} {types : List Ty} {alternative : Ty}
    (all : ∀ type ∈ types, type.All property) (among : alternative ∈ knownAlternatives types) :
    alternative.All property ∧ alternative.isUnion = false ∧ alternative.isUnknown = false := by
  rw [knownAlternatives, List.mem_filter, flattenAll_eq, List.mem_flatMap] at among
  obtain ⟨⟨type, listed, inside⟩, known⟩ := among
  have flat := mem_flatten (all type listed) inside
  exact ⟨flat.1, flat.2, by simpa using known⟩

theorem simple_of_kept {types : List Ty} {alternative : Ty}
    (kept : alternative ∈ (distinct (knownAlternatives types)).take unionCap) :
    alternative.isUnion = false ∧ alternative.isUnknown = false := by
  have found := (distinct_sublist _).subset (List.mem_of_mem_take kept)
  have any : ∀ type ∈ types, type.All fun _ => True := fun _ _ _ _ => trivial
  exact (mem_knownAlternatives any found).2

/-- Several alternatives that `join` keeps are the members of a union in normal form. -/
theorem properMembers_of_kept {types members : List Ty}
    (kept : (distinct (knownAlternatives types)).take unionCap = members)
    (several : 2 ≤ members.length) : ProperMembers members where
  several := several
  bounded := by
    rw [← kept, List.length_take]
    exact Nat.min_le_left _ _
  distinct := by
    rw [← kept]
    exact (distinct_pairwise _).sublist (List.take_sublist _ _)
  simple member listed := by
    rw [← kept] at listed
    exact simple_of_kept listed

theorem join_isProper (types : List Ty) : (join types).IsProper := by
  rw [join_eq]
  generalize alternatives : (distinct (knownAlternatives types)).take unionCap = kept
  match kept with
  | [] => trivial
  | [only] =>
      have listed : only ∈ (distinct (knownAlternatives types)).take unionCap := by
        simp [alternatives]
      have single := (simple_of_kept listed).1
      cases only with
      | union members => cases single
      | _ => trivial
  | first :: second :: rest => exact properMembers_of_kept alternatives (by simp)

theorem all_join {property : Ty → Prop} (robust : Robust property) {types : List Ty}
    (all : ∀ type ∈ types, type.All property) : (join types).All property := by
  rw [join_eq]
  generalize alternatives : (distinct (knownAlternatives types)).take unionCap = kept
  have among : ∀ member ∈ kept, member.All property := by
    intro member listed
    rw [← alternatives] at listed
    have found := (distinct_sublist _).subset (List.mem_of_mem_take listed)
    exact (mem_knownAlternatives all found).1
  match kept with
  | [] => exact all_of_childless (robust _ trivial rfl) rfl
  | [only] => exact among only List.mem_cons_self
  | first :: second :: rest =>
      have proper := properMembers_of_kept alternatives (by simp)
      exact all_iff.mpr ⟨robust _ proper rfl, among⟩

/-! ### Tuples and shapes -/

theorem all_tupleOf {property : Ty → Prop} (robust : Robust property) {elements : List Ty}
    (all : ∀ element ∈ elements, element.All property) : (tupleOf elements).All property := by
  unfold tupleOf
  split
  · rw [all_iff]
    refine ⟨robust _ trivial rfl, ?_⟩
    intro child held
    obtain rfl := List.mem_singleton.mp held
    exact all_join robust all
  · rename_i within
    have bounded : elements.length ≤ tupleCap := by omega
    exact all_iff.mpr ⟨robust _ bounded rfl, all⟩

theorem mem_insertField {key : String} {type : Ty} {fields : List (String × Ty)}
    {field : String × Ty} (listed : field ∈ insertField key type fields) :
    field = (key, type) ∨ field ∈ fields := by
  induction fields with
  | nil => exact Or.inl (List.mem_singleton.mp listed)
  | cons first rest ih =>
      obtain ⟨other, otherType⟩ := first
      unfold insertField at listed
      split at listed
      · exact List.mem_cons.mp listed
      split at listed
      · rcases List.mem_cons.mp listed with same | later
        · exact Or.inl same
        · exact Or.inr (List.mem_cons_of_mem _ later)
      · rcases List.mem_cons.mp listed with same | later
        · exact Or.inr (same ▸ List.mem_cons_self)
        · rcases ih later with same | among
          · exact Or.inl same
          · exact Or.inr (List.mem_cons_of_mem _ among)

theorem mem_sortFields {entries : List (String × Ty)} {field : String × Ty}
    (listed : field ∈ sortFields entries) : field ∈ entries := by
  have sorted : ∀ (rest fields : List (String × Ty)),
      field ∈ rest.foldl (fun fields entry => insertField entry.1 entry.2 fields) fields →
      field ∈ fields ∨ field ∈ rest := by
    intro rest
    induction rest with
    | nil => exact fun fields held => Or.inl held
    | cons entry rest ih =>
        intro fields held
        rcases ih _ held with early | late
        · rcases mem_insertField early with same | among
          · exact Or.inr (same ▸ List.mem_cons_self)
          · exact Or.inl among
        · exact Or.inr (List.mem_cons_of_mem _ late)
  rcases sorted entries [] listed with impossible | among
  · cases impossible
  · exact among

theorem all_shapeOf {property : Ty → Prop} (robust : Robust property)
    {entries : List (String × Ty)} (all : ∀ entry ∈ entries, entry.2.All property) :
    (shapeOf entries).All property := by
  have typed : ∀ type ∈ (sortFields entries).map Prod.snd, type.All property := by
    intro type listed
    obtain ⟨field, held, rfl⟩ := List.mem_map.mp listed
    exact all field (mem_sortFields held)
  unfold shapeOf
  dsimp only
  split
  · rw [all_iff]
    refine ⟨robust _ trivial rfl, ?_⟩
    intro child held
    simp only [children, List.mem_cons, List.not_mem_nil, or_false] at held
    rcases held with rfl | rfl
    · exact all_of_childless (robust _ trivial rfl) rfl
    · exact all_join robust typed
  · rename_i within
    have bounded : (sortFields entries).length ≤ shapeCap := by omega
    exact all_iff.mpr ⟨robust _ bounded rfl, typed⟩

/-! ### One level built anew -/

/-- The type with each type that it holds directly changed, built anew in normal form. -/
def rebuilt (change : Ty → Ty) : Ty → Ty
  | .union members => join (members.map change)
  | .array element => .array (change element)
  | .range element => .range (change element)
  | .tuple elements => tupleOf (elements.map change)
  | .hash key value => .hash (change key) (change value)
  | .shape fields => shapeOf (fields.map fun field => (field.1, change field.2))
  | .method params result =>
      .method (params.map fun param => { param with type := change param.type }) (change result)
  | type => type

theorem all_rebuilt {property : Ty → Prop} (robust : Robust property) {change : Ty → Ty}
    {type : Ty} (own : type.isPlaceholder = true → property type)
    (all : ∀ child ∈ type.children, (change child).All property) :
    (rebuilt change type).All property := by
  cases type with
  | union members => exact all_join robust (List.forall_mem_map.mpr all)
  | tuple elements => exact all_tupleOf robust (List.forall_mem_map.mpr all)
  | shape fields =>
      apply all_shapeOf robust
      intro entry listed
      obtain ⟨field, held, rfl⟩ := List.mem_map.mp listed
      exact all field.2 (List.mem_map.mpr ⟨field, held, rfl⟩)
  | array element | range element =>
      exact all_iff.mpr ⟨robust _ trivial rfl, by simpa [children, rebuilt] using all⟩
  | hash key value =>
      exact all_iff.mpr ⟨robust _ trivial rfl, by simpa [children, rebuilt] using all⟩
  | method params result =>
      refine all_iff.mpr ⟨robust _ trivial rfl, ?_⟩
      simp only [children, rebuilt, List.map_map, List.mem_append, List.mem_map] at all ⊢
      rintro child (⟨param, listed, rfl⟩ | returned)
      · exact all param.type (Or.inl ⟨param, listed, rfl⟩)
      · obtain rfl := List.mem_singleton.mp returned
        exact all result (Or.inr List.mem_cons_self)
  | var name | self => exact all_of_childless (own rfl) rfl
  | _ => exact all_of_childless (robust _ trivial rfl) rfl

/-! ### Substitution -/

/-- The type with the placeholders replaced to which `assign` gives a type. -/
def replaced (assign : Placeholder → Option Ty) (type : Ty) : Ty :=
  (type.replace? assign).getD type

theorem changedPair_getD {α β γ : Type} (build : α × β → γ) (first : α) (second : β)
    (changedFirst : Option α) (changedSecond : Option β) :
    ((changedPair? first second changedFirst changedSecond).map build).getD
        (build (first, second)) =
      build (changedFirst.getD first, changedSecond.getD second) := by
  cases changedFirst with
  | none => cases changedSecond <;> rfl
  | some changed => rfl

theorem replaceAll_getD (assign : Placeholder → Option Ty) (types : List Ty) :
    (replaceAll? assign types).getD types = types.map (replaced assign) := by
  induction types with
  | nil => rfl
  | cons type types ih =>
      rw [List.map_cons, ← ih]
      exact changedPair_getD (fun changed : Ty × List Ty => changed.1 :: changed.2) type types
        (replace? assign type) (replaceAll? assign types)

theorem replaceFields_getD (assign : Placeholder → Option Ty) (fields : List (String × Ty)) :
    (replaceFields? assign fields).getD fields =
      fields.map fun field => (field.1, replaced assign field.2) := by
  induction fields with
  | nil => rfl
  | cons field fields ih =>
      obtain ⟨key, type⟩ := field
      rw [List.map_cons, ← ih]
      exact changedPair_getD
        (fun changed : Ty × List (String × Ty) => (key, changed.1) :: changed.2) type fields
        (replace? assign type) (replaceFields? assign fields)

theorem replaceParams_getD (assign : Placeholder → Option Ty) (params : List (ParamOf Ty)) :
    (replaceParams? assign params).getD params =
      params.map fun param => { param with type := replaced assign param.type } := by
  induction params with
  | nil => rfl
  | cons param params ih =>
      rw [List.map_cons, ← ih]
      exact changedPair_getD
        (fun changed : Ty × List (ParamOf Ty) =>
          { param with type := changed.1 } :: changed.2) param.type params
        (replace? assign param.type) (replaceParams? assign params)

theorem none_or_some_of_getD {α : Type} {changed : Option α} {before after : α}
    (same : changed.getD before = after) :
    (changed = none ∧ after = before) ∨ changed = some after := by
  cases changed with
  | none => exact Or.inl ⟨rfl, same.symm⟩
  | some value => exact Or.inr (congrArg some same)

/-- A type that is no placeholder is kept if nothing inside it is replaced, and is built anew
otherwise. -/
theorem replace_cases (assign : Placeholder → Option Ty) {type : Ty}
    (plain : type.isPlaceholder = false) :
    (type.replace? assign = none ∧ type.children.map (replaced assign) = type.children) ∨
      type.replace? assign = some (rebuilt (replaced assign) type) := by
  cases type with
  | union members =>
      rcases none_or_some_of_getD (replaceAll_getD assign members) with ⟨kept, same⟩ | changed
      · exact Or.inl ⟨by rw [replace?, kept, Option.map_none], same⟩
      · exact Or.inr (by rw [replace?, changed, Option.map_some, rebuilt])
  | tuple elements =>
      rcases none_or_some_of_getD (replaceAll_getD assign elements) with ⟨kept, same⟩ | changed
      · exact Or.inl ⟨by rw [replace?, kept, Option.map_none], same⟩
      · exact Or.inr (by rw [replace?, changed, Option.map_some, rebuilt])
  | shape fields =>
      rcases none_or_some_of_getD (replaceFields_getD assign fields) with ⟨kept, same⟩ | changed
      · refine Or.inl ⟨by rw [replace?, kept, Option.map_none], ?_⟩
        have types := congrArg (List.map Prod.snd) same
        simpa [children, Function.comp_def] using types
      · exact Or.inr (by rw [replace?, changed, Option.map_some, rebuilt])
  | array element | range element =>
      have whole : (replace? assign element).getD element = replaced assign element := rfl
      rcases none_or_some_of_getD whole with ⟨kept, same⟩ | changed
      · exact Or.inl ⟨by rw [replace?, kept, Option.map_none], congrArg (fun type => [type]) same⟩
      · exact Or.inr (by rw [replace?, changed, Option.map_some, rebuilt])
  | hash key value =>
      rcases none_or_some_of_getD (changedPair_getD (fun changed : Ty × Ty =>
        Ty.hash changed.1 changed.2) key value (replace? assign key) (replace? assign value))
        with ⟨kept, same⟩ | changed
      · obtain ⟨keys, values⟩ := Ty.hash.inj same
        have keyBack : replaced assign key = key := keys
        have valueBack : replaced assign value = value := values
        exact Or.inl ⟨kept, by simp [children, keyBack, valueBack]⟩
      · exact Or.inr changed
  | method params result =>
      rcases none_or_some_of_getD (changedPair_getD (fun changed : List (ParamOf Ty) × Ty =>
        Ty.method changed.1 changed.2) params result (replaceParams? assign params)
        (replace? assign result)) with ⟨kept, same⟩ | changed
      · obtain ⟨listed, returned⟩ := Ty.method.inj same
        rw [replaceParams_getD] at listed
        have types := congrArg (List.map ParamOf.type) listed
        have back : replaced assign result = result := returned
        refine Or.inl ⟨kept, ?_⟩
        simpa [children, Function.comp_def, back] using types
      · rw [replaceParams_getD] at changed
        exact Or.inr changed
  | var name | self => cases plain
  | _ => exact Or.inl ⟨rfl, rfl⟩

theorem exists_placeholder {type : Ty} (marked : type.isPlaceholder = true) :
    ∃ placeholder : Placeholder, type = placeholder.type ∧
      ∀ assign, type.replace? assign = assign placeholder := by
  cases type with
  | var name => exact ⟨.var name, rfl, fun _ => rfl⟩
  | self => exact ⟨.self, rfl, fun _ => rfl⟩
  | _ => cases marked

/-- If every part satisfies the property or is replaced, and by types all of whose parts satisfy
it, then in the end every part does. -/
theorem all_replaced {property : Ty → Prop} (robust : Robust property)
    {assign : Placeholder → Option Ty}
    (assigned : ∀ placeholder type, assign placeholder = some type → type.All property)
    {type : Ty}
    (rest : type.All fun part =>
      property part ∨ ∃ placeholder, part = placeholder.type ∧ (assign placeholder).isSome) :
    (replaced assign type).All property := by
  induction type using Ty.induct with
  | step type ih =>
      have inner : ∀ child ∈ type.children, (replaced assign child).All property :=
        fun child held => ih child held (rest.child held)
      cases plain : type.isPlaceholder with
      | true =>
          obtain ⟨placeholder, rfl, answered⟩ := exists_placeholder plain
          rw [replaced, answered assign]
          cases given : assign placeholder with
          | some type => exact assigned placeholder type given
          | none =>
              have bare : placeholder.type.children = [] := by cases placeholder <;> rfl
              refine all_of_childless ?_ bare
              rcases rest.own with held | ⟨other, same, replacing⟩
              · exact held
              · obtain rfl := Placeholder.type_injective same
                simp [given] at replacing
      | false =>
          have own : property type := by
            rcases rest.own with held | ⟨placeholder, same, _⟩
            · exact held
            · cases placeholder <;> cases same <;> cases plain
          rcases replace_cases assign plain with ⟨kept, same⟩ | changed
          · rw [replaced, kept, Option.getD_none, all_iff]
            refine ⟨own, ?_⟩
            rw [← same]
            exact List.forall_mem_map.mpr inner
          · rw [replaced, changed, Option.getD_some]
            exact all_rebuilt robust (fun marked => by simp [plain] at marked) inner

end Ty

/-! ### Bindings -/

/-- All bound types satisfy the property in all parts. -/
structure Binding.All (property : Ty → Prop) (binding : Binding) : Prop where
  vars : ∀ entry ∈ binding.vars, entry.2.All property
  self : ∀ type ∈ binding.self, type.All property

namespace Binding

variable {property : Ty → Prop} {binding : Binding} {type : Ty}

theorem All.get {placeholder : Placeholder} (all : binding.All property)
    (bound : binding.get? placeholder = some type) : type.All property := by
  cases placeholder with
  | self => exact all.self type bound
  | var name =>
      obtain ⟨before, after, split, _⟩ := List.lookup_eq_some_iff.mp bound
      exact all.vars (name, type) (by simp [split])

theorem all_empty : ({} : Binding).All property where
  vars _ listed := absurd listed List.not_mem_nil
  self _ bound := by cases bound

theorem All.bindSelf (all : binding.All property) (own : type.All property) :
    (binding.bindSelf type).All property where
  vars := all.vars
  self other bound := by
    obtain rfl := Option.some.inj bound
    exact own

theorem All.bind (all : binding.All property) (name : String) (own : type.All property) :
    (binding.bind name type).All property where
  vars entry listed := by
    rcases List.mem_cons.mp listed with rfl | older
    · exact own
    · exact all.vars entry (List.mem_filter.mp older).1
  self := all.self

end Binding

namespace Ty

variable {property : Ty → Prop}

theorem all_containerBinding (robust : Robust property) {type : Ty} (all : type.All property) :
    type.containerBinding.All property := by
  have none : ({} : Binding).All property := Binding.all_empty
  cases type with
  | array element | range element => exact none.bind _ (all.child List.mem_cons_self)
  | tuple elements => exact none.bind _ (all_join robust fun element => all.child)
  | hash key value =>
      exact (none.bind _ (all.child List.mem_cons_self)).bind _ (all.child (by simp [children]))
  | shape fields =>
      have symbols : Ty.symbol.All property := all_of_childless (robust _ trivial rfl) rfl
      exact (none.bind _ symbols).bind _ (all_join robust fun type => all.child)
  | _ => exact none

theorem all_forReceiver (robust : Robust property) {type : Ty} (all : type.All property) :
    (Binding.forReceiver type).All property :=
  (all_containerBinding robust all).bindSelf all

theorem all_substitute (robust : Robust property) {type : Ty} {binding : Binding}
    (all : type.All property) (bound : binding.All property) :
    (type.substitute binding).All property :=
  all_replaced robust (fun _ _ => bound.get) (all.mono fun _ => Or.inl)

theorem all_erase (robust : Robust property) {type : Ty}
    (all : type.All fun part => part.isPlaceholder = false → property part) :
    type.erase.All property := by
  apply all_replaced robust
  · intro placeholder other erased
    obtain rfl := Option.some.inj erased
    exact all_of_childless (robust _ trivial rfl) rfl
  · intro part inside
    cases plain : part.isPlaceholder with
    | false => exact Or.inl (all part inside plain)
    | true =>
        obtain ⟨placeholder, same, _⟩ := exists_placeholder plain
        exact Or.inr ⟨placeholder, same, rfl⟩

/-! ### Simplification -/

theorem collapseAll_eq (ancestors : String → List String) (types : List Ty) :
    Simplifier.collapseAll ancestors types = types.map (Simplifier.collapse ancestors) := by
  induction types with
  | nil => rfl
  | cons type types ih => rw [Simplifier.collapseAll, ih, List.map_cons]

theorem collapseFields_eq (ancestors : String → List String) (fields : List (String × Ty)) :
    Simplifier.collapseFields ancestors fields =
      fields.map fun field => (field.1, Simplifier.collapse ancestors field.2) := by
  induction fields with
  | nil => rfl
  | cons field fields ih =>
      obtain ⟨key, type⟩ := field
      rw [Simplifier.collapseFields, ih, List.map_cons]

theorem collapseParams_eq (ancestors : String → List String) (params : List (ParamOf Ty)) :
    Simplifier.collapseParams ancestors params =
      params.map fun param => { param with type := Simplifier.collapse ancestors param.type } := by
  induction params with
  | nil => rfl
  | cons param params ih => rw [Simplifier.collapseParams, ih, List.map_cons]

/-- Apart from what is dropped from a union, simplification builds every level anew. -/
theorem collapse_eq (ancestors : String → List String) {type : Ty} (single : type.isUnion = false) :
    Simplifier.collapse ancestors type = rebuilt (Simplifier.collapse ancestors) type := by
  cases type with
  | union members => cases single
  | _ => simp [Simplifier.collapse, rebuilt, collapseAll_eq, collapseFields_eq, collapseParams_eq]

theorem all_collapse (robust : Robust property) (ancestors : String → List String) {type : Ty}
    (all : type.All property) : (Simplifier.collapse ancestors type).All property := by
  induction type using Ty.induct with
  | step type ih =>
      have inner : ∀ child ∈ type.children, (Simplifier.collapse ancestors child).All property :=
        fun child held => ih child held (all.child held)
      cases single : type.isUnion with
      | false =>
          rw [collapse_eq ancestors single]
          exact all_rebuilt robust (fun _ => all.own) inner
      | true =>
          cases type with
          | union members =>
              rw [Simplifier.collapse, collapseAll_eq]
              apply all_join robust
              intro member kept
              obtain ⟨other, listed, rfl⟩ := List.mem_map.mp (List.mem_filter.mp kept).1
              exact inner other listed
          | _ => cases single

/-! ### Placeholders -/

theorem anyMentions_eq (wanted : Placeholder → Bool) (types : List Ty) :
    anyMentions wanted types = types.any (mentions wanted) := by
  induction types with
  | nil => rfl
  | cons type types ih => rw [anyMentions, ih, List.any_cons]

theorem fieldsMention_eq (wanted : Placeholder → Bool) (fields : List (String × Ty)) :
    fieldsMention wanted fields = (fields.map Prod.snd).any (mentions wanted) := by
  induction fields with
  | nil => rfl
  | cons field fields ih =>
      obtain ⟨key, type⟩ := field
      rw [fieldsMention, ih, List.map_cons, List.any_cons]

theorem paramsMention_eq (wanted : Placeholder → Bool) (params : List (ParamOf Ty)) :
    paramsMention wanted params = (params.map ParamOf.type).any (mentions wanted) := by
  induction params with
  | nil => rfl
  | cons param params ih => rw [paramsMention, ih, List.map_cons, List.any_cons]

theorem mentions_eq (wanted : Placeholder → Bool) {type : Ty} (plain : type.isPlaceholder = false) :
    type.mentions wanted = type.children.any (mentions wanted) := by
  cases type with
  | var name | self => cases plain
  | _ => simp [mentions, children, anyMentions_eq, fieldsMention_eq, paramsMention_eq]

theorem mentions_placeholder (wanted : Placeholder → Bool) (placeholder : Placeholder) :
    placeholder.type.mentions wanted = wanted placeholder := by
  cases placeholder <;> rfl

/-- The part is not a placeholder of the wanted kind. -/
def Spares (wanted : Placeholder → Bool) (part : Ty) : Prop :=
  ∀ placeholder : Placeholder, part = placeholder.type → wanted placeholder = false

theorem spares_of_plain {wanted : Placeholder → Bool} {part : Ty}
    (plain : part.isPlaceholder = false) : part.Spares wanted := by
  intro placeholder same
  subst same
  cases placeholder <;> cases plain

theorem spares_placeholder_iff {wanted : Placeholder → Bool} {placeholder : Placeholder} :
    placeholder.type.Spares wanted ↔ wanted placeholder = false := by
  constructor
  · exact fun spared => spared placeholder rfl
  · intro unwanted other same
    rw [← Placeholder.type_injective same]
    exact unwanted

/-- A wanted placeholder occurs in a type if one of its parts is one. -/
theorem mentions_eq_false_iff {wanted : Placeholder → Bool} {type : Ty} :
    type.mentions wanted = false ↔ type.All (Spares wanted) := by
  induction type using Ty.induct with
  | step type ih =>
      rw [all_iff]
      cases plain : type.isPlaceholder with
      | true =>
          obtain ⟨placeholder, rfl, _⟩ := exists_placeholder plain
          have bare : placeholder.type.children = [] := by cases placeholder <;> rfl
          rw [mentions_placeholder, bare, spares_placeholder_iff]
          simp
      | false =>
          rw [mentions_eq _ plain, List.any_eq_false]
          simp only [spares_of_plain plain, true_and, Bool.not_eq_true]
          exact forall₂_congr ih

theorem hasPlaceholders_eq_false_iff {type : Ty} :
    type.hasPlaceholders = false ↔ type.All fun part => part.isPlaceholder = false := by
  rw [hasPlaceholders, mentions_eq_false_iff]
  constructor
  · refine fun spared => spared.mono fun part own => ?_
    cases plain : part.isPlaceholder with
    | false => rfl
    | true =>
        obtain ⟨placeholder, same, _⟩ := exists_placeholder plain
        cases own placeholder same
  · exact fun bare => bare.mono fun _ => spares_of_plain

theorem erase_hasPlaceholders (type : Ty) : type.erase.hasPlaceholders = false :=
  hasPlaceholders_eq_false_iff.mpr (all_erase robust_isPlaceholder fun _ _ plain => plain)

/-! ### The operations together -/

/-- Whatever is built from normal types is normal: unions, tuples, shapes and optional types, a type
with normal types put in place of placeholders or with all of them erased, what a container binds,
and what is left of a type when redundant members are dropped. -/
theorem normal_forms_are_closed {types : List Ty} {entries : List (String × Ty)} {type : Ty}
    {binding : Binding} (index : TypeIndex)
    (typesNormal : ∀ element ∈ types, element.IsNormal)
    (entriesNormal : ∀ entry ∈ entries, entry.2.IsNormal)
    (normal : type.IsNormal)
    (boundNormal : ∀ placeholder bound, binding.get? placeholder = some bound → bound.IsNormal) :
    (join types).IsNormal ∧ (tupleOf types).IsNormal ∧ (shapeOf entries).IsNormal ∧
      type.optional.IsNormal ∧ (type.substitute binding).IsNormal ∧ type.erase.IsNormal ∧
      (∀ placeholder bound, type.containerBinding.get? placeholder = some bound → bound.IsNormal) ∧
      ((Simplifier.ancestral index).simplify type).IsNormal := by
  have optional : type.optional.IsNormal := by
    refine all_join robust_isRegular fun alternative listed => ?_
    rcases List.mem_cons.mp listed with rfl | absent
    · exact normal
    · obtain rfl := List.mem_singleton.mp absent
      exact all_of_childless trivial rfl
  have substituted : (type.substitute binding).IsNormal :=
    all_replaced robust_isRegular boundNormal (normal.mono fun _ => Or.inl)
  have erased : type.erase.IsNormal :=
    all_erase robust_isRegular (normal.mono fun _ regular _ => regular)
  have contained : type.containerBinding.All IsRegular :=
    all_containerBinding robust_isRegular normal
  exact ⟨all_join robust_isRegular typesNormal, all_tupleOf robust_isRegular typesNormal,
    all_shapeOf robust_isRegular entriesNormal, optional, substituted, erased,
    fun _ _ => contained.get, all_collapse robust_isRegular index.ancestors normal⟩

/-- A mapping to one of three alternatives, of which two are still open. -/
def openMapping : Ty :=
  .hash .symbol (.union [.var TypeVar.element, .integer, .array .self])

/-- An element that brings a union with it, and a receiver that is a tuple. -/
def mixedReceiver : Binding :=
  (Binding.bind {} TypeVar.element (.union [.integer, .float])).bindSelf
    (.tuple [.string, .integer])

/-- One field too many for a shape. -/
def manyFields : List (String × Ty) :=
  ["a", "b", "c", "d", "e", "f", "g", "h", "i", "j", "k", "l", "m", "n", "o", "p"].map
    fun key => (key, openMapping)

theorem openMapping_stays_normal :
    openMapping.IsNormal ∧
      (join [openMapping, openMapping]).IsNormal ∧
      (shapeOf manyFields).IsNormal ∧
      openMapping.optional.IsNormal ∧
      (openMapping.substitute mixedReceiver).IsNormal ∧
      openMapping.substitute mixedReceiver =
        .hash .symbol (.union [.integer, .float, .array (.tuple [.string, .integer])]) ∧
      openMapping.erase.IsNormal ∧
      ((Simplifier.ancestral .none).simplify openMapping).IsNormal := by
  have normal : openMapping.IsNormal := by decide
  have pair : ∀ element ∈ [openMapping, openMapping], element.IsNormal := by decide
  have fields : ∀ entry ∈ manyFields, entry.2.IsNormal := by decide
  have bound : mixedReceiver.All IsRegular :=
    (Binding.all_empty.bind TypeVar.element (by decide)).bindSelf (by decide)
  obtain ⟨joined, _, shaped, optional, substituted, erased, _, simplified⟩ :=
    normal_forms_are_closed .none pair fields normal fun _ _ => bound.get
  exact ⟨normal, joined, shaped, optional, substituted, rfl, erased, simplified⟩

end Ty

end HeuristicTyping
