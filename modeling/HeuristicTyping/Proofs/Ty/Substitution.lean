import HeuristicTyping.Proofs.Ty.Rebuilding

/-!
# What substitution does

`Ty.replace?` builds anew only what contains a replaced placeholder and shares the rest. On normal
types it makes no difference: the result is that of `Ty.rebuildWith`, which builds every level anew.
Whether it has anything to replace is told by the occurrences of placeholders alone, also where the
type is not normal, so a substitution whose own types are free of what it binds has nothing left to
do the second time.
-/

set_option autoImplicit false

namespace HeuristicTyping

namespace Binding

/-- What becomes of a placeholder: the type bound to it, or the placeholder itself. -/
def valueOf (binding : Binding) (placeholder : Placeholder) : Ty :=
  (binding.get? placeholder).getD placeholder.type

def binds (binding : Binding) (placeholder : Placeholder) : Bool :=
  (binding.get? placeholder).isSome

end Binding

namespace Ty

/-! ### Building every level anew -/

mutual

/-- The type with a value in place of every placeholder, built anew from the inside out. -/
def rebuildWith (value : Placeholder → Ty) : Ty → Ty
  | .var name => value (.var name)
  | .self => value .self
  | .array element => .array (rebuildWith value element)
  | .range element => .range (rebuildWith value element)
  | .hash key content => .hash (rebuildWith value key) (rebuildWith value content)
  | .tuple elements => tupleOf (rebuildAllWith value elements)
  | .union members => join (rebuildAllWith value members)
  | .shape fields => shapeOf (rebuildFieldsWith value fields)
  | .method params result => .method (rebuildParamsWith value params) (rebuildWith value result)
  | type => type
termination_by structural type => type

def rebuildAllWith (value : Placeholder → Ty) : List Ty → List Ty
  | [] => []
  | type :: types => rebuildWith value type :: rebuildAllWith value types
termination_by structural types => types

def rebuildFieldsWith (value : Placeholder → Ty) : List (String × Ty) → List (String × Ty)
  | [] => []
  | (key, type) :: fields => (key, rebuildWith value type) :: rebuildFieldsWith value fields
termination_by structural fields => fields

def rebuildParamsWith (value : Placeholder → Ty) : List (ParamOf Ty) → List (ParamOf Ty)
  | [] => []
  | param :: params =>
      { param with type := rebuildWith value param.type } :: rebuildParamsWith value params
termination_by structural params => params

end

section Rebuild

variable (value : Placeholder → Ty)

theorem rebuildAllWith_eq (types : List Ty) :
    rebuildAllWith value types = types.map (rebuildWith value) := by
  induction types with
  | nil => rfl
  | cons type types ih => rw [rebuildAllWith, ih, List.map_cons]

theorem rebuildFieldsWith_eq (fields : List (String × Ty)) :
    rebuildFieldsWith value fields =
      fields.map fun field => (field.1, rebuildWith value field.2) := by
  induction fields with
  | nil => rfl
  | cons field fields ih => rw [rebuildFieldsWith, ih, List.map_cons]

theorem rebuildParamsWith_eq (params : List (ParamOf Ty)) :
    rebuildParamsWith value params =
      params.map fun param => { param with type := rebuildWith value param.type } := by
  induction params with
  | nil => rfl
  | cons param params ih => rw [rebuildParamsWith, ih, List.map_cons]

theorem rebuildWith_placeholder (placeholder : Placeholder) :
    rebuildWith value placeholder.type = value placeholder := by
  cases placeholder <;> rfl

theorem rebuildWith_eq {type : Ty} (plain : type.isPlaceholder = false) :
    rebuildWith value type = rebuilt (rebuildWith value) type := by
  cases type with
  | var name | self => cases plain
  | _ =>
      simp [rebuildWith, rebuilt, rebuildAllWith_eq, rebuildFieldsWith_eq, rebuildParamsWith_eq]

end Rebuild

/-- What is shared was in normal form, so building it anew gives it back. -/
theorem replaced_eq_rebuildWith (assign : Placeholder → Option Ty) {type : Ty}
    (normal : type.IsNormal) (ascending : type.All KeysAscend) :
    replaced assign type =
      type.rebuildWith fun placeholder => (assign placeholder).getD placeholder.type := by
  induction type using Ty.induct with
  | step type ih =>
      have inner : ∀ child ∈ type.children, replaced assign child =
          child.rebuildWith fun placeholder => (assign placeholder).getD placeholder.type :=
        fun child held => ih child held (normal.child held) (ascending.child held)
      cases plain : type.isPlaceholder with
      | true =>
          obtain ⟨placeholder, rfl, answered⟩ := exists_placeholder plain
          rw [replaced, answered assign, rebuildWith_placeholder]
      | false =>
          rw [rebuildWith_eq _ plain, ← rebuilt_congr inner]
          rcases replace_cases assign plain with ⟨kept, same⟩ | changed
          · have fixed : ∀ child ∈ type.children, replaced assign child = child :=
              List.map_inj_left.mp (same.trans (List.map_id _).symm)
            rw [replaced, kept, Option.getD_none, rebuilt_of_fixed normal.own ascending.own fixed]
          · rw [replaced, changed, Option.getD_some]

/-- Sharing what does not change makes no difference: on a normal type, whose shapes list their
fields by ascending keys, substitution gives what building every level anew with the bound types in
place gives, to the order of the members of unions, and erasing gives what building it anew with
every placeholder unknown gives. -/
theorem substitution_is_rebuilding {type : Ty} (normal : type.IsNormal)
    (ascending : type.All KeysAscend) :
    (∀ binding : Binding, type.substitute binding = type.rebuildWith binding.valueOf) ∧
      type.erase = type.rebuildWith fun _ => .unknown :=
  ⟨fun binding => replaced_eq_rebuildWith binding.get? normal ascending,
    replaced_eq_rebuildWith (fun _ => some .unknown) normal ascending⟩

/-- A callable of which parts stay as they are: a parameter whose union has nothing to replace, a
shape of which one field may change, and a result with three placeholders among its alternatives. -/
def partlyOpen : Ty :=
  .method
    [{ name := "to", kind := .required, type := .union [.string, .array .float] },
      { name := "by", kind := .optional,
        type := .shape [("key", .union [.symbol, .nil]), ("value", .var TypeVar.value)] }]
    (.union [.integer, .var TypeVar.element, .self, .tuple [.string, .var TypeVar.key]])

theorem partlyOpen_is_rebuilt :
    partlyOpen.IsNormal ∧ partlyOpen.All KeysAscend ∧
      partlyOpen.substitute mixedReceiver = partlyOpen.rebuildWith mixedReceiver.valueOf ∧
      partlyOpen.substitute mixedReceiver =
        .method
          [{ name := "to", kind := .required, type := .union [.string, .array .float] },
            { name := "by", kind := .optional,
              type := .shape [("key", .union [.symbol, .nil]), ("value", .var TypeVar.value)] }]
          (.union [.integer, .float, .tuple [.string, .integer],
            .tuple [.string, .var TypeVar.key]]) ∧
      partlyOpen.erase = partlyOpen.rebuildWith fun _ => .unknown := by
  have normal : partlyOpen.IsNormal := by decide
  have ascending : partlyOpen.All KeysAscend := by decide
  have rebuilds := substitution_is_rebuilding normal ascending
  exact ⟨normal, ascending, rebuilds.1 mixedReceiver, rfl, rebuilds.2⟩

/-! ### Whether anything is replaced -/

theorem changedPair_eq_none_iff {α β : Type} {first : α} {second : β}
    {changedFirst : Option α} {changedSecond : Option β} :
    changedPair? first second changedFirst changedSecond = none ↔
      changedFirst = none ∧ changedSecond = none := by
  cases changedFirst <;> cases changedSecond <;> simp [changedPair?]

section Replace

variable (assign : Placeholder → Option Ty)

theorem replaceAll_eq_none_iff (types : List Ty) :
    replaceAll? assign types = none ↔ ∀ type ∈ types, type.replace? assign = none := by
  induction types with
  | nil => simp [replaceAll?]
  | cons type types ih =>
      rw [replaceAll?, Option.map_eq_none_iff, changedPair_eq_none_iff, ih, List.forall_mem_cons]

theorem replaceFields_eq_none_iff (fields : List (String × Ty)) :
    replaceFields? assign fields = none ↔
      ∀ type ∈ fields.map Prod.snd, type.replace? assign = none := by
  induction fields with
  | nil => simp [replaceFields?]
  | cons field fields ih =>
      rw [replaceFields?, Option.map_eq_none_iff, changedPair_eq_none_iff, ih, List.map_cons,
        List.forall_mem_cons]

theorem replaceParams_eq_none_iff (params : List (ParamOf Ty)) :
    replaceParams? assign params = none ↔
      ∀ type ∈ params.map ParamOf.type, type.replace? assign = none := by
  induction params with
  | nil => simp [replaceParams?]
  | cons param params ih =>
      rw [replaceParams?, Option.map_eq_none_iff, changedPair_eq_none_iff, ih, List.map_cons,
        List.forall_mem_cons]

/-- A type that is no placeholder is kept if and only if each type that it holds is. -/
theorem replace_eq_none_iff {type : Ty} (plain : type.isPlaceholder = false) :
    type.replace? assign = none ↔ ∀ child ∈ type.children, child.replace? assign = none := by
  cases type with
  | var name | self => cases plain
  | method params result =>
      rw [replace?, Option.map_eq_none_iff, changedPair_eq_none_iff, replaceParams_eq_none_iff,
        children, List.forall_mem_append, List.forall_mem_singleton]
  | _ =>
      simp [replace?, children, replaceAll_eq_none_iff, replaceFields_eq_none_iff,
        changedPair_eq_none_iff]

/-- Nothing is replaced if and only if no placeholder occurs to which a type is given. -/
theorem replace_eq_none_iff_mentions (type : Ty) :
    type.replace? assign = none ↔
      (type.mentions fun placeholder => (assign placeholder).isSome) = false := by
  induction type using Ty.induct with
  | step type ih =>
      cases plain : type.isPlaceholder with
      | true =>
          obtain ⟨placeholder, rfl, answered⟩ := exists_placeholder plain
          rw [answered assign, mentions_placeholder, Option.isSome_eq_false_iff,
            Option.isNone_iff_eq_none]
      | false =>
          rw [replace_eq_none_iff assign plain, mentions_eq _ plain, List.any_eq_false]
          simp only [Bool.not_eq_true]
          exact forall₂_congr ih

end Replace

/-! ### What is left to replace -/

theorem robust_spares (wanted : Placeholder → Bool) : Robust (Spares wanted) :=
  fun _ _ => spares_of_plain

theorem substitute_spares (type : Ty) {binding : Binding}
    (apart : ∀ placeholder bound, binding.get? placeholder = some bound →
      bound.mentions binding.binds = false) :
    (type.substitute binding).mentions binding.binds = false := by
  rw [mentions_eq_false_iff]
  apply all_replaced (robust_spares binding.binds)
  · exact fun placeholder bound given => mentions_eq_false_iff.mp (apart placeholder bound given)
  · intro part _
    cases plain : part.isPlaceholder with
    | false => exact Or.inl (spares_of_plain plain)
    | true =>
        obtain ⟨placeholder, rfl, _⟩ := exists_placeholder plain
        cases bound : binding.binds placeholder with
        | true => exact Or.inr ⟨placeholder, rfl, bound⟩
        | false => exact Or.inl (spares_placeholder_iff.mpr bound)

/-- Whether substitution changes a type is told exactly: it does if and only if a placeholder occurs
that is bound. If none occurs in the bound types, then none is left afterwards, and substituting
once more changes nothing. -/
theorem substitution_changes_what_is_bound (type : Ty) (binding : Binding) :
    ((type.substitute? binding).isSome = true ↔ type.mentions binding.binds = true) ∧
      ((∀ placeholder bound, binding.get? placeholder = some bound →
          bound.mentions binding.binds = false) →
        (type.substitute binding).mentions binding.binds = false ∧
          (type.substitute binding).substitute? binding = none ∧
          (type.substitute binding).substitute binding = type.substitute binding) := by
  constructor
  · rw [Option.isSome_iff_ne_none, Ne, substitute?, replace_eq_none_iff_mentions, Bool.not_eq_false]
    rfl
  · intro apart
    have spared := substitute_spares type apart
    have kept : (type.substitute binding).substitute? binding = none :=
      (replace_eq_none_iff_mentions binding.get? _).mpr spared
    refine ⟨spared, kept, ?_⟩
    rw [substitute, kept, Option.getD_none]

/-- More elements than a tuple can have, as they may stand in a type that was never built: each of
them the element type or the receiver. -/
def longTuple : Ty :=
  .tuple ((List.replicate 9 (.var TypeVar.element)) ++ [.self])

theorem longTuple_is_replaced_once :
    ¬ longTuple.IsNormal ∧
      (longTuple.substitute? mixedReceiver).isSome = true ∧
      longTuple.substitute mixedReceiver =
        .array (.union [.integer, .float, .tuple [.string, .integer]]) ∧
      (longTuple.substitute mixedReceiver).substitute? mixedReceiver = none := by
  have apart : ∀ placeholder bound, mixedReceiver.get? placeholder = some bound →
      bound.mentions mixedReceiver.binds = false := by
    have bound : mixedReceiver.All (Spares mixedReceiver.binds) :=
      (Binding.all_empty.bind TypeVar.element (mentions_eq_false_iff.mp rfl)).bindSelf
        (mentions_eq_false_iff.mp rfl)
    exact fun _ _ given => mentions_eq_false_iff.mpr (bound.get given)
  have changes := substitution_changes_what_is_bound longTuple mixedReceiver
  exact ⟨by decide, changes.1.mpr rfl, rfl, (changes.2 apart).2.1⟩

end Ty

end HeuristicTyping
