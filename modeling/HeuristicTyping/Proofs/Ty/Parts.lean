import HeuristicTyping.Ty.Substitution

/-!
# The types inside a type

A type holds other types: members, elements, fields, parameters. `Ty.parts` lists all of them at
any depth, the type itself included, and `Ty.All` says that something holds of each. Statements
about what a type is built of are proved from one level to the next by `Ty.all_iff`, along
`Ty.induct`.
-/

set_option autoImplicit false

namespace HeuristicTyping

namespace Ty

/-- The types that a type holds directly. -/
def children : Ty → List Ty
  | .union members => members
  | .array element | .range element => [element]
  | .tuple elements => elements
  | .hash key value => [key, value]
  | .shape fields => fields.map Prod.snd
  | .method params result => params.map ParamOf.type ++ [result]
  | _ => []

theorem sizeOf_child_lt {type child : Ty} (held : child ∈ type.children) :
    sizeOf child < sizeOf type := by
  cases type with
  | union members =>
      have smaller : sizeOf child < sizeOf members := List.sizeOf_lt_of_mem held
      simp only [Ty.union.sizeOf_spec]
      omega
  | tuple elements =>
      have smaller : sizeOf child < sizeOf elements := List.sizeOf_lt_of_mem held
      simp only [Ty.tuple.sizeOf_spec]
      omega
  | array element | range element =>
      obtain rfl := List.mem_singleton.mp held
      simp
  | hash key value =>
      simp only [children, List.mem_cons, List.not_mem_nil, or_false] at held
      simp only [Ty.hash.sizeOf_spec]
      rcases held with rfl | rfl <;> omega
  | shape fields =>
      obtain ⟨⟨key, type⟩, listed, rfl⟩ := List.mem_map.mp held
      have smaller := List.sizeOf_lt_of_mem listed
      simp only [Prod.mk.sizeOf_spec, Ty.shape.sizeOf_spec] at smaller ⊢
      omega
  | method params result =>
      simp only [children, List.mem_append, List.mem_map, List.mem_singleton] at held
      simp only [Ty.method.sizeOf_spec]
      rcases held with ⟨⟨name, kind, type⟩, listed, rfl⟩ | rfl
      · have smaller := List.sizeOf_lt_of_mem listed
        simp only [ParamOf.mk.sizeOf_spec] at smaller ⊢
        omega
      · omega
  | _ => cases held

/-- What holds of a type whenever it holds of all types that it holds directly, holds of every
type. -/
theorem induct {motive : Ty → Prop}
    (step : ∀ type, (∀ child ∈ type.children, motive child) → motive type) (type : Ty) :
    motive type :=
  step type fun child held =>
    have := sizeOf_child_lt held
    induct step child
termination_by sizeOf type

/-! ### All parts -/

mutual

/-- The type and all types inside it, at any depth. -/
def parts : Ty → List Ty
  | .union members => .union members :: partsOfAll members
  | .array element => .array element :: parts element
  | .range element => .range element :: parts element
  | .tuple elements => .tuple elements :: partsOfAll elements
  | .hash key value => .hash key value :: (parts key ++ parts value)
  | .shape fields => .shape fields :: partsOfFields fields
  | .method params result => .method params result :: (partsOfParams params ++ parts result)
  | type => [type]
termination_by structural type => type

/-- The parts of several types. -/
def partsOfAll : List Ty → List Ty
  | [] => []
  | type :: types => parts type ++ partsOfAll types
termination_by structural types => types

/-- The parts of the types of several fields. -/
def partsOfFields : List (String × Ty) → List Ty
  | [] => []
  | (_, type) :: fields => parts type ++ partsOfFields fields
termination_by structural fields => fields

/-- The parts of the types of several parameters. -/
def partsOfParams : List (ParamOf Ty) → List Ty
  | [] => []
  | param :: params => parts param.type ++ partsOfParams params
termination_by structural params => params

end

theorem partsOfAll_eq (types : List Ty) : partsOfAll types = types.flatMap parts := by
  induction types with
  | nil => rfl
  | cons type types ih => rw [partsOfAll, ih, List.flatMap_cons]

theorem partsOfFields_eq (fields : List (String × Ty)) :
    partsOfFields fields = (fields.map Prod.snd).flatMap parts := by
  induction fields with
  | nil => rfl
  | cons field fields ih =>
      obtain ⟨key, type⟩ := field
      rw [partsOfFields, ih, List.map_cons, List.flatMap_cons]

theorem partsOfParams_eq (params : List (ParamOf Ty)) :
    partsOfParams params = (params.map ParamOf.type).flatMap parts := by
  induction params with
  | nil => rfl
  | cons param params ih => rw [partsOfParams, ih, List.map_cons, List.flatMap_cons]

theorem parts_eq (type : Ty) : type.parts = type :: type.children.flatMap parts := by
  cases type <;>
    simp [parts, children, partsOfAll_eq, partsOfFields_eq, partsOfParams_eq, List.flatMap_append]

/-- The property holds of the type and of all types inside it. -/
def All (property : Ty → Prop) (type : Ty) : Prop :=
  ∀ part ∈ type.parts, property part

instance (property : Ty → Prop) [DecidablePred property] : DecidablePred (All property) :=
  fun type => inferInstanceAs (Decidable (∀ part ∈ type.parts, property part))

theorem all_iff {property : Ty → Prop} {type : Ty} :
    type.All property ↔ property type ∧ ∀ child ∈ type.children, child.All property := by
  simp only [All, parts_eq type, List.forall_mem_cons, List.mem_flatMap, forall_exists_index,
    and_imp]
  exact and_congr_right fun _ =>
    ⟨fun each child held part inside => each part child held inside,
      fun each part child held inside => each child held part inside⟩

theorem All.own {property : Ty → Prop} {type : Ty} (all : type.All property) : property type :=
  (all_iff.mp all).1

theorem All.child {property : Ty → Prop} {type child : Ty} (all : type.All property)
    (held : child ∈ type.children) : child.All property :=
  (all_iff.mp all).2 child held

theorem All.mono {property weaker : Ty → Prop} {type : Ty} (all : type.All property)
    (weaken : ∀ part, property part → weaker part) : type.All weaker :=
  fun part inside => weaken part (all part inside)

theorem all_of_childless {property : Ty → Prop} {type : Ty} (own : property type)
    (bare : type.children = []) : type.All property := by
  rw [all_iff, bare]
  exact ⟨own, fun child held => absurd held List.not_mem_nil⟩

end Ty

end HeuristicTyping
