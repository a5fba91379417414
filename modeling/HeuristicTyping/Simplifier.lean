import HeuristicTyping.TypeIndex.Basic

/-!
# Simplifiers

A simplifier is applied to every inferred type before it is remembered. `Simplifier.none` leaves
types alone. `Simplifier.ancestral` drops a member of a union when one of its ancestors is a member
too, inside containers and signatures as well.
-/

set_option autoImplicit false

namespace HeuristicTyping

/-- A last change to inferred types. -/
structure Simplifier where
  simplify : Ty → Ty

namespace Simplifier

/-- Leaves every type as it is. -/
def none : Simplifier where
  simplify type := type

/-- Whether the instance type `name` is redundant beside `other`: `other` is one of its ancestors,
and not the other way round too. -/
def isCoveredBy (ancestors : String → List String) (name : String) (other : Ty) : Bool :=
  match other with
  | .instanceOf otherName =>
      otherName != name && (ancestors name).contains otherName &&
        !(ancestors otherName).contains name
  | _ => false

/-- Whether a type is redundant among others. Only instances of named types can be. -/
def isRedundant (ancestors : String → List String) (types : List Ty) : Ty → Bool
  | .instanceOf name => types.any (isCoveredBy ancestors name)
  | _ => false

/-- The types without the redundant ones. -/
def prune (ancestors : String → List String) (types : List Ty) : List Ty :=
  types.filter fun type => !isRedundant ancestors types type

mutual

/-- The type with redundant members of unions dropped, from the inside out. -/
def collapse (ancestors : String → List String) : Ty → Ty
  | .union members => .join (prune ancestors (collapseAll ancestors members))
  | .array element => .array (collapse ancestors element)
  | .range element => .range (collapse ancestors element)
  | .tuple elements => .tupleOf (collapseAll ancestors elements)
  | .hash key value => .hash (collapse ancestors key) (collapse ancestors value)
  | .shape fields => .shapeOf (collapseFields ancestors fields)
  | .method params result =>
      .method (collapseParams ancestors params) (collapse ancestors result)
  | type => type
termination_by structural type => type

/-- Drops redundant members in each type. -/
def collapseAll (ancestors : String → List String) : List Ty → List Ty
  | [] => []
  | type :: types => collapse ancestors type :: collapseAll ancestors types
termination_by structural types => types

/-- Drops redundant members in the type of each field. -/
def collapseFields (ancestors : String → List String) :
    List (String × Ty) → List (String × Ty)
  | [] => []
  | (key, type) :: fields => (key, collapse ancestors type) :: collapseFields ancestors fields
termination_by structural fields => fields

/-- Drops redundant members in the type of each parameter. -/
def collapseParams (ancestors : String → List String) : List (ParamOf Ty) → List (ParamOf Ty)
  | [] => []
  | param :: params =>
      { param with type := collapse ancestors param.type } :: collapseParams ancestors params
termination_by structural params => params

end

/-- Drops a member of a union when one of its ancestors is a member too. -/
def ancestral (index : TypeIndex) : Simplifier where
  simplify := collapse index.ancestors

end Simplifier

end HeuristicTyping
