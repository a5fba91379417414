import HeuristicTyping.Program.Node

/-!
# What is known about the types of a program

A `TypeIndex` answers structural questions about the analyzed program: what a type inherits from,
what a constant names, which types have given methods. Inference consults it and never looks
behind it, so any functions will do.
-/

set_option autoImplicit false

namespace HeuristicTyping

/-- Adds a name at the end unless it is there already. -/
def addName (names : List String) (name : String) : List String :=
  if name ∈ names then names else names ++ [name]

/-- The names without repetitions, each at its first place. -/
def distinctNames (names : List String) : List String :=
  names.foldl addName []

/-- What a constant may name. -/
inductive ConstantKind where
  | type
  | module
deriving DecidableEq, Repr

/-- Structural knowledge about a program. -/
structure TypeIndex where
  /-- The supertypes and mixins of a type, nearest first. The type itself may be listed. -/
  ancestors : String → List String
  /-- Whether a name is that of a type or a module. -/
  constantKind? : String → Option ConstantKind
  /-- The type or module that provides a method of a type as an object. -/
  typeMethodOwner? : (name method : String) → Option String
  /-- Every type that has all of the given methods. -/
  typesDefining : List CalledMethod → List String

/-- An index that knows nothing. -/
def TypeIndex.none : TypeIndex where
  ancestors _ := []
  constantKind? _ := Option.none
  typeMethodOwner? _ _ := Option.none
  typesDefining _ := []

end HeuristicTyping
