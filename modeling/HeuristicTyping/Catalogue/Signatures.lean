import HeuristicTyping.Ty.Basic

/-!
# What is known about built-in methods

A `SignatureSource` answers questions about methods whose definitions are not part of the analyzed
program. Its types may hold type variables and the receiver, which inference binds. `Ty.unknown`
and the empty list mean that it has no entry. Inference never looks behind it, so any functions
will do.
-/

set_option autoImplicit false

namespace HeuristicTyping

/-- Knowledge about built-in methods. -/
structure SignatureSource where
  /-- The type of the result of a method of instances, for arguments of given types. -/
  returnType : (owner method : String) → (arguments : List Ty) → Ty
  /-- The type of the result of a method of the type as an object. -/
  typeLevelReturnType : (owner method : String) → (arguments : List Ty) → Ty
  /-- Every overload of a method of instances. -/
  overloads : (owner method : String) → List MethodSig
  /-- The types of the values that a method of instances yields to its block. -/
  blockParams : (owner method : String) → List Ty

/-- A source without entries. -/
def SignatureSource.none : SignatureSource where
  returnType _ _ _ := .unknown
  typeLevelReturnType _ _ _ := .unknown
  overloads _ _ := []
  blockParams _ _ := []

end HeuristicTyping
