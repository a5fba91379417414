/-!
# Settings of the inference

The numbers and names that steer inference, with the values they have unless something else is
said.
-/

set_option autoImplicit false

namespace HeuristicTyping

/-- What steers inference. -/
structure Settings where
  /-- More candidates than this are too ambiguous to report as a union. -/
  duckMaxCandidates : Nat := 3
  /-- Inference gives up on a chain of dependencies of this length. -/
  maxDepth : Nat := 256
  /-- Methods of a type as an object that construct an instance of it. -/
  constructorMethods : List String := ["new"]
  /-- Methods of instances that set up the receiver and yield it. -/
  initializerMethods : List String := ["initialize"]
  /-- The type from which every other inherits. -/
  catchAllType : String := "Object"
deriving DecidableEq, Repr, Inhabited

namespace Settings

def isConstructor (settings : Settings) (method : String) : Bool :=
  settings.constructorMethods.contains method

def isInitializer (settings : Settings) (method : String) : Bool :=
  settings.initializerMethods.contains method

end Settings

end HeuristicTyping
