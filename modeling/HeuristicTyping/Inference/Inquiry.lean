import HeuristicTyping.Inference.Basic
import HeuristicTyping.Catalogue.Signatures
import HeuristicTyping.Simplifier

/-!
# Inquiries

The rules of inference are written as inquiries: computations that may ask for the type of another
node, or put a question to the surroundings. An inquiry does not say who answers. The resolver
answers with a memo and a bound on the depth; whatever holds of a rule whoever answers holds of it
there too.
-/

set_option autoImplicit false

namespace HeuristicTyping

/-- A question to the surroundings of inference. -/
inductive Question where
  | ancestors (name : String)
  | constantKind (name : String)
  | typeMethodOwner (name method : String)
  | typesDefining (calls : List CalledMethod)
  | returnType (owner method : String) (arguments : List Ty)
  | typeLevelReturnType (owner method : String) (arguments : List Ty)
  | overloads (owner method : String)
  | blockParams (owner method : String)
  | simplify (type : Ty)

/-- The type of the answers to a question. -/
@[reducible] def Question.Answer : Question → Type
  | .ancestors _ => List String
  | .constantKind _ => Option ConstantKind
  | .typeMethodOwner _ _ => Option String
  | .typesDefining _ => List String
  | .returnType _ _ _ => Ty
  | .typeLevelReturnType _ _ _ => Ty
  | .overloads _ _ => List MethodSig
  | .blockParams _ _ => List Ty
  | .simplify _ => Ty

/-- Those who know what the program graph does not say. -/
structure Surroundings where
  index : TypeIndex
  signatures : SignatureSource
  simplifier : Simplifier

/-- The answer of the surroundings to a question. -/
def Surroundings.answer (surroundings : Surroundings) : (question : Question) → question.Answer
  | .ancestors name => surroundings.index.ancestors name
  | .constantKind name => surroundings.index.constantKind? name
  | .typeMethodOwner name method => surroundings.index.typeMethodOwner? name method
  | .typesDefining calls => surroundings.index.typesDefining calls
  | .returnType owner method arguments => surroundings.signatures.returnType owner method arguments
  | .typeLevelReturnType owner method arguments =>
      surroundings.signatures.typeLevelReturnType owner method arguments
  | .overloads owner method => surroundings.signatures.overloads owner method
  | .blockParams owner method => surroundings.signatures.blockParams owner method
  | .simplify type => surroundings.simplifier.simplify type

/-- A computation that may ask for the types of nodes and consult the surroundings. -/
inductive Inquiry (α : Type) where
  | done (result : α)
  | infer (id : NodeId) (next : Inference → Inquiry α)
  | consult (question : Question) (next : question.Answer → Inquiry α)

namespace Inquiry

/-- One inquiry after the other. -/
def bind {α β : Type} : Inquiry α → (α → Inquiry β) → Inquiry β
  | .done result, next => next result
  | .infer id rest, next => .infer id fun inference => (rest inference).bind next
  | .consult question rest, next => .consult question fun answer => (rest answer).bind next

instance : Monad Inquiry where
  pure := .done
  bind := bind

/-! ### Single questions -/

/-- What is found for a node. -/
def inferNode (id : NodeId) : Inquiry Inference := .infer id .done

/-- The type of a node. -/
def typeOf (id : NodeId) : Inquiry Ty := do
  let inference ← inferNode id
  return inference.type

def ancestors (name : String) : Inquiry (List String) :=
  .consult (.ancestors name) .done

def constantKind? (name : String) : Inquiry (Option ConstantKind) :=
  .consult (.constantKind name) .done

def typeMethodOwner? (name method : String) : Inquiry (Option String) :=
  .consult (.typeMethodOwner name method) .done

def typesDefining (calls : List CalledMethod) : Inquiry (List String) :=
  .consult (.typesDefining calls) .done

def returnType (owner method : String) (arguments : List Ty) : Inquiry Ty :=
  .consult (.returnType owner method arguments) .done

def typeLevelReturnType (owner method : String) (arguments : List Ty) : Inquiry Ty :=
  .consult (.typeLevelReturnType owner method arguments) .done

def overloads (owner method : String) : Inquiry (List MethodSig) :=
  .consult (.overloads owner method) .done

def blockParams (owner method : String) : Inquiry (List Ty) :=
  .consult (.blockParams owner method) .done

/-! ### Lists -/

/-- An inquiry for each element of a list, in order. -/
def each {α β : Type} (inquire : α → Inquiry β) : List α → Inquiry (List β)
  | [] => return []
  | element :: elements => do
      let result ← inquire element
      let results ← each inquire elements
      return result :: results

/-- The results of those elements that have one, in order. -/
def eachSome {α β : Type} (inquire : α → Inquiry (Option β)) (elements : List α) :
    Inquiry (List β) := do
  let results ← each inquire elements
  return results.filterMap id

/-- Whether all elements pass a test. Nothing is asked after the first that does not. -/
def all {α : Type} (test : α → Inquiry Bool) : List α → Inquiry Bool
  | [] => return true
  | element :: elements => do
      if ← test element then all test elements else return false

/-- The elements that pass a test, in order. -/
def keep {α : Type} (test : α → Inquiry Bool) : List α → Inquiry (List α)
  | [] => return []
  | element :: elements => do
      let passes ← test element
      let kept ← keep test elements
      return if passes then element :: kept else kept

/-- The types of several nodes, asked for in order. -/
def typesOf (ids : List NodeId) : Inquiry (List Ty) := each typeOf ids

/-! ### Laws -/

@[simp] theorem pure_bind {α β : Type} (result : α) (next : α → Inquiry β) :
    (pure result : Inquiry α) >>= next = next result := rfl

@[simp] theorem bind_pure {α : Type} (inquiry : Inquiry α) : inquiry >>= pure = inquiry := by
  induction inquiry with
  | done result => rfl
  | infer id next ih => exact congrArg (Inquiry.infer id) (funext ih)
  | consult question next ih => exact congrArg (Inquiry.consult question) (funext ih)

theorem bind_assoc {α β γ : Type} (inquiry : Inquiry α) (first : α → Inquiry β)
    (second : β → Inquiry γ) :
    (inquiry >>= first) >>= second = inquiry >>= fun result => first result >>= second := by
  induction inquiry with
  | done result => rfl
  | infer id next ih => exact congrArg (Inquiry.infer id) (funext ih)
  | consult question next ih => exact congrArg (Inquiry.consult question) (funext ih)

instance : LawfulMonad Inquiry :=
  LawfulMonad.mk' Inquiry bind_pure (fun _ _ => rfl) bind_assoc

end Inquiry

end HeuristicTyping
