import HeuristicTyping.Inference.Project

/-!
# Duck typing

The type of a value can be guessed from the methods called on it. The index proposes the types
that have all of the methods; those that do not take the number of arguments of some call drop
out, and so does every type with an ancestor among the rest. A few that are left make a union, and
too many are no answer.
-/

set_option autoImplicit false

namespace HeuristicTyping

namespace Duck

/-- Whether a method of a type takes the arguments of a call, as far as can be known: by its
definition in the project, else by its known overloads. -/
def accepts (project : Project) (type : String) (call : CalledMethod) : Inquiry Bool := do
  match call.count with
  | none => return true
  | some count =>
      let node ← project.findMethod type call.name false
      match node.bind project.definitionArity? with
      | some arity => return arity.accepts count
      | none =>
          let overloads ← Inquiry.overloads type call.name
          return overloads.isEmpty || overloads.any fun signature => signature.arity.accepts count

/-- The proposed types, each once, that take every call. -/
def candidates (project : Project) (calls : List CalledMethod) : Inquiry (List String) := do
  let proposed ← Inquiry.typesDefining calls
  Inquiry.keep (fun type => Inquiry.all (accepts project type) calls) (distinctNames proposed)

/-- Whether none of the other types is an ancestor of a type. -/
def isMostGeneral (types : List String) (type : String) (ancestors : List String) : Bool :=
  !ancestors.any fun ancestor => ancestor != type && types.contains ancestor

/-- The types without an ancestor among the others. A single type is kept without a question. -/
def dropDescendants (types : List String) : Inquiry (List String) :=
  if types.length < 2 then return types
  else
    Inquiry.keep
      (fun type => do return isMostGeneral types type (← Inquiry.ancestors type))
      types

/-- What is found once the candidates are known. -/
def verdict (settings : Settings) (methods types : List String) : Inference :=
  if types.isEmpty then .unknown (.noDuckCandidate methods)
  else if settings.duckMaxCandidates < types.length then
    .unknown (.ambiguousDuckType methods types.length)
  else
    { type := .join (types.map .instanceOf)
      reason := .duckTyped methods types.length
      provenance := .heuristic }

/-- Guesses the type of a value on which the given calls are made. -/
def guess (project : Project) (calls : List CalledMethod) : Inquiry Inference := do
  let methods := calls.map CalledMethod.name
  if calls.isEmpty then return .unknown (.noDuckCandidate methods)
  let types ← candidates project calls
  let remaining ← dropDescendants types
  return verdict project.settings methods remaining

end Duck

end HeuristicTyping
