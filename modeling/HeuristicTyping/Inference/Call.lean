import HeuristicTyping.Inference.Duck
import HeuristicTyping.Ty.Substitution

/-!
# Method calls

How the type of a call is found. A receiver that is a constant names a type, whose own methods
answer. Otherwise the type of the receiver decides: a definition in the project comes first, then
the known signatures of the type, then those of the catch-all type. What nobody answers falls to
a top-level function of that name and to the catch-all type.
-/

set_option autoImplicit false

namespace HeuristicTyping

namespace Call

/-- A chain of constant aliases is followed over at most this many constants. -/
def maxAliases : Nat := 16

/-- Where a chain of constant aliases ends. -/
inductive AliasEnd where
  /-- At a constant that is no alias. -/
  | constant (name : String)
  /-- At a node that is no constant. -/
  | value (id : NodeId)
deriving DecidableEq, Repr

/-- Follows constant aliases from a node. -/
def followAliases (graph : Graph) : (hops : Nat) → NodeId → Option AliasEnd
  | 0, _ => none
  | hops + 1, id =>
      match graph.kind? id with
      | some (.constant name none) => some (.constant name)
      | some (.constant _ (some target)) => followAliases graph hops target
      | some _ => some (.value id)
      | none => none

/-- The name of the type that a receiver refers to, if the receiver is a constant. -/
def typeReference? (project : Project) (receiver : NodeId) : Inquiry (Option String) := do
  match followAliases project.graph maxAliases receiver with
  | some (.constant name) => return some name
  | some (.value id) =>
      if id = receiver then return none
      match ← Inquiry.typeOf id with
      | .singleton name => return some name
      | _ => return none
  | none => return none

/-- What is passed on in dispatching a call: the call and the types of its arguments. -/
structure Site where
  call : Call
  arguments : List Ty

/-- The types that a call binds in a signature: what the receiver binds, and the result of the
block. A block without a body yields `nil`. -/
def binding (call : Call) (receiver : Option Ty) : Inquiry Binding := do
  let ofReceiver :=
    match receiver with
    | some type => if type.isUnknown then {} else Binding.forReceiver type
    | none => {}
  match call.block with
  | none => return ofReceiver
  | some block =>
      match block.result with
      | some result => return ofReceiver.bind TypeVar.blockResult (← Inquiry.typeOf result)
      | none =>
          return if block.body.isEmpty then ofReceiver.bind TypeVar.blockResult .nil
            else ofReceiver

/-- Puts the types that a call binds in place of the placeholders of a signature. Those that it
does not bind are not known. -/
def instantiate (call : Call) (receiver : Option Ty) (type : Ty) : Inquiry Ty := do
  if type.hasPlaceholders then
    let bound ← binding call receiver
    return (type.substitute bound).erase
  else return type

/-- The result of a method by the known signatures of its owner. -/
def byCatalogue (site : Site) (owner : String) (receiver : Option Ty) (typeLevel : Bool) :
    Inquiry (Option Inference) := do
  let declared ←
    if typeLevel then Inquiry.typeLevelReturnType owner site.call.method site.arguments
    else Inquiry.returnType owner site.call.method site.arguments
  if declared.isUnknown then return none
  let type ← instantiate site.call receiver declared
  return some
    { type, reason := .catalogueMethod owner site.call.method, provenance := .catalogue }

/-- The owner of a definition, or else the named type of the receiver. -/
def ownerOf (project : Project) (node : NodeId) (receiver : Ty) : String :=
  match project.graph.kind? node with
  | some (.definition method) => method.owner
  | _ => receiver.nominalName?.getD ""

/-- The result of a method by its definition in the project, with the receiver in place. -/
def byDefinition (project : Project) (node : NodeId) (method : String) (typeLevel : Bool)
    (receiver : Ty) : Inquiry Inference := do
  let inference ← Inquiry.inferNode node
  if inference.isUnknown then return inference
  return {
    type := inference.type.substitute (Binding.bindSelf {} receiver)
    reason := .projectMethod (ownerOf project node receiver) method typeLevel
    provenance := .project }

/-- The result by the definition, if there is one. -/
def byDefinition? (project : Project) (node : Option NodeId) (method : String)
    (typeLevel : Bool) (receiver : Ty) : Inquiry (Option Inference) := do
  match node with
  | some node => return some (← byDefinition project node method typeLevel receiver)
  | none => return none

/-- Whether a finding says something about the type. -/
def isAnswer : Option Inference → Bool
  | some inference => !inference.isUnknown
  | none => false

/-- A call of a method of instances of the named type: by the definition in the project, by the
signatures of the type, by those of the catch-all type. A definition whose type is not known is
reported if nothing else is found. -/
def onInstance (project : Project) (site : Site) (name : String) (receiver : Ty) :
    Inquiry (Option Inference) := do
  let node ← project.findMethod name site.call.method false
  let defined ← byDefinition? project node site.call.method false receiver
  if isAnswer defined then return defined
  let own ← byCatalogue site name (some receiver) false
  if own.isSome then return own
  let catchAll := project.settings.catchAllType
  if name = catchAll then return defined
  let inherited ← byCatalogue site catchAll (some receiver) false
  return inherited <|> defined

/-- The type of what a constructor of the named type yields. -/
def constructed (name : String) : Ty :=
  if name = TypeName.array then .array .unknown
  else if name = TypeName.hash then .hash .unknown .unknown
  else if name = TypeName.range then .range .unknown
  else .instanceOf name

/-- The definition of a method of the named type as an object. Who provides it is for the index to
say; what a module provides is found among its instance methods. -/
def typeMethod? (project : Project) (name method : String) : Inquiry (Option NodeId) := do
  let owner := (← Inquiry.typeMethodOwner? name method).getD name
  match ← project.findMethod owner method true with
  | some node => return some node
  | none => if owner = name then return none else project.findMethod owner method false

/-- A call of a method of the named type as an object. -/
def onType (project : Project) (site : Site) (name : String) : Inquiry (Option Inference) := do
  if project.settings.isConstructor site.call.method then
    return some
      { type := constructed name, reason := .constructed name, provenance := .project }
  let receiver := Ty.singleton name
  let node ← typeMethod? project name site.call.method
  let defined ← byDefinition? project node site.call.method true receiver
  if isAnswer defined then return defined
  let own ← byCatalogue site name (some receiver) true
  return own <|> defined

/-- The symbol that the first argument of a call is written as. -/
def symbolArgument? (project : Project) (call : Call) : Option String := do
  match ← project.graph.kind? (← call.arguments.head?) with
  | .literal _ (.symbol name) => some name
  | _ => none

/-- Whether a call reads one entry, as `value[key]` does. -/
def readsEntry (call : Call) : Bool :=
  call.method == "[]" && call.arguments.length == 1

/-- Reads a key out of a shape. -/
def ofShape (fields : List (String × Ty)) (key : String) : Inference :=
  match fields.lookup key with
  | some type => { type, reason := .shapeField key, provenance := .literal }
  | none => { type := .nil, reason := .shapeMissingKey key, provenance := .literal }

/-- A call on a receiver of the named type that the type lists, or nothing if it has no name. -/
def onNominal (project : Project) (site : Site) (receiver : Ty) :
    Inquiry (Option Inference) := do
  match receiver.nominalName? with
  | some name => onInstance project site name receiver
  | none => return none

mutual

/-- A call on a receiver of known type. A finding without a type is a definition in the project
about which nothing could be found out. A union is called member by member. -/
def onReceiver (project : Project) (site : Site) : (receiver : Ty) → Inquiry (Option Inference)
  | .union members => do
      let found ← onMembers project site members
      if found.isEmpty then return none
      return some {
        type := .join found
        reason := .unionReceiver site.call.method members.length
        provenance := .heuristic }
  | .singleton name => onType project site name
  | .shape fields =>
      match readsEntry site.call, symbolArgument? project site.call with
      | true, some key => return some (ofShape fields key)
      | _, _ => onNominal project site (.shape fields)
  | .method params result =>
      if site.call.method = "call" then
        return some { type := result, reason := .callableResult, provenance := .heuristic }
      else onNominal project site (.method params result)
  | receiver => onNominal project site receiver
termination_by structural receiver => receiver

/-- The known types among those that a call has on each of several receivers. -/
def onMembers (project : Project) (site : Site) : (receivers : List Ty) → Inquiry (List Ty)
  | [] => return []
  | receiver :: receivers => do
      if receiver.isUnknown then onMembers project site receivers
      else
        let finding ← onReceiver project site receiver
        let types ← onMembers project site receivers
        match finding with
        | some inference => return if inference.isUnknown then types else inference.type :: types
        | none => return types
termination_by structural receivers => receivers

end

/-- Why a call has no type. -/
def failure (method : String) : (receiver : Option Ty) → Reason
  | some type =>
      if type.isUnknown then .untypedReceiver method
      else .noSuchMethod (some (type.nominalName?.getD type.render)) method
  | none => .noSuchMethod none method

/-- The known result of the top-level function that has the name of the method. Such functions are
methods of every object, so a call with a receiver can reach one too. -/
def byFunction? (project : Project) (method : String) : Inquiry (Option Inference) := do
  match project.registries.methods.function? method with
  | none => return none
  | some node =>
      let inference ← Inquiry.inferNode node
      if inference.isUnknown then return none
      return some
        { type := inference.type, reason := .topLevelFunction method, provenance := .project }

/-- What is tried when the receiver did not answer: a top-level function, then the catch-all type,
unless that was tried. `pending` is what was found so far. -/
def fallback (project : Project) (site : Site) (receiver : Option Ty) (triedCatchAll : Bool)
    (pending : Option Inference) : Inquiry Inference := do
  if let some found ← byFunction? project site.call.method then return found
  let otherwise := pending.getD (.unknown (failure site.call.method receiver))
  if triedCatchAll then return otherwise
  let found ← byCatalogue site project.settings.catchAllType receiver false
  return found.getD otherwise

/-- Whether dispatch on a receiver of this type has asked the catch-all type already. -/
def asksCatchAll : Ty → Bool
  | .union _ => true
  | .singleton _ => false
  | type => type.nominalName?.isSome

/-- A call on a constant that names a type. -/
def onReference (project : Project) (site : Site) (name : String) : Inquiry Inference := do
  let pending ← onType project site name
  match pending with
  | some found =>
      if !found.isUnknown then return found
      fallback project site (some (.singleton name)) false pending
  | none => fallback project site (some (.singleton name)) false none

/-- The type of a receiver, or a guess from the method called on it. Answers too whether it was
guessed. -/
def receiverType (project : Project) (method : String) (receiver : NodeId) :
    Inquiry (Ty × Bool) := do
  let type ← Inquiry.typeOf receiver
  if !type.isUnknown then return (type, false)
  let guess ← Duck.guess project [{ name := method }]
  return if guess.isUnknown then (type, false) else (guess.type, true)

/-- A call on a receiver that has a value. -/
def onValue (project : Project) (site : Site) (receiver : NodeId) : Inquiry Inference := do
  let (type, guessed) ← receiverType project site.call.method receiver
  let pending ← onReceiver project site type
  match pending with
  | some found =>
      if !found.isUnknown then
        return if guessed then { found with provenance := .heuristic } else found
      fallback project site (some type) (asksCatchAll type) pending
  | none => fallback project site (some type) (asksCatchAll type) none

/-- What is found for a call. -/
def inquire (project : Project) (call : Call) : Inquiry Inference := do
  match call.receiver with
  | none =>
      let arguments ← Inquiry.typesOf call.arguments
      fallback project { call, arguments } none false none
  | some receiver =>
      let reference ← typeReference? project receiver
      let arguments ← Inquiry.typesOf call.arguments
      match reference with
      | some name => onReference project { call, arguments } name
      | none => onValue project { call, arguments } receiver

/-! ### Block parameters -/

/-- The part of a yielded value that the block parameter at a position receives, when several
parameters share the one value. -/
def spread (type : Ty) (index : Nat) : Ty :=
  match type with
  | .tuple elements => elements[index]?.getD .nil
  | .array element => element
  | other => if index = 0 then other else .nil

/-- The type of the block parameter at a position, by the types that the method yields. -/
def yielded? (receiver : Ty) (templates : List Ty) (index declared : Nat) : Option Ty :=
  let resolve := fun type : Ty => (type.substitute (Binding.forReceiver receiver)).erase
  match templates with
  | [] => none
  | [single] =>
      if 1 < declared then some (spread (resolve single) index)
      else if index = 0 then some (resolve single) else none
  | _ => templates[index]?.map resolve

/-- The type of a block parameter for one alternative of the receiver, and the type whose signature
gave it. -/
def blockParamOn (project : Project) (method : String) (index declared : Nat) (receiver : Ty) :
    Inquiry (Option (String × Ty)) := do
  match receiver.nominalName? with
  | none => return none
  | some name =>
      let own ← Inquiry.blockParams name method
      if own.isEmpty then
        let catchAll := project.settings.catchAllType
        let inherited ← Inquiry.blockParams catchAll method
        return (yielded? receiver inherited index declared).map fun type => (catchAll, type)
      else return (yielded? receiver own index declared).map fun type => (name, type)

/-- What is found for the parameter at a position of the block of a call. -/
def inquireBlockParam (project : Project) (index : Nat) (call : Call) : Inquiry Inference := do
  match call.receiver with
  | none => return .unknown (.blockParamWithoutReceiver call.method)
  | some receiver =>
      let type ← Inquiry.typeOf receiver
      if type.isUnknown then return .unknown (.blockParamWithoutReceiver call.method)
      let declared := (call.block.map fun block => block.params.length).getD 0
      let found ← Inquiry.eachSome (blockParamOn project call.method index declared) type.members
      match found with
      | [] => return .unknown (.noBlockParam call.method index)
      | (owner, _) :: _ =>
          return {
            type := .join (found.map Prod.snd)
            reason := .blockParam owner call.method index
            provenance := .catalogue }

end Call

end HeuristicTyping
