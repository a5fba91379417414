import HeuristicTyping.Inference.Call

/-!
# The rules of inference

One rule for each kind of program element. `Project.rule` says what a node asks and what is found
from the answers; who answers, and how often, is not its concern.
-/

set_option autoImplicit false

namespace HeuristicTyping

namespace Rule

/-- What is found for the given node, or nothing for the given reason. -/
def follow (id : Option NodeId) (otherwise : Reason) : Inquiry Inference :=
  match id with
  | some id => Inquiry.inferNode id
  | none => return .unknown otherwise

/-! ### Literals -/

/-- The symbol keys of hash entries, if all keys are symbols. -/
def symbolEntries? : List (HashKey × NodeId) → Option (List (String × NodeId))
  | [] => some []
  | (.symbol name, value) :: entries =>
      (symbolEntries? entries).map fun named => (name, value) :: named
  | (.expression _, _) :: _ => none

/-- The type of a field of a hash literal. -/
def field (entry : String × NodeId) : Inquiry (String × Ty) := do
  return (entry.1, ← Inquiry.typeOf entry.2)

/-- The types of the key and the value of an entry of a hash literal. -/
def entry : HashKey × NodeId → Inquiry (Ty × Ty)
  | (.symbol _, value) => return (.symbol, ← Inquiry.typeOf value)
  | (.expression key, value) => do
      let keyType ← Inquiry.typeOf key
      let valueType ← Inquiry.typeOf value
      return (keyType, valueType)

/-- The type of a hash literal: a shape if all keys are symbols. -/
def hash (entries : List (HashKey × NodeId)) : Inquiry Ty := do
  match symbolEntries? entries with
  | some named => return .shapeOf (← Inquiry.each field named)
  | none =>
      let types ← Inquiry.each entry entries
      return .hash (.join (types.map Prod.fst)) (.join (types.map Prod.snd))

/-- An array literal is a tuple and a hash literal is typed by its entries; an empty one keeps the
type it was stored with, as every other literal does. -/
def literal (type : Ty) : LiteralValue → Inquiry Inference
  | .array (first :: rest) => return .literal (.tupleOf (← Inquiry.typesOf (first :: rest)))
  | .hash (first :: rest) => return .literal (← hash (first :: rest))
  | _ => return .literal type

/-! ### Variables and parameters -/

/-- A read of a local variable has the type of its write, or else what the calls on the variable
suggest. -/
def localRead (project : Project) (name : String) (var : VarId) (write : Option NodeId) :
    Inquiry Inference := do
  let written ← follow write (.unassigned name)
  let calls := project.graph.calledMethods var
  if !written.isUnknown || calls.isEmpty then return written
  let guess ← Duck.guess project calls
  return if guess.isUnknown then written else guess

/-- A read of a field has the type of its write. Without a known write, the registered writer of
the field counts, also that of an ancestor. -/
def fieldRead (project : Project) (scope : FieldScope) (owner name : String)
    (write : Option NodeId) : Inquiry Inference := do
  match write with
  | some writer => Inquiry.inferNode writer
  | none =>
      let writer ← (project.registries.fields scope).find owner name
      follow writer (.noFieldWriter owner name)

/-- The type of a parameter whose kind fixes it. -/
def fixedType? : ParamKind → Option Ty
  | .rest => some (.array .unknown)
  | .keywordRest => some (.hash .symbol .unknown)
  | .block => some .proc
  | .forwarding => some .forwarded
  | .required | .optional | .keyword => none

/-- What is found for the default value of a parameter, if it has one. -/
def defaultValue (default : Option NodeId) : Inquiry (Option Inference) := do
  match default with
  | some id => return some (← Inquiry.inferNode id)
  | none => return none

/-- A parameter whose kind leaves its type open has the type of its default value, or else what
the calls on it suggest. -/
def openParam (project : Project) (name : String) (default : Option NodeId) (var : VarId) :
    Inquiry Inference := do
  let found ← defaultValue default
  let otherwise := found.getD (.unknown (.untypedParam name))
  let calls := project.graph.calledMethods var
  if !otherwise.isUnknown || calls.isEmpty then return otherwise
  let guess ← Duck.guess project calls
  return if guess.isUnknown && found.isSome then otherwise else guess

def param (project : Project) (name : String) (kind : ParamKind) (default : Option NodeId)
    (var : VarId) : Inquiry Inference :=
  match fixedType? kind with
  | some type => return { type, reason := .paramKind kind, provenance := .project }
  | none => openParam project name default var

/-! ### Constants, joins and definitions -/

/-- An alias has the type of its target; any other constant is a type if the index knows it. -/
def constant (name : String) : Option NodeId → Inquiry Inference
  | some target => Inquiry.inferNode target
  | none => do
      let kind ← Inquiry.constantKind? name
      return if kind.isSome then
          { type := .singleton name, reason := .typeReference name, provenance := .project }
        else .unknown (.unresolvedConstant name)

/-- The provenance that several findings share, or that of a guess. -/
def commonProvenance : List Inference → Provenance
  | [] => .heuristic
  | first :: rest =>
      if rest.all fun inference => inference.provenance == first.provenance then first.provenance
      else .heuristic

/-- A join of control flow has the union of the types of its branches. -/
def merge : List NodeId → Inquiry Inference
  | [] => return .unknown (.branchJoin 0)
  | [only] => Inquiry.inferNode only
  | branches => do
      let found ← Inquiry.each Inquiry.inferNode branches
      return {
        type := .join (found.map Inference.type)
        reason := .branchJoin branches.length
        provenance := commonProvenance found }

/-- A definition has the type of what the method yields. -/
def definition (project : Project) (method : Definition) : Inquiry Inference :=
  if !method.typeLevel && project.settings.isInitializer method.name then
    return { type := .self, reason := .initializer, provenance := .project }
  else if method.body.isEmpty then
    return { type := .nil, reason := .emptyBody, provenance := .project }
  else follow method.result (.noReturnValue method.name)

/-- A block parameter is typed by the call that it belongs to. -/
def blockParam (project : Project) (index : Nat) (site : NodeId) : Inquiry Inference :=
  match project.graph.kind? site with
  | some (.call call) => Call.inquireBlockParam project index call
  | _ => return .unknown .blockParamOutsideCall

def explicitReturn : Option NodeId → Inquiry Inference
  | some value => Inquiry.inferNode value
  | none => return { type := .nil, reason := .implicitNil, provenance := .project }

end Rule

namespace Project

/-- What is found for a node of a kind. -/
def rule (project : Project) : NodeKind → Inquiry Inference
  | .literal type value => Rule.literal type value
  | .localWrite name _ value => Rule.follow value (.unassigned name)
  | .localRead name var write => Rule.localRead project name var write
  | .fieldWrite _ _ name value => Rule.follow value (.unassigned name)
  | .fieldRead scope owner name write => Rule.fieldRead project scope owner name write
  | .param name kind default var => Rule.param project name kind default var
  | .constant name target => Rule.constant name target
  | .call site => Call.inquire project site
  | .blockParam index site => Rule.blockParam project index site
  | .merge branches => Rule.merge branches
  | .definition method => Rule.definition project method
  | .selfReference owner typeLevel =>
      return { type := .ofOwner owner typeLevel, reason := .selfReference, provenance := .project }
  | .explicitReturn value => Rule.explicitReturn value

/-- The type of a parameter of a definition, if the node is a parameter. -/
def signatureParam (project : Project) (id : NodeId) : Inquiry (Option Param) := do
  match project.graph.kind? id with
  | some (.param name kind _ _) => return some { name, kind, type := ← Inquiry.typeOf id }
  | _ => return none

/-- The signature of a definition, with its owner in place of the receiver. There is none for any
other node. -/
def signatureOf (project : Project) (id : NodeId) : Inquiry (Option MethodSig) := do
  match project.graph.kind? id with
  | some (.definition method) =>
      let params ← Inquiry.eachSome project.signatureParam method.params
      let result ← Inquiry.typeOf id
      let owner := Ty.ofOwner method.owner method.typeLevel
      return some { params, result := result.substitute (Binding.bindSelf {} owner) }
  | _ => return none

end Project

end HeuristicTyping
