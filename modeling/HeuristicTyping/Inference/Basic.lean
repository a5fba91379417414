import HeuristicTyping.Program.Node
import HeuristicTyping.Ty.Printer

/-!
# What inference finds

Inference does not fail. It finds a type, the reason for it, and where it came from; where nothing
is known, the type is `Ty.unknown` and the reason says why.
-/

set_option autoImplicit false

namespace HeuristicTyping

/-- Where a type came from. -/
inductive Provenance where
  /-- It is written in the program. -/
  | literal
  /-- From methods, fields and types that the program defines. -/
  | project
  /-- From known signatures. -/
  | catalogue
  /-- Guessed from use. -/
  | heuristic
  /-- Nothing is known. -/
  | unknown
deriving DecidableEq, Repr

/-- The name of a provenance. -/
def Provenance.label : Provenance → String
  | .literal => "literal"
  | .project => "project"
  | .catalogue => "catalogue"
  | .heuristic => "heuristic"
  | .unknown => "unknown"

/-- Why a node has the type it has. -/
inductive Reason where
  | literal
  /-- The type of the node depends on itself. -/
  | circularReference
  | danglingNode (id : NodeId)
  | depthLimit
  /-- A write without a value, or a read without a write. -/
  | unassigned (name : String)
  | noFieldWriter (owner name : String)
  /-- The kind of the parameter fixes its type. -/
  | paramKind (kind : ParamKind)
  | untypedParam (name : String)
  | duckTyped (methods : List String) (candidates : Nat)
  | ambiguousDuckType (methods : List String) (candidates : Nat)
  | noDuckCandidate (methods : List String)
  /-- A constant that names a type or a module. -/
  | typeReference (name : String)
  | unresolvedConstant (name : String)
  | constructed (name : String)
  | projectMethod (owner method : String) (typeLevel : Bool)
  | topLevelFunction (name : String)
  /-- A call that was tried on each member of a union. -/
  | unionReceiver (method : String) (members : Nat)
  | catalogueMethod (owner method : String)
  | callableResult
  | shapeField (key : String)
  | shapeMissingKey (key : String)
  | blockParam (owner method : String) (index : Nat)
  | blockParamWithoutReceiver (method : String)
  | noBlockParam (method : String) (index : Nat)
  | untypedReceiver (method : String)
  | noSuchMethod (owner : Option String) (method : String)
  | branchJoin (branches : Nat)
  /-- An initializer yields its receiver. -/
  | initializer
  | emptyBody
  | noReturnValue (method : String)
  | selfReference
  /-- A return without a value. -/
  | implicitNil
  | blockParamOutsideCall
deriving DecidableEq, Repr

/-- The word for a kind of parameter. -/
def ParamKind.word : ParamKind → String
  | .required => "required"
  | .optional => "optional"
  | .rest => "rest"
  | .keyword => "keyword"
  | .keywordRest => "keyword rest"
  | .block => "block"
  | .forwarding => "forwarding"

namespace Reason

/-- Method names as they are listed in a reason. -/
def dotted (methods : List String) : String :=
  ", ".intercalate (methods.map fun method => "." ++ method)

/-- A name in quotation marks. -/
def quoted (name : String) : String := "`" ++ name ++ "`"

/-- The text of a reason. -/
def message : Reason → String
  | .literal => "literal"
  | .circularReference => "circular reference"
  | .danglingNode id => "dangling node #" ++ toString id
  | .depthLimit => "inference depth limit"
  | .unassigned name => quoted name ++ " is never assigned"
  | .noFieldWriter owner name => "no assignment to " ++ quoted name ++ " in " ++ owner
  | .paramKind kind => kind.word ++ " parameter"
  | .untypedParam name => "parameter " ++ quoted name ++ " has no default and no usable calls"
  | .duckTyped methods candidates =>
      "duck typed from " ++ dotted methods ++ " (" ++ toString candidates ++ " candidate" ++
        (if candidates = 1 then "" else "s") ++ ")"
  | .ambiguousDuckType methods candidates =>
      toString candidates ++ " types respond to " ++ dotted methods ++ "; too ambiguous"
  | .noDuckCandidate methods => "no type responds to " ++ dotted methods
  | .typeReference name => "constant " ++ quoted name ++ " names a type"
  | .unresolvedConstant name => "unresolved constant " ++ quoted name
  | .constructed name => "constructed by " ++ name ++ ".new"
  | .projectMethod owner method typeLevel =>
      "defined at " ++ owner ++ (if typeLevel then "." else "#") ++ method
  | .topLevelFunction name => "defined at top level as " ++ quoted name
  | .unionReceiver method members =>
      "joined ." ++ method ++ " over " ++ toString members ++ " receiver types"
  | .catalogueMethod owner method => "signature of " ++ owner ++ "#" ++ method
  | .callableResult => "result of a callable"
  | .shapeField key => "shape field :" ++ key
  | .shapeMissingKey key => "shape has no key :" ++ key
  | .blockParam owner method index =>
      "block parameter " ++ toString index ++ " of " ++ owner ++ "#" ++ method
  | .blockParamWithoutReceiver method => "block of ." ++ method ++ " has no typed receiver"
  | .noBlockParam method index => "no block parameter " ++ toString index ++ " for ." ++ method
  | .untypedReceiver method => "receiver of ." ++ method ++ " has no known type"
  | .noSuchMethod (some owner) method => "no method " ++ owner ++ "#" ++ method
  | .noSuchMethod none method => "no method " ++ quoted method
  | .branchJoin branches => "join of " ++ toString branches ++ " branches"
  | .initializer => "initializer returns its receiver"
  | .emptyBody => "empty body"
  | .noReturnValue method => "no return value captured for " ++ quoted method
  | .selfReference => "self"
  | .implicitNil => "return without value"
  | .blockParamOutsideCall => "unsupported block parameter outside a call"

end Reason

/-- What was found for a node. -/
structure Inference where
  type : Ty
  reason : Reason
  provenance : Provenance

namespace Inference

/-- Nothing is known, for the given reason. -/
def unknown (reason : Reason) : Inference where
  type := .unknown
  reason := reason
  provenance := .unknown

/-- A type that is written in the program. -/
def literal (type : Ty) : Inference where
  type := type
  reason := .literal
  provenance := .literal

def isUnknown (inference : Inference) : Bool := inference.type.isUnknown

end Inference

instance : Inhabited Inference := ⟨.unknown .literal⟩

end HeuristicTyping
