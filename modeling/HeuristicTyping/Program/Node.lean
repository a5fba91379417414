import HeuristicTyping.Ty.Basic
import HeuristicTyping.Source.Location

/-!
# Program elements

A node stands for one element of the analyzed program: a literal, a read or write of a variable,
a call, a definition. Its kind holds the numbers of the nodes on which its type depends.
-/

set_option autoImplicit false

namespace HeuristicTyping

/-- The number of a node. -/
abbrev NodeId := Nat

/-- The number of a local variable or parameter. -/
abbrev VarId := Nat

/-- A method that was seen being called on a variable. -/
structure CalledMethod where
  name : String
  /-- The number of positional arguments, where the call fixes it. -/
  count : Option Nat := none
deriving DecidableEq, Repr, Inhabited

/-- Whether a field belongs to instances or to the type itself. -/
inductive FieldScope where
  | ofInstance
  | ofType
deriving DecidableEq, Repr

/-- The key of an entry of a hash literal. -/
inductive HashKey where
  | symbol (name : String)
  | expression (node : NodeId)
deriving DecidableEq, Repr

/-- What a literal was written with, beyond its type. -/
inductive LiteralValue where
  | plain
  | symbol (name : String)
  | array (elements : List NodeId)
  | hash (entries : List (HashKey × NodeId))
deriving DecidableEq, Repr

/-- A block that is attached to a call. -/
structure Block where
  params : List NodeId := []
  body : List NodeId := []
  /-- The expression whose value the block yields. -/
  result : Option NodeId := none
deriving DecidableEq, Repr

/-- A method call. -/
structure Call where
  method : String
  receiver : Option NodeId := none
  arguments : List NodeId := []
  block : Option Block := none
  /-- Whether a block is passed, with or without a body that is at hand. -/
  passesBlock : Bool := block.isSome
deriving DecidableEq, Repr

/-- A method definition. -/
structure Definition where
  name : String
  owner : String
  params : List NodeId := []
  /-- The expression that joins every value the method can produce. -/
  result : Option NodeId := none
  body : List NodeId := []
  /-- Whether it is defined on the type itself and not on its instances. -/
  typeLevel : Bool := false
deriving DecidableEq, Repr

/-- The kinds of program elements. -/
inductive NodeKind where
  | literal (type : Ty) (value : LiteralValue)
  | localWrite (name : String) (var : VarId) (value : Option NodeId)
  | localRead (name : String) (var : VarId) (write : Option NodeId)
  | fieldWrite (scope : FieldScope) (owner name : String) (value : Option NodeId)
  /-- A field read. Without a known write, the writer is looked up by owner and name. -/
  | fieldRead (scope : FieldScope) (owner name : String) (write : Option NodeId)
  | param (name : String) (kind : ParamKind) (default : Option NodeId) (var : VarId)
  /-- A constant, with the value it was assigned from if it is an alias. -/
  | constant (name : String) (target : Option NodeId)
  | call (site : Call)
  /-- The parameter at a position of the block that is attached to a call. -/
  | blockParam (index : Nat) (site : NodeId)
  /-- A join of control flow. -/
  | merge (branches : List NodeId)
  | definition (method : Definition)
  | selfReference (owner : String) (typeLevel : Bool)
  | explicitReturn (value : Option NodeId)

namespace NodeKind

/-- A symbol literal. -/
def symbol (name : String) : NodeKind := .literal Ty.symbol (.symbol name)

/-- The numbers of the nodes in a hash entry. -/
def entryEdges : HashKey × NodeId → List NodeId
  | (.expression key, value) => [key, value]
  | (.symbol _, value) => [value]

/-- The numbers of the nodes that a node stores, in order. A definition stores its result only,
and a field read without a known write stores nothing. -/
def edges : NodeKind → List NodeId
  | .literal _ (.array elements) => elements
  | .literal _ (.hash entries) => entries.flatMap entryEdges
  | .literal _ _ => []
  | .localWrite _ _ value => value.toList
  | .localRead _ _ write => write.toList
  | .fieldWrite _ _ _ value => value.toList
  | .fieldRead _ _ _ write => write.toList
  | .param _ _ default _ => default.toList
  | .constant _ target => target.toList
  | .call site => site.receiver.toList ++ site.arguments ++ (site.block.bind Block.result).toList
  | .blockParam _ site => [site]
  | .merge branches => branches
  | .definition method => method.result.toList
  | .selfReference _ _ => []
  | .explicitReturn value => value.toList

/-- A short name of the kind. -/
def label : NodeKind → String
  | .literal _ _ => "literal"
  | .localWrite _ _ _ => "local_write"
  | .localRead _ _ _ => "local_read"
  | .fieldWrite .ofInstance _ _ _ => "ivar_write"
  | .fieldWrite .ofType _ _ _ => "cvar_write"
  | .fieldRead .ofInstance _ _ _ => "ivar_read"
  | .fieldRead .ofType _ _ _ => "cvar_read"
  | .param _ _ _ _ => "param"
  | .constant _ _ => "constant"
  | .call _ => "call"
  | .blockParam _ _ => "block_param"
  | .merge _ => "merge"
  | .definition _ => "def"
  | .selfReference _ _ => "self"
  | .explicitReturn _ => "return"

/-- The name under which the program refers to the element, if it has one. -/
def name? : NodeKind → Option String
  | .localWrite name _ _ | .localRead name _ _ | .fieldWrite _ _ name _ | .fieldRead _ _ name _
  | .param name _ _ _ | .constant name _ => some name
  | .call site => some ("." ++ site.method)
  | .definition method => some method.name
  | .selfReference owner _ => some owner
  | .literal _ _ | .blockParam _ _ | .merge _ | .explicitReturn _ => none

end NodeKind

/-- A node with its number and where it came from. -/
structure Node where
  id : NodeId
  file : Option FileId := none
  span : Option Span := none
  kind : NodeKind

/-- The location of a node, if both its file and its span are known. -/
def Node.location? (node : Node) : Option Location := do
  return { file := ← node.file, span := ← node.span }

end HeuristicTyping
