import HeuristicTyping.Arity

/-!
# Guessed types

`Ty` is what inference finds for a program element. Unions are kept in the order in which their
members were found but are compared as sets, so equality of types is `==` (`Ty.same`) and not
`=`. `Ty.join`, `Ty.tupleOf` and `Ty.shapeOf` build unions, tuples and shapes in their normal
form: flat, without repetitions, and of bounded size.
-/

set_option autoImplicit false

namespace HeuristicTyping

/-! ### Names of the types that the language itself provides -/

namespace TypeName

def nil : String := "NilClass"
def trueClass : String := "TrueClass"
def falseClass : String := "FalseClass"
def string : String := "String"
def symbol : String := "Symbol"
def integer : String := "Integer"
def float : String := "Float"
def numeric : String := "Numeric"
def array : String := "Array"
def hash : String := "Hash"
def range : String := "Range"
def proc : String := "Proc"
def object : String := "Object"

end TypeName

/-! ### Names of the variables that signatures of generic containers use -/

namespace TypeVar

/-- The element of a sequence or range. -/
def element : String := "Elem"
/-- The key of a mapping. -/
def key : String := "K"
/-- The value of a mapping. -/
def value : String := "V"
/-- The result of the block that is attached to a call. -/
def blockResult : String := "U"

end TypeVar

/-- A named parameter with a type of kind `α`. -/
structure ParamOf (α : Type) where
  name : String
  kind : ParamKind
  type : α

/-- A guessed type. -/
inductive Ty where
  /-- Nothing is known. -/
  | unknown
  /-- Left for a later pass. -/
  | unguessed
  /-- An instance of a named type. -/
  | instanceOf (name : String)
  /-- The named type or module as an object. -/
  | singleton (name : String)
  /-- One of several alternatives. -/
  | union (members : List Ty)
  /-- A sequence whose elements share a type. -/
  | array (element : Ty)
  /-- A sequence with a type for each position. -/
  | tuple (elements : List Ty)
  /-- A mapping whose keys share a type and whose values share a type. -/
  | hash (key value : Ty)
  /-- A mapping with known symbol keys, in ascending order of the keys. -/
  | shape (fields : List (String × Ty))
  /-- A bounded sequence. -/
  | range (element : Ty)
  /-- A variable of a signature, to be bound by substitution. -/
  | var (name : String)
  /-- The receiver of the call, to be bound by substitution. -/
  | self
  /-- All remaining arguments. -/
  | forwarded
  /-- A callable value. -/
  | method (params : List (ParamOf Ty)) (result : Ty)
deriving Inhabited

/-- A parameter of a method signature. -/
abbrev Param := ParamOf Ty

/-- Ordered parameters and the type of the result. -/
structure MethodSig where
  params : List Param
  result : Ty
deriving Inhabited

/-- The argument counts that the signature takes. -/
def MethodSig.arity (signature : MethodSig) : Arity :=
  Arity.ofKinds (signature.params.map ParamOf.kind)

namespace Ty

/-- A union keeps at most this many members. -/
def unionCap : Nat := 10
/-- A longer tuple is widened to an array. -/
def tupleCap : Nat := 8
/-- A shape with more fields is widened to a hash. -/
def shapeCap : Nat := 15

/-! ### Comparison -/

mutual

/-- Whether two types are the same: structurally, with unions compared as sets. -/
def same : Ty → Ty → Bool
  | .unknown, .unknown => true
  | .unguessed, .unguessed => true
  | .instanceOf name, .instanceOf other => name == other
  | .singleton name, .singleton other => name == other
  | .union members, .union others =>
      members.length == others.length && sameMembers members others
  | .array element, .array other => same element other
  | .tuple elements, .tuple others => sameElements elements others
  | .hash key value, .hash otherKey otherValue => same key otherKey && same value otherValue
  | .shape fields, .shape others => sameFields fields others
  | .range element, .range other => same element other
  | .var name, .var other => name == other
  | .self, .self => true
  | .forwarded, .forwarded => true
  | .method params result, .method otherParams otherResult =>
      sameParams params otherParams && same result otherResult
  | _, _ => false
termination_by structural type => type

/-- Whether each of the first types occurs among the second. -/
def sameMembers : List Ty → List Ty → Bool
  | [], _ => true
  | member :: members, others =>
      others.any (fun other => same member other) && sameMembers members others
termination_by structural types => types

/-- Whether two lists hold the same types in the same order. -/
def sameElements : List Ty → List Ty → Bool
  | [], [] => true
  | element :: elements, other :: others => same element other && sameElements elements others
  | _, _ => false
termination_by structural types => types

/-- Whether two field lists have the same keys with the same types, in the same order. -/
def sameFields : List (String × Ty) → List (String × Ty) → Bool
  | [], [] => true
  | (key, type) :: fields, (otherKey, otherType) :: others =>
      key == otherKey && same type otherType && sameFields fields others
  | _, _ => false
termination_by structural fields => fields

/-- Whether two parameter lists agree in names, kinds and types. -/
def sameParams : List (ParamOf Ty) → List (ParamOf Ty) → Bool
  | [], [] => true
  | param :: params, other :: others =>
      param.name == other.name && param.kind == other.kind && same param.type other.type &&
        sameParams params others
  | _, _ => false
termination_by structural params => params

end

instance : BEq Ty := ⟨same⟩

/-! ### Observations -/

/-- Whether nothing is known. -/
def isUnknown : Ty → Bool
  | .unknown => true
  | _ => false

/-- Whether the type is that of `nil`. -/
def isNil : Ty → Bool
  | .instanceOf name => name == TypeName.nil
  | _ => false

/-- The alternatives of a type: the members of a union, or the type alone. -/
def members : Ty → List Ty
  | .union members => members
  | type => [type]

/-- The named type whose methods a value of this type has. -/
def nominalName? : Ty → Option String
  | .instanceOf name | .singleton name => some name
  | .array _ | .tuple _ => some TypeName.array
  | .hash _ _ | .shape _ => some TypeName.hash
  | .range _ => some TypeName.range
  | .method _ _ => some TypeName.proc
  | _ => none

/-! ### Construction -/

mutual

/-- The alternatives of a type, with unions inside unions opened too. -/
def flatten : Ty → List Ty
  | .union members => flattenAll members
  | type => [type]
termination_by structural type => type

/-- The alternatives of several types, in order. -/
def flattenAll : List Ty → List Ty
  | [] => []
  | type :: types => flatten type ++ flattenAll types
termination_by structural types => types

end

/-- Adds a type at the end unless it occurs already. -/
def addNew (types : List Ty) (type : Ty) : List Ty :=
  if types.any (· == type) then types else types ++ [type]

/-- The types without repetitions, each at its first place. -/
def distinct (types : List Ty) : List Ty :=
  types.foldl addNew []

/-- The union of several types. Unions among them are opened, repetitions are dropped, `unknown`
is dropped unless it stands alone, and the first `unionCap` members are kept. No member gives
`unknown`, and a single one is not wrapped. -/
def join (types : List Ty) : Ty :=
  let alternatives := distinct (flattenAll types)
  let known :=
    if 1 < alternatives.length then alternatives.filter (fun type => !type.isUnknown)
    else alternatives
  match known.take unionCap with
  | [] => .unknown
  | [only] => only
  | several => .union several

/-- A tuple of the given types, or an array of their union if there are too many. -/
def tupleOf (elements : List Ty) : Ty :=
  if tupleCap < elements.length then .array (join elements) else .tuple elements

/-- Puts a field in its place by the order of the keys; an older field of that key goes. -/
def insertField (key : String) (type : Ty) : List (String × Ty) → List (String × Ty)
  | [] => [(key, type)]
  | (other, otherType) :: fields =>
      if key < other then (key, type) :: (other, otherType) :: fields
      else if key = other then (key, type) :: fields
      else (other, otherType) :: insertField key type fields

/-- The fields in ascending order of the keys. Of several entries for a key the last counts. -/
def sortFields (entries : List (String × Ty)) : List (String × Ty) :=
  entries.foldl (fun fields entry => insertField entry.1 entry.2 fields) []

def nil : Ty := .instanceOf TypeName.nil
def string : Ty := .instanceOf TypeName.string
def symbol : Ty := .instanceOf TypeName.symbol
def integer : Ty := .instanceOf TypeName.integer
def float : Ty := .instanceOf TypeName.float
def proc : Ty := .instanceOf TypeName.proc

/-- A shape with the given fields, or a hash from symbols to their union if there are too many. -/
def shapeOf (entries : List (String × Ty)) : Ty :=
  let fields := sortFields entries
  if shapeCap < fields.length then .hash symbol (join (fields.map Prod.snd)) else .shape fields

/-- Either of the two truth values. -/
def bool : Ty := join [.instanceOf TypeName.trueClass, .instanceOf TypeName.falseClass]

/-- A value of the given type, or `nil`. -/
def optional (type : Ty) : Ty := join [type, nil]

/-- The named type itself or an instance of it, by the level asked for. -/
def ofOwner (owner : String) (typeLevel : Bool) : Ty :=
  if typeLevel then .singleton owner else .instanceOf owner

end Ty

end HeuristicTyping
