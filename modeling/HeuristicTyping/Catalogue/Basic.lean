import HeuristicTyping.Catalogue.Signatures

/-!
# The signature catalogue

A `Catalogue` holds overloads and block templates by owner and method. A type without an entry
for a method falls back on its parent, at most `maxParents` types deep. Of several overloads, a
call takes the first that fits the types of its arguments, else the first that takes their number,
else the first of all.
-/

set_option autoImplicit false

namespace HeuristicTyping

/-- What is known about one method. -/
structure CatalogueEntry where
  overloads : List MethodSig := []
  blockParams : List Ty := []
deriving Inhabited

/-- The entries of methods, by owner and name. -/
abbrev MethodTable := List ((String × String) × CatalogueEntry)

/-- Changes the entry of a method, which is made first if there is none. -/
def MethodTable.update (owner name : String) (change : CatalogueEntry → CatalogueEntry) :
    MethodTable → MethodTable
  | [] => [((owner, name), change {})]
  | (key, entry) :: table =>
      if key = (owner, name) then (key, change entry) :: table
      else (key, entry) :: MethodTable.update owner name change table

/-- Signatures of methods, with a parent to fall back on for some types. -/
structure Catalogue where
  ofInstances : MethodTable := []
  ofTypes : MethodTable := []
  parents : List (String × String) := []
deriving Inhabited

namespace Catalogue

/-- At most this many types are tried for a method, in case the parents form a loop. -/
def maxParents : Nat := 32

/-- Adds an overload to a signature entry. -/
def addOverload (signature : MethodSig) (entry : CatalogueEntry) : CatalogueEntry :=
  { entry with overloads := entry.overloads ++ [signature] }

/-- Adds an overload of a method of instances. -/
def addMethod (catalogue : Catalogue) (owner name : String) (signature : MethodSig) : Catalogue :=
  { catalogue with
    ofInstances := MethodTable.update owner name (addOverload signature) catalogue.ofInstances }

/-- Adds an overload of a method of the type as an object. -/
def addTypeMethod (catalogue : Catalogue) (owner name : String) (signature : MethodSig) :
    Catalogue :=
  { catalogue with
    ofTypes := MethodTable.update owner name (addOverload signature) catalogue.ofTypes }

/-- Sets the types that a method of instances yields to its block. -/
def setBlockParams (catalogue : Catalogue) (owner name : String) (types : List Ty) : Catalogue :=
  { catalogue with
    ofInstances := MethodTable.update owner name (fun entry => { entry with blockParams := types })
      catalogue.ofInstances }

/-- Makes look-ups on `child` fall back on `parent`. -/
def setParent (catalogue : Catalogue) (child parent : String) : Catalogue :=
  { catalogue with
    parents := (child, parent) :: catalogue.parents.filter fun entry => entry.1 != child }

/-! ### Definitions -/

end Catalogue

/-- A line of a catalogue. -/
inductive CatalogueDef where
  | method (owner name : String) (signature : MethodSig)
  | typeMethod (owner name : String) (signature : MethodSig)
  | blockParams (owner name : String) (types : List Ty)
  | parent (child parent : String)

namespace Catalogue

/-- Adds a line. -/
def define (catalogue : Catalogue) : CatalogueDef → Catalogue
  | .method owner name signature => catalogue.addMethod owner name signature
  | .typeMethod owner name signature => catalogue.addTypeMethod owner name signature
  | .blockParams owner name types => catalogue.setBlockParams owner name types
  | .parent child parent => catalogue.setParent child parent

/-- The catalogue with the given lines, one after the other. -/
def ofDefs (definitions : List CatalogueDef) : Catalogue :=
  definitions.foldl define {}

/-! ### Look-up -/

/-- The entry for a method of the first type that has one, going from `owner` to its parents. -/
def findFrom (catalogue : Catalogue) (table : MethodTable) (name : String) :
    (tries : Nat) → (owner : String) → Option CatalogueEntry
  | 0, _ => none
  | tries + 1, owner =>
      match table.lookup (owner, name) with
      | some entry => some entry
      | none =>
          match catalogue.parents.lookup owner with
          | some parent => catalogue.findFrom table name tries parent
          | none => none

/-- The entry that answers for a method of a type. -/
def find? (catalogue : Catalogue) (table : MethodTable) (owner name : String) :
    Option CatalogueEntry :=
  catalogue.findFrom table name maxParents owner

/-- Whether an argument of type `argument` suits a parameter of type `param`. What is not known
suits everything; otherwise the types are the same or share their nominal type. -/
def suits (param argument : Ty) : Bool :=
  match param, argument with
  | .unknown, _ | .var _, _ | .self, _ | _, .unknown => true
  | _, _ =>
      param == argument ||
        (param.nominalName?.isSome && param.nominalName? == argument.nominalName?)

/-- Whether the arguments suit the positional parameters, as far as both go. -/
def suitsAll (signature : MethodSig) (arguments : List Ty) : Bool :=
  let positional := signature.params.filter fun param => param.kind.isPositional
  (positional.zip arguments).all fun pair => suits pair.1.type pair.2

/-- The overload that a call with the given arguments takes. -/
def selectOverload? (overloads : List MethodSig) (arguments : List Ty) : Option MethodSig :=
  let fitting := overloads.filter fun signature => signature.arity.accepts arguments.length
  fitting.find? (suitsAll · arguments) <|> fitting.head? <|> overloads.head?

/-- The type of the result of a call, read off a table. -/
def resultIn (catalogue : Catalogue) (table : MethodTable) (owner name : String)
    (arguments : List Ty) : Ty :=
  match (catalogue.find? table owner name).bind (selectOverload? ·.overloads arguments) with
  | some signature => signature.result
  | none => .unknown

/-- The catalogue as a source of signatures. -/
def signatures (catalogue : Catalogue) : SignatureSource where
  returnType := catalogue.resultIn catalogue.ofInstances
  typeLevelReturnType := catalogue.resultIn catalogue.ofTypes
  overloads owner method :=
    match catalogue.find? catalogue.ofInstances owner method with
    | some entry => entry.overloads
    | none => []
  blockParams owner method :=
    match catalogue.find? catalogue.ofInstances owner method with
    | some entry => entry.blockParams
    | none => []

end Catalogue

end HeuristicTyping
