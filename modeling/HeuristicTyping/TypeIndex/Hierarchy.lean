import HeuristicTyping.TypeIndex.Basic

/-!
# A type hierarchy in memory

A `Hierarchy` is built from definitions of classes, modules, mixins and methods, and answers as a
`TypeIndex` does. Ancestors come in the order in which the language looks up methods: the included
modules of a type, latest first, then its superclass with what that includes, and so on up.
Definitions may come in any order and may even make a type its own ancestor, so every walk up
keeps what it has seen and stops when nothing new is found.
-/

set_option autoImplicit false

namespace HeuristicTyping

/-- What is known about one type or module. -/
structure TypeEntry where
  name : String
  kind : ConstantKind
  superclass : Option String := none
  includes : List String := []
  extensions : List String := []
  /-- Instance methods, with their arities where these are known. -/
  methods : List (String × Option Arity) := []
  typeMethods : List String := []
deriving DecidableEq, Repr

namespace TypeEntry

/-- Records an instance method. An older record of the name goes. -/
def setMethod (entry : TypeEntry) (method : String) (arity : Option Arity) : TypeEntry :=
  { entry with
    methods := (method, arity) :: entry.methods.filter fun known => known.1 != method }

/-- The modules that instances gain, in the order in which methods are looked up. -/
def mixins (entry : TypeEntry) : List String := entry.includes.reverse

end TypeEntry

/-- The types and modules of a program, in the order of their first definition. -/
structure Hierarchy where
  entries : List TypeEntry := []
deriving DecidableEq, Repr, Inhabited

/-- A definition that a program makes. -/
inductive HierarchyDef where
  | ofClass (name : String) (superclass : Option String)
  | ofModule (name : String)
  | mixIn (target module : String)
  | extend (target module : String)
  | method (owner name : String) (arity : Option Arity)
  | typeMethod (owner name : String)
deriving DecidableEq, Repr

namespace Hierarchy

/-- The entry of a name. -/
def entry? (hierarchy : Hierarchy) (name : String) : Option TypeEntry :=
  hierarchy.entries.find? fun entry => entry.name == name

def contains (hierarchy : Hierarchy) (name : String) : Bool :=
  (hierarchy.entry? name).isSome

/-- Changes the entry of a name, which is made first if there is none. -/
def update (hierarchy : Hierarchy) (name : String) (kind : ConstantKind)
    (change : TypeEntry → TypeEntry) : Hierarchy :=
  if hierarchy.contains name then
    { entries := hierarchy.entries.map fun entry =>
        if entry.name = name then change entry else entry }
  else { entries := hierarchy.entries ++ [change { name, kind }] }

/-- Adds a definition. A class that is opened again without a superclass keeps the one it has, and
what no definition introduced before counts as a class. -/
def define (hierarchy : Hierarchy) : HierarchyDef → Hierarchy
  | .ofClass name superclass =>
      hierarchy.update name .type fun entry =>
        { entry with kind := .type, superclass := superclass <|> entry.superclass }
  | .ofModule name => hierarchy.update name .module fun entry => { entry with kind := .module }
  | .mixIn target module =>
      hierarchy.update target .type fun entry =>
        { entry with includes := addName entry.includes module }
  | .extend target module =>
      hierarchy.update target .type fun entry =>
        { entry with extensions := addName entry.extensions module }
  | .method owner name arity =>
      hierarchy.update owner .type fun entry => entry.setMethod name arity
  | .typeMethod owner name =>
      hierarchy.update owner .type fun entry =>
        { entry with typeMethods := addName entry.typeMethods name }

/-- The hierarchy that the definitions make, one after the other. -/
def ofDefs (definitions : List HierarchyDef) : Hierarchy :=
  definitions.foldl define {}

/-- The classes that the language itself provides. -/
def core : Hierarchy :=
  let belowObject := [TypeName.nil, TypeName.trueClass, TypeName.falseClass, TypeName.string,
    TypeName.symbol, TypeName.array, TypeName.hash, TypeName.range, TypeName.proc]
  ofDefs
    ([.ofClass TypeName.object none,
      .ofClass TypeName.numeric (some TypeName.object),
      .ofClass TypeName.integer (some TypeName.numeric),
      .ofClass TypeName.float (some TypeName.numeric)] ++
      belowObject.map fun name => .ofClass name (some TypeName.object))

/-! ### Ancestors -/

/-- The ancestors found when climbing from a type, after those `found` so far. Each step up adds a
name that was not seen, the superclass; `steps` bounds their number. -/
def climb (hierarchy : Hierarchy) (start : String) :
    (steps : Nat) → (name : String) → (found : List String) → List String
  | 0, _, found => found
  | steps + 1, name, found =>
      match hierarchy.entry? name with
      | none => found
      | some entry =>
          let found := entry.mixins.foldl
            (fun found mixin => if mixin = start then found else addName found mixin) found
          match entry.superclass with
          | none => found
          | some superclass =>
              if superclass = start ∨ superclass ∈ found then found
              else hierarchy.climb start steps superclass (found ++ [superclass])

/-- The ancestors of a type, nearest first, without the type itself. A climb visits each entry at
most once, so it is over after as many steps as there are entries. -/
def ancestors (hierarchy : Hierarchy) (name : String) : List String :=
  hierarchy.climb name (hierarchy.entries.length + 1) name []

/-- A type and its ancestors, nearest first. -/
def lineage (hierarchy : Hierarchy) (name : String) : List String :=
  name :: hierarchy.ancestors name

/-! ### Methods -/

/-- The record of an instance method on the type itself: its arity, where that is known. -/
def ownMethod? (hierarchy : Hierarchy) (name method : String) : Option (Option Arity) :=
  (hierarchy.entry? name).bind fun entry => entry.methods.lookup method

/-- The nearest record of an instance method on a type or its ancestors. -/
def method? (hierarchy : Hierarchy) (name method : String) : Option (Option Arity) :=
  (hierarchy.lineage name).findSome? fun owner => hierarchy.ownMethod? owner method

/-- Whether instances of a type answer a call. A method of unknown arity takes any count, and a
call without a count fits any arity. -/
def respondsTo (hierarchy : Hierarchy) (name : String) (call : CalledMethod) : Bool :=
  match hierarchy.method? name call.name, call.count with
  | none, _ => false
  | some (some arity), some count => arity.accepts count
  | some _, _ => true

/-- Who provides a method of a type as an object, going up from `name`: the type that defines it,
or the latest of the modules that extend it whose instances have the method. -/
def climbTypeMethod (hierarchy : Hierarchy) (method : String) :
    (steps : Nat) → (name : String) → (seen : List String) → Option String
  | 0, _, _ => none
  | steps + 1, name, seen =>
      if name ∈ seen then none
      else
        match hierarchy.entry? name with
        | none => none
        | some entry =>
            if method ∈ entry.typeMethods then some name
            else
              match entry.extensions.reverse.find?
                  fun module => (hierarchy.method? module method).isSome with
              | some module => some module
              | none =>
                  match entry.superclass with
                  | none => none
                  | some superclass =>
                      hierarchy.climbTypeMethod method steps superclass (name :: seen)

/-- Who provides a method of a type as an object. -/
def typeMethodOwner? (hierarchy : Hierarchy) (name method : String) : Option String :=
  hierarchy.climbTypeMethod method (hierarchy.entries.length + 1) name []

/-- The types that answer every one of the calls, in the order of their definition. -/
def typesDefining (hierarchy : Hierarchy) (calls : List CalledMethod) : List String :=
  if calls.isEmpty then []
  else
    (hierarchy.entries.filter fun entry =>
      entry.kind == .type && calls.all (hierarchy.respondsTo entry.name)).map TypeEntry.name

/-- The hierarchy as an index. -/
def index (hierarchy : Hierarchy) : TypeIndex where
  ancestors := hierarchy.ancestors
  constantKind? name := (hierarchy.entry? name).map TypeEntry.kind
  typeMethodOwner? := hierarchy.typeMethodOwner?
  typesDefining := hierarchy.typesDefining

end Hierarchy

end HeuristicTyping
