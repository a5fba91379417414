import HeuristicTyping.Registry.Table

/-!
# The registries of a program

Methods, top-level functions and fields of the analyzed program. A redefinition of a method
shadows the earlier one; the type of a field comes from its first assignment.
-/

set_option autoImplicit false

namespace HeuristicTyping

/-- The methods and top-level functions that a program defines. -/
structure MethodRegistry where
  ofInstances : RegistryTable := { precedence := .latest }
  ofTypes : RegistryTable := { precedence := .latest }
  functions : RegistryTable := { precedence := .latest }
deriving DecidableEq, Repr, Inhabited

namespace MethodRegistry

/-- The owner under which top-level functions are kept. -/
def topLevel : String := ""

/-- The table of methods at a level: those of types as objects or those of instances. -/
def table (registry : MethodRegistry) (typeLevel : Bool) : RegistryTable :=
  if typeLevel then registry.ofTypes else registry.ofInstances

/-- Registers a method. -/
def register (registry : MethodRegistry) (owner name : String) (typeLevel : Bool) (node : NodeId)
    (file : Option FileId := none) : MethodRegistry :=
  if typeLevel then { registry with ofTypes := (registry.ofTypes.register owner name node file).2 }
  else { registry with ofInstances := (registry.ofInstances.register owner name node file).2 }

/-- Registers a definition under its owner and level. -/
def registerDefinition (registry : MethodRegistry) (definition : Definition) (node : NodeId)
    (file : Option FileId := none) : MethodRegistry :=
  registry.register definition.owner definition.name definition.typeLevel node file

/-- Registers a top-level function. -/
def registerFunction (registry : MethodRegistry) (name : String) (node : NodeId)
    (file : Option FileId := none) : MethodRegistry :=
  { registry with functions := (registry.functions.register topLevel name node file).2 }

/-- The definition of a method of a type or of its nearest ancestor that has one. -/
def lookup? (registry : MethodRegistry) (owner name : String) (typeLevel : Bool)
    (index : Option TypeIndex) : Option NodeId :=
  (registry.table typeLevel).lookup? owner name index

/-- The definition of a top-level function. -/
def function? (registry : MethodRegistry) (name : String) : Option NodeId :=
  registry.functions.get? topLevel name

/-- Removes the registrations of a file and answers how many there were. -/
def removeFile (registry : MethodRegistry) (file : FileId) : Nat × MethodRegistry :=
  let (instanceCount, ofInstances) := registry.ofInstances.removeFile file
  let (typeCount, ofTypes) := registry.ofTypes.removeFile file
  let (functionCount, functions) := registry.functions.removeFile file
  (instanceCount + typeCount + functionCount, { ofInstances, ofTypes, functions })

/-- Removes everything. -/
def clear (registry : MethodRegistry) : MethodRegistry :=
  { ofInstances := registry.ofInstances.clear
    ofTypes := registry.ofTypes.clear
    functions := registry.functions.clear }

def size (registry : MethodRegistry) : Nat :=
  registry.ofInstances.size + registry.ofTypes.size + registry.functions.size

def isEmpty (registry : MethodRegistry) : Bool :=
  registry.size == 0

end MethodRegistry

/-- All that a program registers. -/
structure Registries where
  methods : MethodRegistry := {}
  instanceFields : RegistryTable := { precedence := .earliest }
  typeFields : RegistryTable := { precedence := .earliest }
deriving DecidableEq, Repr, Inhabited

namespace Registries

/-- The fields of a scope. -/
def fields (registries : Registries) : FieldScope → RegistryTable
  | .ofInstance => registries.instanceFields
  | .ofType => registries.typeFields

/-- Puts a table in the place of the fields of a scope. -/
def withFields (registries : Registries) (scope : FieldScope) (fields : RegistryTable) :
    Registries :=
  match scope with
  | .ofInstance => { registries with instanceFields := fields }
  | .ofType => { registries with typeFields := fields }

/-- Registers a writer of a field, and answers whether the type of the field now comes from it. -/
def registerField (registries : Registries) (scope : FieldScope) (owner name : String)
    (node : NodeId) (file : Option FileId := none) : Bool × Registries :=
  let (answers, fields) := (registries.fields scope).register owner name node file
  (answers, registries.withFields scope fields)

/-- Removes the registrations of a file and answers how many there were. -/
def removeFile (registries : Registries) (file : FileId) : Nat × Registries :=
  let (methodCount, methods) := registries.methods.removeFile file
  let (instanceCount, instanceFields) := registries.instanceFields.removeFile file
  let (typeCount, typeFields) := registries.typeFields.removeFile file
  (methodCount + instanceCount + typeCount, { methods, instanceFields, typeFields })

/-- Removes everything. -/
def clear (registries : Registries) : Registries :=
  { methods := registries.methods.clear
    instanceFields := registries.instanceFields.clear
    typeFields := registries.typeFields.clear }

end Registries

end HeuristicTyping
