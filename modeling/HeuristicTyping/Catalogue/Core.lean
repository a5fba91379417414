import HeuristicTyping.Catalogue.Basic

/-!
# The core catalogue

The most common methods of the types that the language itself provides. Containers speak of their
contents through the variables `Elem`, `K` and `V`, and of the result of a block through `U`.
-/

set_option autoImplicit false

namespace HeuristicTyping

namespace CoreCatalogue

/-! ### Signatures -/

/-- A method without parameters. -/
def noArguments (result : Ty) : MethodSig where
  params := []
  result := result

/-- A method with one required parameter. -/
def oneArgument (argument result : Ty) : MethodSig where
  params := [{ name := "arg", kind := .required, type := argument }]
  result := result

/-- A method with two required parameters. -/
def twoArguments (first second result : Ty) : MethodSig where
  params :=
    [{ name := "a", kind := .required, type := first },
      { name := "b", kind := .required, type := second }]
  result := result

/-- A method with one optional parameter. -/
def optionalArgument (argument result : Ty) : MethodSig where
  params := [{ name := "arg", kind := .optional, type := argument }]
  result := result

/-- A method that takes any number of arguments. -/
def anyArguments (argument result : Ty) : MethodSig where
  params := [{ name := "args", kind := .rest, type := argument }]
  result := result

def element : Ty := .var TypeVar.element
def key : Ty := .var TypeVar.key
def value : Ty := .var TypeVar.value
def blockResult : Ty := .var TypeVar.blockResult

/-- A sequence of the receiver's elements. -/
def elements : Ty := .array element
/-- A mapping like the receiver. -/
def mapping : Ty := .hash key value
/-- An entry of the receiver. -/
def pair : Ty := .tupleOf [key, value]

/-- The same signature under several names. -/
def all (names : List String) (signature : MethodSig) : List (String × MethodSig) :=
  names.map fun name => (name, signature)

/-- The same block template under several names. -/
def yielding (names : List String) (types : List Ty) : List (String × List Ty) :=
  names.map fun name => (name, types)

/-- The lines for the methods of one owner. -/
def ofOwner (owner : String) (methods : List (String × MethodSig))
    (blockParams : List (String × List Ty) := []) : List CatalogueDef :=
  methods.map (fun entry => .method owner entry.1 entry.2) ++
    blockParams.map fun entry => .blockParams owner entry.1 entry.2

/-! ### Objects -/

/-- Methods that every object has. -/
def objectMethods : List (String × MethodSig) :=
  [("to_s", noArguments .string),
    ("inspect", noArguments .string),
    ("nil?", noArguments .bool),
    ("frozen?", noArguments .bool),
    ("is_a?", oneArgument .unknown .bool),
    ("respond_to?", oneArgument .symbol .bool),
    ("==", oneArgument .unknown .bool),
    ("!=", oneArgument .unknown .bool),
    ("!", noArguments .bool),
    ("hash", noArguments .integer),
    ("object_id", noArguments .integer),
    ("dup", noArguments .self),
    ("clone", noArguments .self),
    ("freeze", noArguments .self),
    ("tap", noArguments .self),
    ("then", noArguments blockResult)]

/-- Functions that can be called anywhere, because every object has them. -/
def kernelFunctions : List (String × MethodSig) :=
  [("puts", anyArguments .unknown .nil),
    ("print", anyArguments .unknown .nil),
    ("p", anyArguments .unknown .unknown),
    ("require", oneArgument .string .bool),
    ("require_relative", oneArgument .string .bool),
    ("format",
      { params :=
          [{ name := "fmt", kind := .required, type := .string },
            { name := "args", kind := .rest, type := .unknown }]
        result := .string }),
    ("rand", noArguments .float),
    ("rand", oneArgument .integer .integer),
    ("gets", noArguments (.optional .string)),
    ("sleep", optionalArgument .unknown .integer),
    ("lambda", noArguments .proc),
    ("proc", noArguments .proc),
    ("Integer", oneArgument .unknown .integer),
    ("Float", oneArgument .unknown .float),
    ("String", oneArgument .unknown .string),
    ("Array", oneArgument .unknown (.array .unknown))]

def objects : List CatalogueDef :=
  ofOwner TypeName.object (objectMethods ++ kernelFunctions) (yielding ["tap", "then"] [.self])

/-! ### Numbers -/

/-- An operator on integers gives an integer, or a float if the other operand is one. -/
def integerOperator (name : String) : List (String × MethodSig) :=
  [(name, oneArgument .integer .integer), (name, oneArgument .float .float)]

def integers : List CatalogueDef :=
  ofOwner TypeName.integer
    (["+", "-", "*", "/", "%", "**"].flatMap integerOperator ++
      [("to_s", optionalArgument .integer .string),
        ("to_i", noArguments .integer),
        ("to_f", noArguments .float),
        ("succ", noArguments .integer),
        ("abs", noArguments .integer),
        ("zero?", noArguments .bool),
        ("even?", noArguments .bool),
        ("odd?", noArguments .bool),
        ("times", noArguments .integer),
        ("upto", oneArgument .integer .integer)])
    (yielding ["times", "upto"] [.integer])

def floats : List CatalogueDef :=
  ofOwner TypeName.float
    (all ["+", "-", "*", "/"] (oneArgument .unknown .float) ++
      [("round", noArguments .integer),
        ("round", oneArgument .integer .float),
        ("floor", noArguments .integer),
        ("ceil", noArguments .integer),
        ("to_i", noArguments .integer),
        ("to_f", noArguments .float)])

def numbers : List CatalogueDef :=
  ofOwner TypeName.numeric (all ["<", ">", "<=", ">="] (oneArgument .unknown .bool)) ++
    integers ++ floats

/-! ### Text -/

def strings : List CatalogueDef :=
  ofOwner TypeName.string
    ([("+", oneArgument .string .string),
        ("*", oneArgument .integer .string),
        ("<<", oneArgument .unknown .string)] ++
      all ["upcase", "downcase", "capitalize", "strip", "chomp", "reverse", "squeeze"]
        (noArguments .string) ++
      [("length", noArguments .integer),
        ("size", noArguments .integer),
        ("to_i", noArguments .integer),
        ("to_f", noArguments .float),
        ("to_s", noArguments .string),
        ("to_sym", noArguments .symbol),
        ("empty?", noArguments .bool),
        ("include?", oneArgument .string .bool),
        ("start_with?", anyArguments .string .bool),
        ("end_with?", anyArguments .string .bool),
        ("split", optionalArgument .unknown (.array .string)),
        ("chars", noArguments (.array .string)),
        ("lines", noArguments (.array .string)),
        ("[]", oneArgument .unknown (.optional .string)),
        ("gsub", twoArguments .unknown .string .string),
        ("sub", twoArguments .unknown .string .string),
        ("each_char", noArguments .self)])
    (yielding ["each_char"] [.string])

def symbols : List CatalogueDef :=
  ofOwner TypeName.symbol
    [("to_s", noArguments .string),
      ("to_sym", noArguments .symbol),
      ("to_proc", noArguments .proc),
      ("length", noArguments .integer)]

/-! ### Containers -/

/-- Methods of arrays that call their block with elements. -/
def arrayIterators : List (String × MethodSig) :=
  all ["each", "each_with_index"] (noArguments .self) ++
    all ["map", "collect", "flat_map"] (noArguments (.array blockResult)) ++
    all ["select", "filter", "reject", "sort_by"] (noArguments elements) ++
    all ["find", "detect"] (noArguments (.optional element)) ++
    all ["any?", "all?", "none?"] (noArguments .bool) ++
    [("group_by", noArguments (.hash blockResult elements)),
      ("partition", noArguments (.tupleOf [elements, elements])),
      ("each_slice", oneArgument .integer .nil)]

def arrayBlocks : List (String × List Ty) :=
  yielding
      ["each", "map", "collect", "flat_map", "select", "filter", "reject", "sort_by", "find",
        "detect", "any?", "all?", "none?", "group_by", "partition"]
      [element] ++
    [("each_with_index", [element, .integer]), ("each_slice", [elements])]

/-- Methods of arrays that take no block. -/
def arrayMethods : List (String × MethodSig) :=
  all ["first", "last", "pop", "shift", "min", "max", "sample"]
      (noArguments (.optional element)) ++
    [("first", oneArgument .integer elements),
      ("last", oneArgument .integer elements),
      ("[]", oneArgument .integer (.optional element)),
      ("[]", twoArguments .integer .integer (.optional elements)),
      ("fetch", oneArgument .integer element),
      ("<<", oneArgument element .self),
      ("push", anyArguments element .self)] ++
    all ["size", "length", "count"] (noArguments .integer) ++
    [("empty?", noArguments .bool),
      ("include?", oneArgument element .bool),
      ("join", optionalArgument .string .string)] ++
    all ["sort", "reverse", "uniq", "compact", "to_a", "shuffle"] (noArguments elements) ++
    [("flatten", noArguments (.array .unknown)),
      ("sum", noArguments element),
      ("zip", anyArguments .unknown (.array (.array .unknown))),
      ("to_h", noArguments (.hash .unknown .unknown))]

def arrays : List CatalogueDef :=
  [.typeMethod TypeName.array "new" (noArguments (.array .unknown)),
    .typeMethod TypeName.array "new" (twoArguments .integer .unknown (.array .unknown))] ++
    ofOwner TypeName.array (arrayIterators ++ arrayMethods) arrayBlocks

/-- Methods of hashes that take no block. -/
def hashMethods : List (String × MethodSig) :=
  [("[]", oneArgument key (.optional value)),
      ("[]=", twoArguments key value value),
      ("fetch", oneArgument key value),
      ("fetch", twoArguments key value value),
      ("delete", oneArgument key (.optional value)),
      ("dig", anyArguments .unknown .unknown),
      ("keys", noArguments (.array key)),
      ("values", noArguments (.array value))] ++
    all ["key?", "has_key?", "include?", "member?"] (oneArgument key .bool) ++
    all ["size", "length", "count"] (noArguments .integer) ++
    [("empty?", noArguments .bool),
      ("merge", anyArguments mapping mapping),
      ("to_h", noArguments mapping),
      ("to_a", noArguments (.array pair))]

/-- Methods of hashes that call their block with entries. -/
def hashIterators : List (String × MethodSig) :=
  all ["each", "each_pair"] (noArguments .self) ++
    [("map", noArguments (.array blockResult))] ++
    all ["select", "filter", "reject"] (noArguments mapping) ++
    [("any?", noArguments .bool),
      ("sort_by", noArguments (.array pair)),
      ("transform_values", noArguments (.hash key blockResult)),
      ("transform_keys", noArguments (.hash blockResult value))]

def hashBlocks : List (String × List Ty) :=
  yielding ["each", "each_pair", "map", "select", "filter", "reject", "any?", "sort_by"]
      [key, value] ++
    [("transform_values", [value]), ("transform_keys", [key])]

def hashes : List CatalogueDef :=
  .typeMethod TypeName.hash "new" (optionalArgument .unknown (.hash .unknown .unknown)) ::
    ofOwner TypeName.hash (hashMethods ++ hashIterators) hashBlocks

def ranges : List CatalogueDef :=
  ofOwner TypeName.range
    [("each", noArguments .self),
      ("step", oneArgument .unknown .self),
      ("map", noArguments (.array blockResult)),
      ("select", noArguments elements),
      ("to_a", noArguments elements),
      ("first", noArguments element),
      ("last", noArguments element),
      ("min", noArguments (.optional element)),
      ("max", noArguments (.optional element)),
      ("sum", noArguments element),
      ("size", noArguments .integer),
      ("include?", oneArgument .unknown .bool)]
    (yielding ["each", "step", "map", "select"] [element])

/-! ### The rest -/

def callables : List CatalogueDef :=
  ofOwner TypeName.proc
    [("call", anyArguments .unknown .unknown), ("arity", noArguments .integer)]

def nils : List CatalogueDef :=
  ofOwner TypeName.nil
    [("to_a", noArguments (.array .unknown)), ("to_s", noArguments .string)]

/-- Every type falls back on `Object`, the numbers by way of `Numeric`. -/
def parents : List CatalogueDef :=
  [TypeName.nil, TypeName.trueClass, TypeName.falseClass, TypeName.numeric, TypeName.string,
      TypeName.symbol, TypeName.array, TypeName.hash, TypeName.range, TypeName.proc].map
    (fun name => .parent name TypeName.object) ++
    [.parent TypeName.integer TypeName.numeric, .parent TypeName.float TypeName.numeric]

end CoreCatalogue

/-- The catalogue of the types that the language itself provides. -/
def Catalogue.core : Catalogue :=
  .ofDefs
    (CoreCatalogue.parents ++ CoreCatalogue.objects ++ CoreCatalogue.numbers ++
      CoreCatalogue.strings ++ CoreCatalogue.symbols ++ CoreCatalogue.arrays ++
      CoreCatalogue.hashes ++ CoreCatalogue.ranges ++ CoreCatalogue.callables ++
      CoreCatalogue.nils)

end HeuristicTyping
