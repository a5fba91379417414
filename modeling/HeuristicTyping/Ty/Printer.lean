import HeuristicTyping.Ty.Basic

/-!
# The text of a type

`Ty.render` writes a type the way signatures of the language are written: `Integer?` for an
optional type, `bool` for the union of the two truth values, `(Integer n) -> String` for a
callable.
-/

set_option autoImplicit false

namespace HeuristicTyping

/-- A name of a type as it is written: the types with a single value go by that value. -/
def TypeName.render (name : String) : String :=
  if name = TypeName.nil then "nil"
  else if name = TypeName.trueClass then "true"
  else if name = TypeName.falseClass then "false"
  else name

/-- The text of a parameter, given the text of its type. -/
def ParamKind.render (kind : ParamKind) (name type : String) : String :=
  match kind with
  | .required => type ++ " " ++ name
  | .optional => "?" ++ type ++ " " ++ name
  | .rest => "*" ++ type ++ " " ++ name
  | .keyword => name ++ ": " ++ type
  | .keywordRest => "**" ++ type ++ " " ++ name
  | .block => "&" ++ type ++ " " ++ name
  | .forwarding => "..."

namespace Ty

/-- Whether the type is the instance of exactly this name. -/
def isInstanceOf (name : String) : Ty → Bool
  | .instanceOf other => other == name
  | _ => false

/-- Whether the type is a callable. -/
def isMethod : Ty → Bool
  | .method _ _ => true
  | _ => false

/-- The text of an optional type. A callable goes in parentheses, for its text ends in its
result, to which the mark would seem to belong. -/
def renderOptional (inner : Ty) (text : String) : String :=
  if inner.isMethod then "(" ++ text ++ ")?" else text ++ "?"

/-- The text of a union, given the texts of its members. -/
def renderUnion (members : List Ty) (texts : List String) : String :=
  match members, texts with
  | [first, second], [firstText, secondText] =>
      if first.isInstanceOf TypeName.trueClass && second.isInstanceOf TypeName.falseClass ||
          first.isInstanceOf TypeName.falseClass && second.isInstanceOf TypeName.trueClass then
        "bool"
      else if second.isNil then renderOptional first firstText
      else if first.isNil then renderOptional second secondText
      else firstText ++ " | " ++ secondText
  | _, _ => " | ".intercalate texts

/-- The text of a shape, given the texts of its fields. -/
def renderShape (texts : List String) : String :=
  if texts.isEmpty then "\x7b\x7d" else "\x7b " ++ ", ".intercalate texts ++ " \x7d"

/-- The text of a signature, given the texts of its parts. -/
def renderSignature (params : List String) (result : String) : String :=
  "(" ++ ", ".intercalate params ++ ") -> " ++ result

mutual

/-- The text of a type. -/
def render : Ty → String
  | .unknown => "untyped"
  | .unguessed => "unguessed"
  | .instanceOf name => TypeName.render name
  | .singleton name => "singleton(" ++ name ++ ")"
  | .union members => renderUnion members (renderAll members)
  | .array element => "Array[" ++ render element ++ "]"
  | .tuple elements => "[" ++ ", ".intercalate (renderAll elements) ++ "]"
  | .hash key value => "Hash[" ++ render key ++ ", " ++ render value ++ "]"
  | .shape fields => renderShape (renderFields fields)
  | .range element => "Range[" ++ render element ++ "]"
  | .var name => name
  | .self => "self"
  | .forwarded => "..."
  | .method params result => renderSignature (renderParams params) (render result)
termination_by structural type => type

/-- The texts of several types. -/
def renderAll : List Ty → List String
  | [] => []
  | type :: types => render type :: renderAll types
termination_by structural types => types

/-- The texts of the fields of a shape. -/
def renderFields : List (String × Ty) → List String
  | [] => []
  | (key, type) :: fields => (key ++ ": " ++ render type) :: renderFields fields
termination_by structural fields => fields

/-- The texts of the parameters of a signature. -/
def renderParams : List (ParamOf Ty) → List String
  | [] => []
  | param :: params => param.kind.render param.name (render param.type) :: renderParams params
termination_by structural params => params

end

end Ty

/-- The text of a signature. -/
def MethodSig.render (signature : MethodSig) : String :=
  Ty.renderSignature (Ty.renderParams signature.params) signature.result.render

end HeuristicTyping
