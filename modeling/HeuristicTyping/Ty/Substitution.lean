import HeuristicTyping.Ty.Basic

/-!
# Substitution

Signatures speak of type variables and of the receiver of the call. A `Binding` gives types for
some of these placeholders; `Ty.substitute` puts them in place. Whatever contains a replaced
placeholder is built anew in normal form, and the rest is kept as it is, so `Ty.replace?` answers
`none` when there was nothing to replace.
-/

set_option autoImplicit false

namespace HeuristicTyping

/-- What substitution can replace. -/
inductive Placeholder where
  | var (name : String)
  | self
deriving DecidableEq, Repr

/-- Types for type variables and for the receiver. -/
structure Binding where
  vars : List (String × Ty) := []
  self : Option Ty := none
deriving Inhabited

namespace Binding

/-- Binds a variable. An older binding of it is forgotten. -/
def bind (binding : Binding) (name : String) (type : Ty) : Binding :=
  { binding with vars := (name, type) :: binding.vars.filter (fun entry => entry.1 != name) }

/-- Binds the receiver. -/
def bindSelf (binding : Binding) (type : Ty) : Binding :=
  { binding with self := some type }

/-- The type bound to a variable. -/
def var? (binding : Binding) (name : String) : Option Ty :=
  binding.vars.lookup name

/-- The type bound to a placeholder. -/
def get? (binding : Binding) : Placeholder → Option Ty
  | .var name => binding.var? name
  | .self => binding.self

/-- Whether nothing is bound. -/
def isEmpty (binding : Binding) : Bool :=
  binding.vars.isEmpty && binding.self.isNone

end Binding

/-- Pairs two possibly changed parts, and answers `none` if neither changed. -/
def changedPair? {α β : Type} (first : α) (second : β) :
    Option α → Option β → Option (α × β)
  | none, none => none
  | changedFirst, changedSecond => some (changedFirst.getD first, changedSecond.getD second)

namespace Ty

mutual

/-- Replaces the placeholders to which `assign` gives a type, and answers `none` if there is none
such. Only what contains a replaced placeholder is built anew. -/
def replace? (assign : Placeholder → Option Ty) : Ty → Option Ty
  | .var name => assign (.var name)
  | .self => assign .self
  | .array element => (replace? assign element).map .array
  | .range element => (replace? assign element).map .range
  | .hash key value =>
      (changedPair? key value (replace? assign key) (replace? assign value)).map
        fun changed => .hash changed.1 changed.2
  | .tuple elements => (replaceAll? assign elements).map tupleOf
  | .union members => (replaceAll? assign members).map join
  | .shape fields => (replaceFields? assign fields).map shapeOf
  | .method params result =>
      (changedPair? params result (replaceParams? assign params) (replace? assign result)).map
        fun changed => .method changed.1 changed.2
  | _ => none
termination_by structural type => type

/-- Replaces placeholders in each type of a list. -/
def replaceAll? (assign : Placeholder → Option Ty) : List Ty → Option (List Ty)
  | [] => none
  | type :: types =>
      (changedPair? type types (replace? assign type) (replaceAll? assign types)).map
        fun changed => changed.1 :: changed.2
termination_by structural types => types

/-- Replaces placeholders in the type of each field. -/
def replaceFields? (assign : Placeholder → Option Ty) :
    List (String × Ty) → Option (List (String × Ty))
  | [] => none
  | (key, type) :: fields =>
      (changedPair? type fields (replace? assign type) (replaceFields? assign fields)).map
        fun changed => (key, changed.1) :: changed.2
termination_by structural fields => fields

/-- Replaces placeholders in the type of each parameter. -/
def replaceParams? (assign : Placeholder → Option Ty) :
    List (ParamOf Ty) → Option (List (ParamOf Ty))
  | [] => none
  | param :: params =>
      (changedPair? param.type params (replace? assign param.type)
          (replaceParams? assign params)).map
        fun changed => { param with type := changed.1 } :: changed.2
termination_by structural params => params

end

/-- The type with every bound placeholder replaced, or `none` if it has none. -/
def substitute? (type : Ty) (binding : Binding) : Option Ty :=
  type.replace? binding.get?

/-- The type with every bound placeholder replaced. -/
def substitute (type : Ty) (binding : Binding) : Ty :=
  (type.substitute? binding).getD type

/-- The type with every placeholder replaced by `unknown`, or `none` if it has none. -/
def erase? (type : Ty) : Option Ty :=
  type.replace? fun _ => some .unknown

/-- The type with every placeholder replaced by `unknown`. -/
def erase (type : Ty) : Ty :=
  type.erase?.getD type

mutual

/-- Whether a placeholder that satisfies `wanted` occurs. -/
def mentions (wanted : Placeholder → Bool) : Ty → Bool
  | .var name => wanted (.var name)
  | .self => wanted .self
  | .array element => mentions wanted element
  | .range element => mentions wanted element
  | .hash key value => mentions wanted key || mentions wanted value
  | .tuple elements => anyMentions wanted elements
  | .union members => anyMentions wanted members
  | .shape fields => fieldsMention wanted fields
  | .method params result => paramsMention wanted params || mentions wanted result
  | _ => false
termination_by structural type => type

/-- Whether a wanted placeholder occurs in one of the types. -/
def anyMentions (wanted : Placeholder → Bool) : List Ty → Bool
  | [] => false
  | type :: types => mentions wanted type || anyMentions wanted types
termination_by structural types => types

/-- Whether a wanted placeholder occurs in the type of a field. -/
def fieldsMention (wanted : Placeholder → Bool) : List (String × Ty) → Bool
  | [] => false
  | (_, type) :: fields => mentions wanted type || fieldsMention wanted fields
termination_by structural fields => fields

/-- Whether a wanted placeholder occurs in the type of a parameter. -/
def paramsMention (wanted : Placeholder → Bool) : List (ParamOf Ty) → Bool
  | [] => false
  | param :: params => mentions wanted param.type || paramsMention wanted params
termination_by structural params => params

end

/-- Whether a type variable or the receiver occurs. -/
def hasPlaceholders (type : Ty) : Bool :=
  type.mentions fun _ => true

/-- What a generic container binds in the signatures of its methods: the element of a sequence or
range, the key and the value of a mapping. -/
def containerBinding : Ty → Binding
  | .array element | .range element => Binding.bind {} TypeVar.element element
  | .tuple elements => Binding.bind {} TypeVar.element (join elements)
  | .hash key value => (Binding.bind {} TypeVar.key key).bind TypeVar.value value
  | .shape fields =>
      (Binding.bind {} TypeVar.key symbol).bind TypeVar.value (join (fields.map Prod.snd))
  | _ => {}

end Ty

/-- The binding for a call on `receiver`: its container variables and the receiver itself. -/
def Binding.forReceiver (receiver : Ty) : Binding :=
  receiver.containerBinding.bindSelf receiver

end HeuristicTyping
