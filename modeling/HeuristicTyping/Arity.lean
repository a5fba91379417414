/-!
# Parameter kinds and arities

A method lists its parameters in order, and each has a kind that says how it receives an argument.
Only positional kinds bear on how many arguments a call may pass; `Arity` is that part of a
parameter list, and `Arity.accepts` decides whether a call with a given count fits.
-/

set_option autoImplicit false

namespace HeuristicTyping

/-- How a parameter receives its argument. -/
inductive ParamKind where
  | required
  | optional
  | rest
  | keyword
  | keywordRest
  | block
  | forwarding
deriving DecidableEq, Repr, Inhabited

namespace ParamKind

/-- Rest and forwarding parameters take any number of further positional arguments. -/
def isOpenEnded : ParamKind → Bool
  | .rest | .forwarding => true
  | _ => false

/-- A positional parameter takes exactly one argument, by its place. -/
def isPositional : ParamKind → Bool
  | .required | .optional => true
  | _ => false

end ParamKind

/-- The positional argument counts that a method takes. -/
structure Arity where
  required : Nat := 0
  optional : Nat := 0
  /-- Whether any number of arguments may follow. -/
  openEnded : Bool := false
deriving DecidableEq, Repr, Inhabited

namespace Arity

/-- The arity of a parameter list with the given kinds. Keyword and block parameters take no
positional argument, so they leave it alone. -/
def ofKinds (kinds : List ParamKind) : Arity where
  required := kinds.count .required
  optional := kinds.count .optional
  openEnded := kinds.any ParamKind.isOpenEnded

/-- Whether a call with `count` positional arguments fits. -/
def accepts (arity : Arity) (count : Nat) : Bool :=
  arity.required ≤ count && (arity.openEnded || count ≤ arity.required + arity.optional)

theorem accepts_iff (arity : Arity) (count : Nat) :
    arity.accepts count = true ↔
      arity.required ≤ count ∧
        (arity.openEnded = true ∨ count ≤ arity.required + arity.optional) := by
  simp [accepts]

/-- The order of the parameters does not bear on the arity. -/
theorem ofKinds_perm {kinds others : List ParamKind} (reordered : kinds.Perm others) :
    ofKinds kinds = ofKinds others := by
  simp only [ofKinds, reordered.count_eq, reordered.any_eq]

end Arity

end HeuristicTyping
