import HeuristicTyping.TypeIndex.Basic

/-!
# An index that is written out

An `IndexListing` states the answers of an index one by one. A later line replaces an earlier one
about the same thing.
-/

set_option autoImplicit false

namespace HeuristicTyping

/-- The answers of an index, written out. -/
structure IndexListing where
  ancestors : List (String × List String) := []
  kinds : List (String × ConstantKind) := []
  owners : List ((String × String) × String) := []
  /-- The types that are said to have any methods that are asked for. -/
  types : List String := []
deriving DecidableEq, Repr, Inhabited

/-- The listing as an index. -/
def IndexListing.index (listing : IndexListing) : TypeIndex where
  ancestors name := (listing.ancestors.reverse.lookup name).getD []
  constantKind? name := listing.kinds.reverse.lookup name
  typeMethodOwner? name method := listing.owners.reverse.lookup (name, method)
  typesDefining _ := listing.types

end HeuristicTyping
