import HeuristicTyping.Source.FileTable

/-!
# Source locations

A `Span` is a range of offsets in a text, and a `Location` a span of a file.
-/

set_option autoImplicit false

namespace HeuristicTyping

/-- A range of offsets. -/
structure Span where
  start : Nat
  stop : Nat
  /-- A range does not end before it starts. -/
  ordered : start ≤ stop
deriving DecidableEq, Repr

namespace Span

/-- The span between two offsets, if they are in order. -/
def between? (start stop : Nat) : Option Span :=
  if ordered : start ≤ stop then some { start, stop, ordered } else none

def length (span : Span) : Nat := span.stop - span.start

/-- Whether an offset is in the span or right behind it, where a cursor stands after a word. -/
def covers (span : Span) (offset : Nat) : Bool :=
  span.start ≤ offset && offset ≤ span.stop

theorem between?_eq_none_iff (start stop : Nat) :
    between? start stop = none ↔ stop < start := by
  simp [between?]

end Span

/-- A span of a file. -/
structure Location where
  file : FileId
  span : Span
deriving DecidableEq, Repr

/-- Whether a cursor at an offset of a file touches the location. -/
def Location.covers (location : Location) (file : FileId) (offset : Nat) : Bool :=
  location.file == file && location.span.covers offset

end HeuristicTyping
