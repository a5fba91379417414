/-!
# Blanks, comments and ends of lines in TOML

A `Toml.Reader` takes the characters ahead and answers what it read with what is left, or `none`
if what it looks for is not there. What stands between the parts of a document carries no value
and is skipped: blanks within a line, and comments and ends of lines where several lines may
follow.
-/

set_option autoImplicit false

namespace HeuristicTyping

namespace Toml

/-- Reads something off the front of a text. -/
abbrev Reader (α : Type) := List Char → Option (α × List Char)

def isBlank (char : Char) : Bool := char == ' ' || char == '\t'

/-- Whether a character may stand in a comment or string: anything but a control character. -/
def isPrintable (char : Char) : Bool :=
  char == '\t' || (32 ≤ char.toNat && char.toNat != 127)

def skipBlanks (chars : List Char) : List Char := chars.dropWhile isBlank

/-- Skips a comment, if one starts here. -/
def skipComment : List Char → List Char
  | '#' :: rest => rest.dropWhile isPrintable
  | chars => chars

/-- Skips an end of line. -/
def lineBreak? : List Char → Option (List Char)
  | '\n' :: rest => some rest
  | '\r' :: '\n' :: rest => some rest
  | _ => none

/-- Skips blanks and a comment up to and over the end of the line or the text. -/
def endOfLine? (chars : List Char) : Option (List Char) :=
  match skipComment (skipBlanks chars) with
  | [] => some []
  | rest => lineBreak? rest

/-- Skips blanks, comments and ends of lines, from within a comment or not. -/
def skipLines : (commenting : Bool) → List Char → List Char
  | _, [] => []
  | _, '\n' :: rest => skipLines false rest
  | _, '\r' :: '\n' :: rest => skipLines false rest
  | true, char :: rest => if isPrintable char then skipLines true rest else char :: rest
  | false, char :: rest =>
      if isBlank char then skipLines false rest
      else if char = '#' then skipLines true rest
      else char :: rest

/-- Skips whatever may stand between the items of an array. -/
def skipSpace (chars : List Char) : List Char := skipLines false chars

/-- Skips a character that has to come next. -/
def expect? (char : Char) : List Char → Option (List Char)
  | next :: rest => if next = char then some rest else none
  | [] => none

end Toml

end HeuristicTyping
