import HeuristicTyping.Toml.Blank
import HeuristicTyping.Toml.Number

/-!
# Strings in TOML

A string stands between quotation marks, with escapes, or between apostrophes, without. Between
three marks it may go over several lines: an end of line right behind the opening marks does not
belong to it, any other counts as a single newline, and up to two marks in front of the closing
ones belong to it.
-/

set_option autoImplicit false

namespace HeuristicTyping

namespace Toml

/-! ### Escapes -/

/-- The character with a code point, if there is one. -/
def codePoint? (digits : List Char) : Option Char :=
  let value := digitsValue 16 digits
  if digits.all (isDigitIn 16) ∧ value.isValidChar then some (Char.ofNat value) else none

/-- The character that a letter after a backslash stands for. -/
def escape? : Char → Option Char
  | 'b' => some '\x08'
  | 't' => some '\t'
  | 'n' => some '\n'
  | 'f' => some '\x0c'
  | 'r' => some '\r'
  | '\x22' => some '\x22'
  | '\x5c' => some '\x5c'
  | _ => none

/-- Puts a character in front of what was read. -/
def prepend (char : Char) (read : List Char × List Char) : List Char × List Char :=
  (char :: read.1, read.2)

/-! ### Strings on one line -/

/-- Reads the rest of a string with escapes, behind its opening quotation mark. -/
def basicString : Reader (List Char)
  | [] => none
  | '\x22' :: rest => some ([], rest)
  | '\x5c' :: 'u' :: a :: b :: c :: d :: rest => do
      let char ← codePoint? [a, b, c, d]
      return prepend char (← basicString rest)
  | '\x5c' :: 'U' :: a :: b :: c :: d :: e :: f :: g :: h :: rest => do
      let char ← codePoint? [a, b, c, d, e, f, g, h]
      return prepend char (← basicString rest)
  | '\x5c' :: letter :: rest => do
      let char ← escape? letter
      return prepend char (← basicString rest)
  | char :: rest => do
      if isPrintable char then return prepend char (← basicString rest) else none

/-- Reads the rest of a string without escapes, behind its opening apostrophe. -/
def literalString : Reader (List Char)
  | [] => none
  | '\x27' :: rest => some ([], rest)
  | char :: rest => do
      if isPrintable char then return prepend char (← literalString rest) else none

/-! ### Strings over several lines -/

/-- Skips an end of line, if there is one. -/
def skipLineBreak (chars : List Char) : List Char := (lineBreak? chars).getD chars

/-- The marks behind the first three closing ones that still belong to the string, with what is
left. -/
def closingMarks (mark : Char) (chars : List Char) : List Char × List Char :=
  let marks := (chars.takeWhile (· == mark)).take 2
  (marks, chars.drop marks.length)

/-- Whether only blanks stand before the end of the line. -/
def endsLine (chars : List Char) : Bool := (lineBreak? (skipBlanks chars)).isSome

/-- Puts a blank or newline in front of what was read, unless it is to be left out. -/
def prependUnless (trimming : Bool) (char : Char) (read : List Char × List Char) :
    List Char × List Char :=
  if trimming then read else prepend char read

/-- Reads the rest of a string with escapes that may go over several lines. Behind a backslash at
the end of a line, blanks and ends of lines are left out up to the next other character. -/
def basicLines : (trimming : Bool) → Reader (List Char)
  | _, [] => none
  | _, '\x22' :: '\x22' :: '\x22' :: rest => some (closingMarks '\x22' rest)
  | _, '\x5c' :: 'u' :: a :: b :: c :: d :: rest => do
      let char ← codePoint? [a, b, c, d]
      return prepend char (← basicLines false rest)
  | _, '\x5c' :: 'U' :: a :: b :: c :: d :: e :: f :: g :: h :: rest => do
      let char ← codePoint? [a, b, c, d, e, f, g, h]
      return prepend char (← basicLines false rest)
  | _, '\x5c' :: letter :: rest =>
      if endsLine (letter :: rest) then basicLines true rest
      else do
        let char ← escape? letter
        return prepend char (← basicLines false rest)
  | trimming, '\r' :: '\n' :: rest => do
      return prependUnless trimming '\n' (← basicLines trimming rest)
  | trimming, char :: rest =>
      if char == '\n' || isBlank char then do
        return prependUnless trimming char (← basicLines trimming rest)
      else if isPrintable char then do
        return prepend char (← basicLines false rest)
      else none

/-- Reads the rest of a string without escapes that may go over several lines. -/
def literalLines : Reader (List Char)
  | [] => none
  | '\x27' :: '\x27' :: '\x27' :: rest => some (closingMarks '\x27' rest)
  | '\r' :: '\n' :: rest => do return prepend '\n' (← literalLines rest)
  | char :: rest => do
      if char == '\n' || isPrintable char then return prepend char (← literalLines rest) else none

/-! ### Strings of either kind -/

/-- Reads a string on one line, as it may also stand for a part of a key. -/
def lineString : Reader String
  | '\x22' :: rest => (basicString rest).map fun read => (String.ofList read.1, read.2)
  | '\x27' :: rest => (literalString rest).map fun read => (String.ofList read.1, read.2)
  | _ => none

/-- Reads a string. -/
def quoted : Reader String
  | '\x22' :: '\x22' :: '\x22' :: rest =>
      (basicLines false (skipLineBreak rest)).map fun read => (String.ofList read.1, read.2)
  | '\x27' :: '\x27' :: '\x27' :: rest =>
      (literalLines (skipLineBreak rest)).map fun read => (String.ofList read.1, read.2)
  | chars => lineString chars

end Toml

end HeuristicTyping
