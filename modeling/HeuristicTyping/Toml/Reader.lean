import HeuristicTyping.Toml.Basic
import HeuristicTyping.Toml.Quoted

/-!
# Reading TOML

`Toml.parse?` reads a document: comments, table and array headers, assignments with bare, quoted
and dotted keys, and values that are numbers, booleans, strings, dates and times, arrays and inline
tables. It answers `none` if the text is not well formed.
-/

set_option autoImplicit false

namespace HeuristicTyping

namespace Toml

/-- Arrays and inline tables nest less deep than this, and a key has fewer parts. -/
def maxNesting : Nat := 80

/-! ### Keys -/

/-- Whether a character may stand in a key without quotation marks. -/
def isKeyChar (char : Char) : Bool :=
  char.isAlphanum || char == '_' || char == '-'

/-- Whether a string starts here. -/
def startsString : List Char → Bool
  | '\x22' :: _ => true
  | '\x27' :: _ => true
  | _ => false

/-- Reads one part of a key. -/
def keyPart (chars : List Char) : Option (String × List Char) :=
  if startsString chars then lineString chars
  else
    match chars.takeWhile isKeyChar with
    | [] => none
    | name => some (String.ofList name, chars.dropWhile isKeyChar)

/-- Reads the parts of a key behind its first one. Each takes at least its dot off the text. -/
def keyParts : (bound : Nat) → (first : String) → Reader TomlKey
  | 0, _, _ => none
  | bound + 1, first, chars =>
      match skipBlanks chars with
      | '.' :: rest => do
          let (next, rest) ← keyPart (skipBlanks rest)
          let (key, rest) ← keyParts bound next rest
          return ({ key with path := first :: key.path }, rest)
      | rest => some ({ name := first }, rest)

/-- Reads a key with the blanks around it. -/
def key (chars : List Char) : Option (TomlKey × List Char) := do
  let (first, rest) ← keyPart (skipBlanks chars)
  let (key, rest) ← keyParts (chars.length + 1) first rest
  if key.parts.length < maxNesting then some (key, rest) else none

/-! ### Numbers, booleans, dates and times -/

/-- Whether a character may stand in a number or a boolean. -/
def isScalarChar (char : Char) : Bool :=
  char.isAlphanum || char == '_' || char == '+' || char == '-' || char == '.'

/-- The number or boolean that a text stands for. -/
def scalar? (text : List Char) : Option Toml :=
  if text = "true".toList then some (.boolean true)
  else if text = "false".toList then some (.boolean false)
  else
    match integer? text with
    | some value => some (.integer value)
    | none => if isFloat text then some (.float (String.ofList text)) else none

/-- Reads a value without parts that is no string. A number is looked for only where no date or
time starts, since both start with digits. -/
def scalar (chars : List Char) : Option (Toml × List Char) :=
  match dateOrTime chars with
  | some (read, rest) => some (.moment read, rest)
  | none =>
      (scalar? (chars.takeWhile isScalarChar)).map fun read =>
        (read, chars.dropWhile isScalarChar)

/-! ### Values -/

/-- Reads the items of an array and its closing bracket. An item takes at least one character. -/
def arrayItems (item : Reader Toml) : (bound : Nat) → Reader (List Toml)
  | 0, _ => none
  | bound + 1, chars =>
      match skipSpace chars with
      | ']' :: rest => some ([], rest)
      | ahead => do
          let (first, rest) ← item ahead
          match skipSpace rest with
          | ']' :: rest => return ([first], rest)
          | ',' :: rest =>
              let (others, rest) ← arrayItems item bound rest
              return (first :: others, rest)
          | _ => none

/-- Reads an assignment. -/
def assignment (value : Reader Toml) (chars : List Char) :
    Option ((TomlKey × Toml) × List Char) := do
  let (name, rest) ← key chars
  match rest with
  | '=' :: rest =>
      let (assigned, rest) ← value (skipBlanks rest)
      return ((name, assigned), rest)
  | _ => none

/-- Reads the assignments of an inline table, which has at least one, and its closing brace. -/
def inlineEntries (value : Reader Toml) : (bound : Nat) → Entries → Reader Entries
  | 0, _, _ => none
  | bound + 1, entries, chars => do
      let ((name, assigned), rest) ← assignment value chars
      let entries ← assign assigned name.path name.name entries
      match skipBlanks rest with
      | '\x7d' :: rest => return (entries, rest)
      | ',' :: rest => inlineEntries value bound entries rest
      | _ => none

/-- Reads a value that may nest arrays and inline tables up to a depth. -/
def value : (nesting : Nat) → Reader Toml
  | 0, '[' :: _ => none
  | 0, '\x7b' :: _ => none
  | nesting + 1, '[' :: rest =>
      (arrayItems (value nesting) (rest.length + 1) rest).map fun read => (.array read.1, read.2)
  | nesting + 1, '\x7b' :: rest =>
      match skipBlanks rest with
      | '\x7d' :: rest => some (.table .inlined [], rest)
      | ahead =>
          (inlineEntries (value nesting) (ahead.length + 1) [] ahead).map fun read =>
            (.table .inlined read.1, read.2)
  | _, chars =>
      if startsString chars then (quoted chars).map fun read => (.text read.1, read.2)
      else scalar chars

/-! ### Documents -/

/-- Reads what a line says, if it says something. -/
def line (chars : List Char) : Option (Option TomlLine × List Char) :=
  match skipBlanks chars with
  | '[' :: '[' :: rest => do
      match ← key rest with
      | (name, ']' :: ']' :: rest) => return (some (.arrayHeader name), rest)
      | _ => none
  | '[' :: rest => do
      match ← key rest with
      | (name, ']' :: rest) => return (some (.tableHeader name), rest)
      | _ => none
  | [] => some (none, [])
  | '#' :: rest => some (none, '#' :: rest)
  | '\n' :: rest => some (none, '\n' :: rest)
  | '\r' :: rest => some (none, '\r' :: rest)
  | ahead => do
      let ((name, assigned), rest) ← assignment (value (maxNesting - 1)) ahead
      return (some (.assignment name assigned), rest)

/-- Reads the lines of a document. Every line but the last takes at least its end off the text. -/
def lines? : (bound : Nat) → List Char → Option (List TomlLine)
  | _, [] => some []
  | 0, _ => none
  | bound + 1, chars => do
      let (said, rest) ← line chars
      let rest ← endOfLine? rest
      let others ← lines? bound rest
      return said.toList ++ others

/-- Leaves out a mark of the byte order at the start of a text. -/
def skipOrderMark : List Char → List Char
  | '\ufeff' :: rest => rest
  | chars => chars

/-- The root table of a document, if the text is well formed. -/
def parse? (text : String) : Option Entries := do
  let chars := skipOrderMark text.toList
  TomlDocument.ofLines? (← lines? (chars.length + 1) chars)

end Toml

end HeuristicTyping
