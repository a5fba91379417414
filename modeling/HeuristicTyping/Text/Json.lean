/-!
# JSON text

A small document type and its indented text: two blanks for each level, one element or field to a
line. Strings are written as they are but for the quotation mark, the backslash and control
characters.
-/

set_option autoImplicit false

namespace HeuristicTyping

namespace Text

/-- A JSON document. -/
inductive Json where
  | number (value : Nat)
  | text (value : String)
  | list (items : List Json)
  | record (fields : List (String × Json))

namespace Json

/-- The text of a digit of a hexadecimal number. -/
def hexDigit (value : Nat) : Char :=
  if value < 10 then Char.ofNat (48 + value) else Char.ofNat (87 + value)

/-- The text of a character inside a string. -/
def escapeChar (char : Char) : String :=
  if char = '\x22' then "\\\x22"
  else if char = '\x5c' then "\\\\"
  else if char = '\n' then "\\n"
  else if char = '\t' then "\\t"
  else if char = '\r' then "\\r"
  else if char = '\x08' then "\\b"
  else if char = '\x0c' then "\\f"
  else if char.toNat < 32 then
    "\\u00" ++ String.singleton (hexDigit (char.toNat / 16)) ++
      String.singleton (hexDigit (char.toNat % 16))
  else String.singleton char

/-- A string in quotation marks. -/
def quote (value : String) : String :=
  "\x22" ++ String.join (value.toList.map escapeChar) ++ "\x22"

/-- A new line that is indented by a number of levels. -/
def newLine (level : Nat) : String :=
  "\n" ++ String.join (List.replicate level "  ")

/-- Brackets around lines that are a level deeper. Nothing stands between them if there are no
lines. -/
def bracketed (opening closing : String) (level : Nat) (lines : List String) : String :=
  if lines.isEmpty then opening ++ closing
  else
    opening ++ newLine (level + 1) ++ ("," ++ newLine (level + 1)).intercalate lines ++
      newLine level ++ closing

mutual

/-- The text of a document at a level of indentation. -/
def pretty : (document : Json) → (level : Nat) → String
  | .number value, _ => toString value
  | .text value, _ => quote value
  | .list items, level => bracketed "[" "]" level (prettyItems items (level + 1))
  | .record fields, level => bracketed "\x7b" "\x7d" level (prettyFields fields (level + 1))
termination_by structural document => document

/-- The texts of the elements of a list. -/
def prettyItems : (items : List Json) → (level : Nat) → List String
  | [], _ => []
  | item :: items, level => item.pretty level :: prettyItems items level
termination_by structural items => items

/-- The texts of the fields of a record. -/
def prettyFields : (fields : List (String × Json)) → (level : Nat) → List String
  | [], _ => []
  | (key, value) :: fields, level =>
      (quote key ++ ": " ++ value.pretty level) :: prettyFields fields level
termination_by structural fields => fields

end

/-- The text of a document. -/
def render (document : Json) : String := document.pretty 0

end Json

end Text

end HeuristicTyping
