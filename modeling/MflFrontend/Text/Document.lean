import MflFrontend.Token.Value

/-!
# Documents and their JSON text

A document is a value, a list of documents, or a record whose fields have an order. Its JSON text
has one item or field a line, two blanks of indentation for each level, and ASCII characters only;
an empty list or record is written as a bare pair of brackets. Infinite numbers are written by name,
which is an extension of JSON.
-/

namespace MflFrontend

/-- A tree of records and lists over values. -/
inductive Document where
  /-- A value. -/
  | value (v : Value)
  /-- A list. -/
  | list (items : List Document)
  /-- A record; the fields keep their order. -/
  | record (fields : List (String × Document))

/-- One sixteen-bit unit of text by its code. -/
def escapeUnit (n : Nat) : List Char := ['\\', 'u'] ++ hexDigits 4 n

/-- A character between the quotes of a JSON text. Characters beyond sixteen bits are written as two
units. -/
def jsonEscape (c : Char) : List Char :=
  if c = doubleQuote ∨ c = '\\' then ['\\', c]
  else if c = '\n' then ['\\', 'n']
  else if c = '\r' then ['\\', 'r']
  else if c = '\t' then ['\\', 't']
  else if c = '\x08' then ['\\', 'b']
  else if c = '\x0c' then ['\\', 'f']
  else if 0x20 ≤ c.toNat ∧ c.toNat < 0x7f then [c]
  else if c.toNat < 0x10000 then escapeUnit c.toNat
  else
    let n := c.toNat - 0x10000
    escapeUnit (0xd800 + n / 0x400) ++ escapeUnit (0xdc00 + n % 0x400)

/-- A text as a JSON string. -/
def jsonString (s : String) : List Char :=
  doubleQuote :: s.toList.flatMap jsonEscape ++ [doubleQuote]

/-- A double as a JSON number, an infinite one by name. -/
def jsonNumber (d : Double) : List Char :=
  if d.isInfinite then
    (if d.negative then ['-'] else []) ++ ['I', 'n', 'f', 'i', 'n', 'i', 't', 'y']
  else d.text.toList

/-- The JSON text of a value. -/
def Value.json : Value → List Char
  | none => ['n', 'u', 'l', 'l']
  | bool true => ['t', 'r', 'u', 'e']
  | bool false => ['f', 'a', 'l', 's', 'e']
  | int n => integerDigits n
  | real d => jsonNumber d
  | text s => jsonString s

namespace Document

/-- A line break and the indentation of a level. -/
def newLine (level : Nat) : List Char := '\n' :: List.replicate (2 * level) ' '

mutual

/-- The JSON text of a document that stands on the given level, in front of `rest`. -/
def jsonBefore (level : Nat) (rest : List Char) : Document → List Char
  | value v => v.json ++ rest
  | list [] => '[' :: ']' :: rest
  | list (item :: items) =>
    '[' :: newLine (level + 1) ++ item.jsonBefore (level + 1) (itemsBefore level rest items)
  | record [] => '\x7b' :: '\x7d' :: rest
  | record ((name, item) :: fields) =>
    '\x7b' :: newLine (level + 1) ++ jsonString name ++ ':' :: ' ' ::
      item.jsonBefore (level + 1) (fieldsBefore level rest fields)

/-- The items behind the first one and the closing bracket, in front of `rest`. -/
def itemsBefore (level : Nat) (rest : List Char) : List Document → List Char
  | [] => newLine level ++ ']' :: rest
  | item :: items =>
    ',' :: newLine (level + 1) ++ item.jsonBefore (level + 1) (itemsBefore level rest items)

/-- The fields behind the first one and the closing brace, in front of `rest`. -/
def fieldsBefore (level : Nat) (rest : List Char) : List (String × Document) → List Char
  | [] => newLine level ++ '\x7d' :: rest
  | (name, item) :: fields =>
    ',' :: newLine (level + 1) ++ jsonString name ++ ':' :: ' ' ::
      item.jsonBefore (level + 1) (fieldsBefore level rest fields)

end

/-- The JSON text of a document. -/
def json (d : Document) : String := String.ofList (d.jsonBefore 0 [])

end Document

end MflFrontend
