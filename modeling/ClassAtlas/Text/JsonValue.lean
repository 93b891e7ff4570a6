import ClassAtlas.Text.Hex

/-!
# JSON documents

What commands print for other programs to read. The fields of an object come in the order in which
they are given.

## Main definitions

* `ClassAtlas.JsonValue` — a document; there are no fractions.
* `ClassAtlas.JsonValue.compact` — the document on one line, without blanks.
* `ClassAtlas.JsonValue.pretty` — the document with one item per line, indented by two blanks for
  each level.
-/

set_option autoImplicit false

namespace ClassAtlas

/-- A JSON document. -/
inductive JsonValue where
  /-- Nothing. -/
  | null
  /-- An integer. -/
  | number (value : Int)
  /-- A text. -/
  | text (value : String)
  /-- A list of documents. -/
  | list (items : List JsonValue)
  /-- Documents with names. -/
  | object (fields : List (String × JsonValue))
  deriving Repr

namespace JsonValue

/-- The value or `null`. -/
def ofOption {α : Type} (f : α → JsonValue) : Option α → JsonValue
  | some a => f a
  | none => null

/-! ### Text -/

/-- A character inside quotes. -/
def escapeChar (c : Char) : String :=
  if c = '"' then "\\\""
  else if c = '\\' then "\\\\"
  else if c = Char.ofNat 8 then "\\b"
  else if c = '\t' then "\\t"
  else if c = '\n' then "\\n"
  else if c = Char.ofNat 12 then "\\f"
  else if c = '\r' then "\\r"
  else if c.toNat < 32 then
    "\\u00" ++ (if c.toNat < 16 then "0" else "") ++ Text.hexOfNat c.toNat
  else String.singleton c

/-- A text between quotes. -/
def quoted (value : String) : String :=
  "\"" ++ String.join (value.toList.map escapeChar) ++ "\""

/-! ### On one line -/

mutual

/-- The document on one line, without blanks. -/
def compact : JsonValue → String
  | null => "null"
  | number value => toString value
  | text value => quoted value
  | list items => "[" ++ compactItems items ++ "]"
  | object fields => "\x7b" ++ compactFields fields ++ "\x7d"

/-- Documents with commas between them. -/
def compactItems : List JsonValue → String
  | [] => ""
  | [item] => compact item
  | item :: items => compact item ++ "," ++ compactItems items

/-- Documents with their names, with commas between them. -/
def compactFields : List (String × JsonValue) → String
  | [] => ""
  | [(name, value)] => quoted name ++ ":" ++ compact value
  | (name, value) :: fields => quoted name ++ ":" ++ compact value ++ "," ++ compactFields fields

end

/-! ### On many lines -/

/-- The start of a new line at a level. -/
def newLine (level : Nat) : String :=
  "\n" ++ String.ofList (List.replicate (2 * level) ' ')

mutual

/-- The document at a level, with one item per line. -/
def prettyAt (level : Nat) : JsonValue → String
  | null => "null"
  | number value => toString value
  | text value => quoted value
  | list [] => "[]"
  | list (item :: items) =>
    "[" ++ newLine (level + 1) ++ prettyAt (level + 1) item ++ prettyItems (level + 1) items ++
      newLine level ++ "]"
  | object [] => "\x7b\x7d"
  | object ((name, value) :: fields) =>
    "\x7b" ++ newLine (level + 1) ++ quoted name ++ ": " ++ prettyAt (level + 1) value ++
      prettyFields (level + 1) fields ++ newLine level ++ "\x7d"

/-- The items of a list after the first one. -/
def prettyItems (level : Nat) : List JsonValue → String
  | [] => ""
  | item :: items => "," ++ newLine level ++ prettyAt level item ++ prettyItems level items

/-- The fields of an object after the first one. -/
def prettyFields (level : Nat) : List (String × JsonValue) → String
  | [] => ""
  | (name, value) :: fields =>
    "," ++ newLine level ++ quoted name ++ ": " ++ prettyAt level value ++
      prettyFields level fields

end

/-- The document with one item per line. -/
def pretty (value : JsonValue) : String :=
  prettyAt 0 value

end JsonValue

end ClassAtlas
