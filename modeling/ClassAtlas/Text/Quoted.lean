import ClassAtlas.Text.Hex
import ClassAtlas.Text.Printable

/-!
# Quoted text

Error messages quote names so that every character can be told: the usual control characters,
the quote and the backslash are escaped by a backslash, and characters that do not print are
written as their code point.

## Main definitions

* `ClassAtlas.Text.quoteChar` — a character between single quotes.
* `ClassAtlas.Text.quote` — a text between double quotes.
-/

set_option autoImplicit false

namespace ClassAtlas.Text

/-- A character inside quotes of the given kind. -/
def escapeIn (delimiter c : Char) : String :=
  if c = Char.ofNat 0 then "\\0"
  else if c = '\t' then "\\t"
  else if c = '\r' then "\\r"
  else if c = '\n' then "\\n"
  else if c = '\\' ∨ c = delimiter then String.ofList ['\\', c]
  else if isPrintable c then String.singleton c
  else "\\u\x7b" ++ hexOfNat c.toNat ++ "\x7d"

/-- A character between single quotes. -/
def quoteChar (c : Char) : String :=
  "'" ++ escapeIn '\'' c ++ "'"

/-- A text between double quotes. -/
def quote (text : String) : String :=
  "\"" ++ String.join (text.toList.map (escapeIn '"')) ++ "\""

end ClassAtlas.Text
