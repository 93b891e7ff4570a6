import ClassAtlas.Toml.Lexeme
import ClassAtlas.Toml.Scalar

/-!
# TOML documents

A document is a list of statements: keys with values, and headers of tables, under which the
following keys stand.

## Main definitions

* `ClassAtlas.Toml.Value` — the values.
* `ClassAtlas.Toml.Statement` — the statements.
* `ClassAtlas.Toml.value` — the reader of values.
* `ClassAtlas.Toml.parse?` — the statements of a document.

## Design

Statements keep the order and the spelling of the document: which tables there are, and whether a
key is set twice, is decided by those who read the statements.
-/

set_option autoImplicit false

namespace ClassAtlas.Toml

/-- A value. -/
inductive Value where
  /-- A text. -/
  | text (value : String)
  /-- An integer. -/
  | integer (value : Int)
  /-- A fraction, as it is written. -/
  | float (spelling : String)
  /-- A truth value. -/
  | boolean (value : Bool)
  /-- A date, a time or both, as it is written. -/
  | dateTime (spelling : String)
  /-- A list of values. -/
  | array (items : List Value)
  /-- Values with keys. -/
  | table (entries : List (List String × Value))
  deriving Repr

/-- A statement. -/
inductive Statement where
  /-- A key gets a value. -/
  | assign (key : List String) (value : Value)
  /-- The following keys stand in a table. -/
  | table (key : List String)
  /-- The following keys stand in a further table of a list of tables. -/
  | tableItem (key : List String)
  deriving Repr

/-! ### Scalars -/

/-- Whether a character may stand in a scalar without quotes. -/
def isScalarChar (c : Char) : Bool :=
  c.isAlphanum || c == '_' || c == '-' || c == '+' || c == '.' || c == ':'

/-- The scalar at the start of a text. A blank is part of it between a date and a time. -/
def scalarToken (cs : List Char) : List Char :=
  let token := cs.takeWhile isScalarChar
  match cs.drop token.length with
  | ' ' :: rest =>
    let time := rest.takeWhile isScalarChar
    if afterDate? token == some [] && (pair? 0 99 time).any (·.head? == some ':') then
      token ++ ' ' :: time
    else token
  | _ => token

/-- The value of a scalar without quotes. -/
def scalarValue? (token : List Char) : Option Value :=
  if isDateTime token then some (.dateTime (String.ofList token))
  else if isFloat token then some (.float (String.ofList token))
  else if isBoolean token then some (.boolean (token == "true".toList))
  else (integer? token).map .integer

/-- Reads a scalar. -/
def scalar : Reader Value := fun cs =>
  match cs with
  | '"' :: _ | '\'' :: _ => (quotedText cs).map fun (text, rest) => (.text text, rest)
  | cs =>
    let token := scalarToken cs
    (scalarValue? token).map fun value => (value, cs.drop token.length)

/-! ### Arrays and tables on a line -/

/-- Reads at most `fuel` items of an array after its opening bracket, or after a comma, behind the
reversed items `done`. A comma may follow the last item. -/
def arrayItems (item : Reader Value) : Nat → List Value → Reader (List Value)
  | 0, _ => failure
  | fuel + 1, done => do
    skipGaps
    (do char ']'; return done.reverse) <|> do
      let value ← item
      skipGaps
      (do char ','; arrayItems item fuel (value :: done)) <|> do
        char ']'
        return (value :: done).reverse

/-- Whether one of two keys is the other one, or a table in which the other one stands. -/
def conflicts (a b : List String) : Bool :=
  a.isPrefixOf b || b.isPrefixOf a

/-- Reads at most `fuel` entries of a table after its opening brace, or after a comma, behind the
reversed entries `done`. -/
def tableEntries (item : Reader Value) :
    Nat → List (List String × Value) → Reader (List (List String × Value))
  | 0, _ => failure
  | fuel + 1, done => do
    let key ← keyPath
    char '='
    skipBlanks
    let value ← item
    skipBlanks
    if done.any fun entry => conflicts entry.1 key then failure
    else
      (do char ','; tableEntries item fuel ((key, value) :: done)) <|> do
        char '\x7d'
        return ((key, value) :: done).reverse

/-- Reads a value in which arrays and tables are nested at most `depth` deep. -/
def value : Nat → Reader Value
  | 0 => scalar
  | depth + 1 => fun cs =>
    match cs with
    | '[' :: rest =>
      (arrayItems (value depth) (cs.length + 1) [] rest).map fun (items, rest) =>
        (.array items, rest)
    | '\x7b' :: rest =>
      match rest.dropWhile isBlank with
      | '\x7d' :: rest => some (.table [], rest)
      | rest =>
        (tableEntries (value depth) (cs.length + 1) [] rest).map fun (entries, rest) =>
          (.table entries, rest)
    | cs => scalar cs

/-! ### Statements -/

/-- Reads a statement and the end of its line. -/
def statement : Reader Statement := fun cs =>
  match cs with
  | '[' :: '[' :: rest => (do
      let key ← keyPath
      char ']'
      char ']'
      lineEnd
      return Statement.tableItem key) rest
  | '[' :: rest => (do
      let key ← keyPath
      char ']'
      lineEnd
      return Statement.table key) rest
  | cs => (do
      let key ← keyPath
      char '='
      skipBlanks
      let v ← value maxDepth
      lineEnd
      return Statement.assign key v) cs

/-- Reads at most `fuel` lines behind the reversed statements `done`. -/
def statementsOnto : Nat → List Statement → List Char → Option (List Statement)
  | 0, _, _ => none
  | fuel + 1, done, cs =>
    match cs.dropWhile isBlank with
    | [] => some done.reverse
    | cs =>
      match lineEnd cs with
      | some (_, rest) => statementsOnto fuel done rest
      | none =>
        match statement cs with
        | some (s, rest) => statementsOnto fuel (s :: done) rest
        | none => none

/-- The statements of a document; a mark of the byte order at its start is skipped. -/
def parse? (text : String) : Option (List Statement) :=
  let cs :=
    match text.toList with
    | '\ufeff' :: cs => cs
    | cs => cs
  statementsOnto (cs.length + 1) [] cs

end ClassAtlas.Toml
