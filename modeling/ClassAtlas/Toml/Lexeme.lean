import ClassAtlas.Text.Hex

/-!
# Lexemes of TOML

The parts of a TOML document below values: blanks, ends of lines, comments, quoted texts and keys.
Every reader takes the rest of the document and returns what it read with what follows.

## Main definitions

* `ClassAtlas.Toml.Reader` — a reader.
* `ClassAtlas.Toml.lineEnd`, `ClassAtlas.Toml.skipGaps` — ends of lines, and gaps inside arrays.
* `ClassAtlas.Toml.quotedText` — the four kinds of quoted texts.
* `ClassAtlas.Toml.keyPath` — a key of one or more segments.
-/

set_option autoImplicit false

namespace ClassAtlas.Toml

/-- A reader of a part of a document. -/
abbrev Reader (α : Type) := StateT (List Char) Option α

/-- Whether a character separates lexemes on a line. -/
def isBlank (c : Char) : Bool :=
  c == ' ' || c == '\t'

/-- Whether a character may stand in comments and quoted texts: all but control characters other
than the tab. -/
def isPlain (c : Char) : Bool :=
  c == '\t' || (32 ≤ c.toNat && c.toNat != 127)

/-- Reads one given character. -/
def char (c : Char) : Reader Unit
  | d :: cs => if c = d then some ((), cs) else none
  | [] => none

/-- Skips blanks. -/
def skipBlanks : Reader Unit := fun cs => some ((), cs.dropWhile isBlank)

/-- What follows the end of a line at the start of a text. -/
def afterNewline? : List Char → Option (List Char)
  | '\n' :: cs => some cs
  | '\r' :: '\n' :: cs => some cs
  | _ => none

/-- Skips a comment, if there is one, up to the end of its line. -/
def skipComment : Reader Unit
  | '#' :: cs => some ((), cs.dropWhile isPlain)
  | cs => some ((), cs)

/-- Reads the rest of a line that has only blanks and a comment. -/
def lineEnd : Reader Unit := do
  skipBlanks
  skipComment
  fun cs =>
    match cs with
    | [] => some ((), [])
    | cs => (afterNewline? cs).map fun rest => ((), rest)

/-- Skips blanks, ends of lines and comments, at most `fuel` lines of them. -/
def skipGapsWithin : Nat → Reader Unit
  | 0 => pure ()
  | fuel + 1 => do
    skipBlanks
    skipComment
    fun cs =>
      match afterNewline? cs with
      | some rest => skipGapsWithin fuel rest
      | none => some ((), cs)

/-- Skips blanks, ends of lines and comments. -/
def skipGaps : Reader Unit := fun cs => skipGapsWithin (cs.length + 1) cs

/-! ### Quoted texts -/

/-- A part of a quoted text: characters, and whether they are the last ones. -/
structure Piece where
  /-- The characters. -/
  chars : List Char
  /-- Whether the text ends behind them. -/
  isLast : Bool
  deriving DecidableEq, Repr

/-- Reads at most `fuel` parts of a quoted text behind the reversed characters `done`. -/
def piecesOnto (piece : Reader Piece) : Nat → List Char → Reader String
  | 0, _ => failure
  | fuel + 1, done => do
    let p ← piece
    let done := p.chars.reverse ++ done
    if p.isLast then return String.ofList done.reverse
    else piecesOnto piece fuel done

/-- Reads a quoted text after its opening quote. -/
def pieces (piece : Reader Piece) : Reader String := fun cs =>
  piecesOnto piece (cs.length + 1) [] cs

/-- The character with the code point that `digits` hexadecimal digits spell. -/
def codePoint (digits : Nat) : Reader Char := fun cs => do
  let values ← (cs.take digits).mapM Text.hexValue?
  let n := values.foldl (fun n d => 16 * n + d) 0
  if values.length = digits ∧ n.isValidChar then some (Char.ofNat n, cs.drop digits) else none

/-- Reads an escaped character after the backslash. -/
def escaped : Reader Char
  | 'b' :: cs => some (Char.ofNat 8, cs)
  | 't' :: cs => some ('\t', cs)
  | 'n' :: cs => some ('\n', cs)
  | 'f' :: cs => some (Char.ofNat 12, cs)
  | 'r' :: cs => some ('\r', cs)
  | '"' :: cs => some ('"', cs)
  | '\\' :: cs => some ('\\', cs)
  | 'u' :: cs => codePoint 4 cs
  | 'U' :: cs => codePoint 8 cs
  | _ => none

/-- Reads a part of a text on one line between two quotes of a kind; `escapes` says whether a
backslash escapes. -/
def linePiece (quote : Char) (escapes : Bool) : Reader Piece
  | [] => none
  | c :: cs =>
    if c = quote then some (⟨[], true⟩, cs)
    else if escapes && c == '\\' then (escaped cs).map fun (e, rest) => (⟨[e], false⟩, rest)
    else if isPlain c then some (⟨[c], false⟩, cs)
    else none

/-- What follows blanks, the end of a line and all blanks and ends of lines behind it. -/
def afterFold? (cs : List Char) : Option (List Char) :=
  (afterNewline? (cs.dropWhile isBlank)).map (skipBlankLines (cs.length + 1))
where
  /-- Skips blanks and ends of lines, at most `fuel` lines of them. -/
  skipBlankLines : Nat → List Char → List Char
    | 0, cs => cs
    | fuel + 1, cs =>
      match afterNewline? (cs.dropWhile isBlank) with
      | some rest => skipBlankLines fuel rest
      | none => cs.dropWhile isBlank

/-- Reads a part of a text on many lines between three quotes of a kind on either side. One or two
quotes more may stand before the closing ones. The end of a line counts as a line feed, and a
backslash at the end of a line, if it escapes, folds the lines. -/
def blockPiece (quote : Char) (escapes : Bool) : Reader Piece := fun cs =>
  match cs with
  | [] => none
  | c :: rest =>
    if c = quote then
      let run := (cs.takeWhile (· == quote)).length
      if 3 ≤ run then
        let inside := min (run - 3) 2
        some (⟨List.replicate inside quote, true⟩, cs.drop (inside + 3))
      else some (⟨List.replicate run quote, false⟩, cs.drop run)
    else if escapes && c == '\\' then
      match afterFold? rest with
      | some rest => some (⟨[], false⟩, rest)
      | none => (escaped rest).map fun (e, rest) => (⟨[e], false⟩, rest)
    else
      match afterNewline? cs with
      | some rest => some (⟨['\n'], false⟩, rest)
      | none => if isPlain c then some (⟨[c], false⟩, rest) else none

/-- Reads a quoted text: between one or three quotes on either side, and with escapes if they are
double quotes. The end of a line right behind three opening quotes is not part of the text. -/
def quotedText : Reader String
  | '"' :: '"' :: '"' :: cs => pieces (blockPiece '"' true) ((afterNewline? cs).getD cs)
  | '\'' :: '\'' :: '\'' :: cs => pieces (blockPiece '\'' false) ((afterNewline? cs).getD cs)
  | '"' :: cs => pieces (linePiece '"' true) cs
  | '\'' :: cs => pieces (linePiece '\'' false) cs
  | _ => none

/-! ### Keys -/

/-- Whether a character may stand in a key without quotes. -/
def isBareKeyChar (c : Char) : Bool :=
  c.isAlphanum || c == '_' || c == '-'

/-- Reads a segment of a key. -/
def keySegment : Reader String
  | '"' :: cs => pieces (linePiece '"' true) cs
  | '\'' :: cs => pieces (linePiece '\'' false) cs
  | cs =>
    match cs.takeWhile isBareKeyChar with
    | [] => none
    | name => some (String.ofList name, cs.dropWhile isBareKeyChar)

/-- Reads at most `fuel` segments of a key with dots between them; blanks may stand around each. -/
def keyPathWithin : Nat → Reader (List String)
  | 0 => failure
  | fuel + 1 => do
    skipBlanks
    let segment ← keySegment
    skipBlanks
    fun cs =>
      match cs with
      | '.' :: rest => (keyPathWithin fuel rest).map fun (path, rest) => (segment :: path, rest)
      | cs => some ([segment], cs)

/-- How deep arrays and tables may be nested, and how many segments a key may have. -/
def maxDepth : Nat := 79

/-- Reads a key of one or more segments. -/
def keyPath : Reader (List String) := fun cs =>
  (keyPathWithin (cs.length + 1) cs).filter fun (path, _) => path.length ≤ maxDepth

end ClassAtlas.Toml
