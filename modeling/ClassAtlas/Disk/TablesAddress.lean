import ClassAtlas.Error
import ClassAtlas.Text.Hex
import ClassAtlas.Text.LossyUtf8

/-!
# Addresses of tables

The tables of a workspace are reached by a text. It is the path of a file, unless it starts with
`file:`. Then it goes on with the name of a machine, which has to be this one, with a path, and behind
a question mark with options, each of which is a name and a value. A byte may be written as a percent
sign and two digits, and a number sign ends everything.

## Main definitions

* `ClassAtlas.TablesAddress` — a path with options.
* `ClassAtlas.TablesAddress.ofText` — reading an address.
* `ClassAtlas.TablesRights`, `ClassAtlas.TablesDriver` — what may be done with the file, and how files
  are reached.
* `ClassAtlas.TablesOpening`, `ClassAtlas.TablesAddress.opening` — what an address asks for.
-/

set_option autoImplicit false

namespace ClassAtlas

/-- A path with options. -/
structure TablesAddress where
  /-- The path. Tables without one are kept nowhere. -/
  path : String
  /-- The options with their values, in order. -/
  options : List (String × String)
  deriving DecidableEq, Repr

namespace TablesAddress

/-! ### Reading -/

/-- Bytes with the escapes replaced. The escape of zero ends them. -/
def unescape : List UInt8 → List UInt8
  | [] => []
  | [a] => [a]
  | [a, b] => [a, b]
  | c :: a :: b :: rest =>
    match Text.hexValue? (Char.ofNat a.toNat), Text.hexValue? (Char.ofNat b.toNat) with
    | some high, some low =>
      if c ≠ 0x25 then c :: unescape (a :: b :: rest)
      else if high = 0 ∧ low = 0 then []
      else UInt8.ofNat (16 * high + low) :: unescape rest
    | _, _ => c :: unescape (a :: b :: rest)

/-- The text of escaped bytes. -/
def textOf (bytes : List UInt8) : String :=
  LossyUtf8.decode (unescape bytes)

/-- What stands before a separator, and what stands behind it. -/
def cut (separator : UInt8) (bytes : List UInt8) : List UInt8 × List UInt8 :=
  (bytes.takeWhile (· != separator), (bytes.dropWhile (· != separator)).drop 1)

/-- The parts of bytes between separators. -/
def parts (separator : UInt8) : List UInt8 → List (List UInt8)
  | [] => [[]]
  | b :: bytes =>
    if b = separator then [] :: parts separator bytes
    else
      match parts separator bytes with
      | [] => [[b]]
      | part :: rest => (b :: part) :: rest

/-- The option that bytes spell; nothing if it has no name. -/
def option? (bytes : List UInt8) : Option (String × String) :=
  let (name, value) := cut 0x3D bytes
  if (unescape name).isEmpty then none else some (textOf name, textOf value)

/-- What follows the name of the machine. Without two slashes there is no such name. -/
def afterHost (bytes : List UInt8) : Except StoreFault (List UInt8) :=
  match bytes with
  | 0x2F :: 0x2F :: rest =>
    let host := LossyUtf8.decode (rest.takeWhile (· != 0x2F))
    if host == "" || host == "localhost" then .ok (rest.dropWhile (· != 0x2F))
    else .error (.foreignHost host)
  | bytes => .ok bytes

/-- How an address that is more than a path starts. -/
def scheme : List UInt8 := "file:".toUTF8.toList

/-- Reads an address. -/
def ofText (text : String) : Except StoreFault TablesAddress := do
  let bytes := text.toUTF8.toList
  if !scheme.isPrefixOf bytes then return ⟨text, []⟩
  let rest ← afterHost (bytes.drop scheme.length)
  let (path, options) := cut 0x3F (cut 0x23 rest).1
  return ⟨textOf path, (parts 0x26 options).filterMap option?⟩

end TablesAddress

/-! ### What is asked for -/

/-- What may be done with the file. -/
inductive TablesRights where
  /-- It is read. -/
  | read
  /-- It is read and written. -/
  | write
  /-- It is read and written, and made if there is none. -/
  | create
  /-- There is no file; the tables are kept nowhere. -/
  | memory
  deriving DecidableEq, Repr

namespace TablesRights

/-- The rights that a word stands for. -/
def ofWord? : String → Option TablesRights
  | "ro" => some read
  | "rw" => some write
  | "rwc" => some create
  | "memory" => some memory
  | _ => none

/-- Whether some rights may follow others: nothing is given back, but where there was no file there
are no limits. -/
def mayFollow : TablesRights → TablesRights → Bool
  | memory, _ | _, memory | _, create => true
  | read, _ => true
  | write, write => true
  | write, read | create, write | create, read => false

end TablesRights

/-- How files are reached. -/
inductive TablesDriver where
  /-- Like other files. -/
  | standard
  /-- Like other files, and nobody else reaches them: the index of the log is not kept in a file. -/
  | exclusive
  /-- With a lock that is a file. There can be no log, and a journal is never taken for one that was
  left behind. -/
  | lockFile
  /-- Without locks. There can be no log. -/
  | lockless
  /-- Not at all: the tables are kept nowhere. -/
  | nowhere
  deriving DecidableEq, Repr

/-- The driver with a name. -/
def TablesDriver.ofName? : String → Option TablesDriver
  | "unix" => some standard
  | "unix-excl" => some exclusive
  | "unix-dotfile" => some lockFile
  | "unix-none" => some lockless
  | "memdb" => some nowhere
  | _ => none

/-- What an address asks for. -/
structure TablesOpening where
  /-- The path of the file. -/
  path : String
  /-- What may be done with it. -/
  rights : TablesRights
  /-- How it is reached. -/
  driver : TablesDriver
  /-- Whether it is taken for granted that nobody changes the file, so that no companion counts. -/
  isFrozen : Bool
  /-- Whether the index of the log is never written. -/
  readsLogIndex : Bool
  /-- A file that has to exist. -/
  model : Option String
  deriving DecidableEq, Repr

namespace TablesAddress

/-- The smallest number that is too large. -/
def numberLimit : Nat := 0x80000000

/-- The value of digits in a base. -/
def digitsValue (base : Nat) (digits : List Nat) : Nat :=
  digits.foldl (fun value digit => value * base + digit) 0

/-- The number with which a text starts; one that is too large is zero. -/
def leadingNumber (text : List Char) : Nat :=
  let hex := ((text.drop 2).map Text.hexValue?).takeWhile Option.isSome
  let value :=
    if text.head? == some '0' && (text[1]? == some 'x' || text[1]? == some 'X') && !hex.isEmpty then
      digitsValue 16 (hex.filterMap id)
    else digitsValue 10 ((text.takeWhile Char.isDigit).map fun c => c.toNat - '0'.toNat)
  if value < numberLimit then value else 0

/-- Whether the value of an option says yes: a word does, or a number whose last byte is not zero. -/
def isYes (value : String) : Bool :=
  if value.toList.head?.any Char.isDigit then leadingNumber value.toList % 256 != 0
  else ["on", "yes", "true"].contains (String.ofList (value.toList.map Char.toLower))

/-- Whether an option says yes. If it is there twice, the first one counts. -/
def has (address : TablesAddress) (name : String) : Bool :=
  (address.options.lookup name).any isYes

/-- The rights after an option. -/
def restrict (rights : TablesRights) (option : String × String) : Except StoreFault TablesRights :=
  match option with
  | ("mode", value) =>
    match TablesRights.ofWord? value with
    | none => .error (.unknownMode "access" value)
    | some asked => if asked.mayFollow rights then .ok asked else .error (.forbiddenMode value)
  | ("cache", value) =>
    if ["shared", "private"].contains value then .ok rights
    else .error (.unknownMode "cache" value)
  | _ => .ok rights

/-- The driver that the last option of its kind names. -/
def driver (address : TablesAddress) : Except StoreFault TablesDriver :=
  let name := (address.options.reverse.lookup "vfs").getD "unix"
  match TablesDriver.ofName? name with
  | some driver => .ok driver
  | none => .error (.unknownDriver name)

/-- What an address asks for. -/
def opening (address : TablesAddress) : Except StoreFault TablesOpening := do
  let rights ← address.options.foldlM restrict .create
  let driver ← address.driver
  let driver := if driver != .nowhere && address.has "nolock" then .lockless else driver
  return ⟨address.path, rights, driver, address.has "immutable", address.has "readonly_shm",
    address.options.lookup "modeof"⟩

end TablesAddress

end ClassAtlas
