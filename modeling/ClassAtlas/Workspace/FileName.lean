/-!
# File names

What the name of a file says about its content. Extensions are compared without regard to the case
of ASCII letters.

## Main definitions

* `ClassAtlas.FileName.extension?` — what follows the last dot.
* `ClassAtlas.FileName.isArchive` — whether a name is that of an archive.
* `ClassAtlas.FileName.isImportable` — whether a file in an imported directory is imported.
* `ClassAtlas.FileName.expectedEvents` — how many events mapping such a file is expected to yield.
-/

set_option autoImplicit false

namespace ClassAtlas.FileName

/-- The text after the last occurrence of a character; nothing if it does not occur. -/
def afterLast? (c : Char) (text : List Char) : Option (List Char) :=
  if c ∈ text then some (text.reverse.takeWhile (· != c)).reverse else none

/-- What follows the last dot of a name, in lower case. -/
def extension? (name : String) : Option String :=
  (afterLast? '.' name.toList).map fun cs => String.ofList (cs.map Char.toLower)

/-- The extensions of archives. -/
def archiveExtensions : List String := ["jar", "zip", "war"]

/-- Whether a name is that of an archive. -/
def isArchive (name : String) : Bool :=
  (extension? name).any archiveExtensions.contains

/-- Whether a file in an imported directory is imported: it has the extension of class files or of
archives. A dot at the very start of a name does not start an extension. -/
def isImportable (name : String) : Bool :=
  (extension? (String.ofList (name.toList.drop 1))).any ("class" :: archiveExtensions).contains

/-- The number of events that mapping a file of this name is expected to yield. -/
def expectedEvents (name : String) : Nat :=
  if extension? name = some "class" then 128
  else if isArchive name then 4096
  else 16

end ClassAtlas.FileName
