/-!
# Failures of the file system

## Main definitions

* `ClassAtlas.DiskFault` — why a file or a directory cannot be found, made, read or written.
* `ClassAtlas.DiskFault.message` — the one wording of each cause.
-/

set_option autoImplicit false

namespace ClassAtlas

/-- Why a file or a directory cannot be found, made, read or written. -/
inductive DiskFault where
  /-- There is nothing at the path. -/
  | missing
  /-- There is something at the path already. -/
  | occupied
  /-- The path goes on behind something that is no directory. -/
  | notDirectory
  /-- A directory cannot be written like a file. -/
  | isDirectory
  /-- A name in the path, or the path itself, is too long. -/
  | nameTooLong
  /-- The path has a character that ends texts. -/
  | endOfText
  /-- The bytes of a file are no text. -/
  | notText
  deriving DecidableEq, Repr

/-- The wording of a failure of the file system. -/
def DiskFault.message : DiskFault → String
  | .missing => "No such file or directory (os error 2)"
  | .occupied => "File exists (os error 17)"
  | .notDirectory => "Not a directory (os error 20)"
  | .isDirectory => "Is a directory (os error 21)"
  | .nameTooLong => "File name too long (os error 36)"
  | .endOfText => "file name contained an unexpected NUL byte"
  | .notText => "stream did not contain valid UTF-8"

end ClassAtlas
