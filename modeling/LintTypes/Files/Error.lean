/-!
# File errors

Why a file could not be read or written.
-/

namespace LintTypes

/-- What keeps a file from being read or written. -/
inductive FileError where
  /-- There is nothing at the path, or a directory on the way to it is missing. -/
  | notFound
  /-- There is something else at the path. -/
  | occupied
  /-- Something on the way to the path is no directory. -/
  | notADirectory
  /-- There is a directory at the path. -/
  | isADirectory
  /-- A name of the path is too long. -/
  | nameTooLong
  /-- The path may not be used like this. -/
  | denied
  /-- The contents are no UTF-8 text. -/
  | notText
  /-- The path holds a null character. -/
  | nullInPath
  /-- Any other reason, in the words of the system. -/
  | other (reason : String)
deriving DecidableEq, Repr

namespace FileError

/-- The words for the error. -/
def message : FileError → String
  | notFound => "No such file or directory (os error 2)"
  | occupied => "File exists (os error 17)"
  | notADirectory => "Not a directory (os error 20)"
  | isADirectory => "Is a directory (os error 21)"
  | nameTooLong => "File name too long (os error 36)"
  | denied => "Permission denied (os error 13)"
  | notText => "stream did not contain valid UTF-8"
  | nullInPath => "file name contained an unexpected NUL byte"
  | other reason => reason

end FileError

end LintTypes
