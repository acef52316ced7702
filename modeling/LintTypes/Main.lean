import LintTypes.Command.Exit

/-!
# The program

Runs a command line on the files of the disk.
-/

namespace LintTypes

/-- The number of an error of the system. Some actions give it with the opposite sign. -/
def systemCode (code : UInt32) : Nat := (min code (0 - code)).toNat

/-- The cause behind an error of the system. -/
def FileError.ofSystem (error : IO.Error) : FileError :=
  match error with
  | .noFileOrDirectory .. => .notFound
  | .alreadyExists .. => .occupied
  | .inappropriateType _ code _ => if systemCode code = 20 then .notADirectory else .isADirectory
  | .permissionDenied _ code details =>
    if systemCode code = 13 then .denied else .other details
  | .invalidArgument _ code details =>
    if systemCode code = 36 then .nameTooLong else .other details
  | error => .other (toString error)

/-- An action on the file at a path, with its failure as a value. -/
def onDisk {α : Type} (path : String) (action : IO α) : IO (Except FileError α) := do
  if path.contains '\x00' then return .error .nullInPath
  if path.isEmpty then return .error .notFound
  try
    return .ok (← action)
  catch error =>
    return .error (.ofSystem error)

/-- The files of the disk. -/
instance : FileAccess IO where
  read path := do
    match ← onDisk path (IO.FS.readBinFile path) with
    | .error error => return .error error
    | .ok bytes =>
      match String.fromUTF8? bytes with
      | some text => return .ok text
      | none => return .error .notText
  write path text := onDisk path (IO.FS.writeFile path text)
  makeDirectory path := onDisk path (IO.FS.createDir path)
  isPresent path := do
    return (← onDisk path (do ((← IO.currentDir) / path).metadata)).toBool
  names? path := do
    match ← onDisk path (do ((← IO.currentDir) / path).readDir) with
    | .ok entries => return some (entries.toList.map fun entry => entry.fileName)
    | .error _ => return none

end LintTypes

/-- Runs the program. -/
def main (arguments : List String) : IO UInt32 := do
  let exit : LintTypes.Command.Exit ← LintTypes.Command.run arguments
  (← IO.getStdout).putStr exit.printed.out
  (← IO.getStderr).putStr exit.printed.err
  return UInt32.ofNat exit.code
