import PegGrammar.CommandLine.Run

/-!
# The program

Reads the files that the arguments name, runs the command line on them, and prints what it leaves
behind.
-/

namespace PegGrammar.CommandLine

/-- The reasons of the system that files are commonly not read for. -/
def systemErrors : List FileError :=
  [.missing, .system 13 "Permission denied", .notDirectory, .isDirectory, .nameTooLong]

def systemError (code : UInt32) (details : String) : FileError :=
  let known := systemErrors.find? (fun
    | .system n _ => n = code.toNat
    | _ => false)
  known.getD (.system code.toNat details)

def fileErrorOf : IO.Error → FileError
  | .noFileOrDirectory _ code details | .permissionDenied _ code details
  | .inappropriateType _ code details | .invalidArgument _ code details
  | .resourceExhausted _ code details => systemError code details
  | .otherError code details => systemError code details
  | reason => .system 0 (toString reason)

def readText (path : String) : IO (Except FileError String) := do
  try
    let bytes ← IO.FS.readBinFile path
    pure (FileReader.decode bytes)
  catch reason => pure (.error (fileErrorOf reason))

/-- The environment variable in which it is written which records to show. -/
def filterVariable : String := "RUST_LOG"

end PegGrammar.CommandLine

section

open PegGrammar CommandLine

def main (arguments : List String) : IO UInt32 := do
  let paths := match Arguments.ofList arguments with
    | .ok a => a.paths
    | .error _ => []
  let files ← paths.mapM (fun path => do pure (path, ← readText path))
  let read : FileReader := fun path => (files.lookup path).getD (.error .missing)
  let outcome := run read (← IO.getEnv filterVariable) arguments
  IO.print outcome.output
  outcome.messages.forM (fun message => IO.eprintln message)
  pure outcome.exitCode.toUInt32

end
