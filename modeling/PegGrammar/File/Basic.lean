/-!
# Reading files

What can go wrong when a file is read as text. Nothing here touches a file: whoever loads something is
given a function that reads.
-/

namespace PegGrammar

/-- Why a file cannot be read as text. -/
inductive FileError where
  /-- The system refuses, for a reason that it also gives by number. -/
  | system (code : Nat) (reason : String)
  /-- The name has a character that no file name has. -/
  | zeroInName
  /-- The contents are not UTF-8. -/
  | notText
  deriving DecidableEq, Repr

namespace FileError

def missing : FileError := .system 2 "No such file or directory"

def notDirectory : FileError := .system 20 "Not a directory"

def isDirectory : FileError := .system 21 "Is a directory"

def nameTooLong : FileError := .system 36 "File name too long"

def message : FileError → String
  | .system code reason => reason ++ " (os error " ++ toString code ++ ")"
  | .zeroInName => "file name contained an unexpected NUL byte"
  | .notText => "stream did not contain valid UTF-8"

end FileError

/-- How the text of a file is found by its path. -/
abbrev FileReader := String → Except FileError String

/-- The text that some bytes hold. -/
def FileReader.decode (bytes : ByteArray) : Except FileError String :=
  match String.fromUTF8? bytes with
  | some text => .ok text
  | none => .error .notText

/-- The name of a file without the directories on the way to it. -/
def Path.fileName (path : List Char) : List Char :=
  (path.reverse.takeWhile (· ≠ '/')).reverse

/-- What follows the last point of the name of a file, unless that point is its first character. -/
def Path.extension? (path : String) : Option String :=
  let name := fileName path.toList
  let after := (name.reverse.takeWhile (· ≠ '.')).reverse
  if after.length + 1 < name.length then some (String.ofList after) else none

end PegGrammar
