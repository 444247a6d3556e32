import PegGrammar.File.Basic

/-!
# A directory of plain files

The files of a working directory, by name. Of what lies outside of it nothing is known but that there
are directories.
-/

namespace PegGrammar

/-- A working directory: the names of its files and their contents. -/
structure Directory where
  files : List (String × ByteArray)

namespace Directory

/-- Where a path has led so far. -/
inductive Spot where
  /-- The working directory. -/
  | here
  /-- A directory outside. -/
  | outside
  | file (bytes : ByteArray)

/-- The longest name that a file can have, in bytes. -/
def maxNameBytes : Nat := 255

/-- The longest path that is followed, in bytes. -/
def maxPathBytes : Nat := 4095

/-- Follows one part of a path. An empty part, as between two strokes, leads nowhere else, but only a
directory has parts below it. -/
def follow (d : Directory) (spot : Spot) (part : String) : Except FileError Spot :=
  match spot with
  | .file _ => .error .notDirectory
  | .here | .outside =>
    if part = "" ∨ part = "." then .ok spot
    else if part = ".." then .ok .outside
    else if maxNameBytes < part.utf8ByteSize then .error .nameTooLong
    else
      match spot, d.files.lookup part with
      | .here, some bytes => .ok (.file bytes)
      | _, _ => .error .missing

def read (d : Directory) : FileReader := fun path => do
  if path.toList.contains '\x00' then throw .zeroInName
  if path = "" then throw .missing
  if maxPathBytes < path.utf8ByteSize then throw .nameTooLong
  let parts := (path.splitOn "/")
  let start := if path.toList.head? = some '/' then Spot.outside else .here
  match ← parts.foldlM d.follow start with
  | .file bytes => FileReader.decode bytes
  | .here | .outside => throw .isDirectory

end Directory

end PegGrammar
