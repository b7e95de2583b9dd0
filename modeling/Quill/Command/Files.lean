/-!
# Reading files

What can keep a file from being read, and a tree of files held in memory on which paths are
followed the way an operating system does: every step must start from a directory, `.` stays and
`..` goes up. Neither a path nor a name looked up in a directory may be too long.
-/

namespace Quill.Command

/-- Why a file could not be read. -/
inductive ReadFault where
  | noSuchFile
  | notDirectory
  | isDirectory
  | nameTooLong
  | notText
deriving DecidableEq, Repr

/-- The reason as it is reported. -/
def ReadFault.reason : ReadFault → String
  | .noSuchFile => "No such file or directory (os error 2)"
  | .notDirectory => "Not a directory (os error 20)"
  | .isDirectory => "Is a directory (os error 21)"
  | .nameTooLong => "File name too long (os error 36)"
  | .notText => "stream did not contain valid UTF-8"

/-- The files under the working directory and the directories that hold them. A place is given by
    the names that lead to it from the working directory. -/
structure Files where
  contents : List (List String × List UInt8)
  directories : List (List String)
deriving DecidableEq, Repr

namespace Files

/-- A working directory with nothing in it. -/
def empty : Files := ⟨[], []⟩

/-- What stands at a place. -/
inductive Item where
  | file (bytes : List UInt8)
  | directory
  | missing

/-- What stands at a place. Nothing is known of what lies above the working directory but the
    directories themselves. -/
def item (files : Files) (place : List String) : Item :=
  match files.contents.lookup place with
  | some bytes => .file bytes
  | none =>
    if place.all (· = "..") || files.directories.contains place then .directory else .missing

/-- One step from a place. -/
def move (place : List String) (name : String) : List String :=
  if name = "" ∨ name = "." then place
  else if name = ".." then
    if place.all (· = "..") then place ++ [".."] else place.dropLast
  else place ++ [name]

/-- The most bytes that a name in a directory can have. -/
def maxNameBytes : Nat := 255

/-- The most bytes that a path can have. -/
def maxPathBytes : Nat := 4095

/-- Follows names from a place. Whether a name is too long is asked only where it is looked up, so
    what stands at the place comes first. -/
def follow (files : Files) (place : List String) : List String → Except ReadFault (List UInt8)
  | [] =>
    match files.item place with
    | .file bytes => .ok bytes
    | .directory => .error .isDirectory
    | .missing => .error .noSuchFile
  | name :: rest =>
    match files.item place with
    | .file _ => .error .notDirectory
    | .directory =>
      if maxNameBytes < name.utf8ByteSize then .error .nameTooLong
      else files.follow (move place name) rest
    | .missing => .error .noSuchFile

/-- Reads the file at a path. A path from the root leads nowhere in these files. A path that is too
    long is refused before any of its names is looked up. -/
def read (files : Files) (path : String) : Except ReadFault (List UInt8) :=
  if path = "" then .error .noSuchFile
  else if maxPathBytes < path.utf8ByteSize then .error .nameTooLong
  else follow (if path.startsWith "/" then empty else files) [] (path.splitOn "/")

/-- Makes a file at the end of some names, and a directory at every place on the way. A file that
    was there before is replaced. -/
def make (files : Files) (bytes : List UInt8) (place : List String) : List String → Files
  | [] => { files with contents := (place, bytes) :: files.contents }
  | name :: rest =>
    make { files with directories := place :: files.directories } bytes (move place name) rest

/-- The files with the given paths, made one after the other. -/
def ofPaths (entries : List (String × List UInt8)) : Files :=
  entries.foldl (fun files entry => files.make entry.2 [] (entry.1.splitOn "/")) empty

end Files

end Quill.Command
