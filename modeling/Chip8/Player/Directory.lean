/-!
# Directories

The files that a path can lead to: those of one directory, by name. A path is followed part by
part from that directory. Single dots and empty parts stay where they are, two dots lead out of
the directory, and nothing lies behind a file. Outside the directory there are only directories
and no names that are known.

Paths and names are bounded in bytes, as UTF-8 has them. A path is judged as a whole before it is
followed, a name only where it is looked up, so a long name counts for nothing behind a part that
leads nowhere.
-/

set_option autoImplicit false

namespace Chip8

/-- Why no file was read. -/
inductive FileError where
  | notFound
  | notDirectory
  | isDirectory
  /-- The path, or a name that was looked up, has too many bytes. -/
  | nameTooLong
  /-- A path cannot hold the byte that ends it. -/
  | nulInPath
deriving DecidableEq

/-- The error as it is reported, with the operating system's number where the path got that far. -/
def FileError.message : FileError → String
  | notFound => "No such file or directory (os error 2)"
  | notDirectory => "Not a directory (os error 20)"
  | isDirectory => "Is a directory (os error 21)"
  | nameTooLong => "File name too long (os error 36)"
  | nulInPath => "file name contained an unexpected NUL byte"

/-- Files by name. -/
structure Directory where
  files : List (String × List UInt8)
deriving DecidableEq

namespace Directory

/-- How many bytes a path can have. -/
def maxPathSize : Nat := 4095

/-- How many bytes one name in a path can have. -/
def maxNameSize : Nat := 255

/-- Where a path has led so far. -/
inductive Place where
  /-- To the directory itself. -/
  | inside
  /-- To a directory around it. -/
  | outside
  | file (contents : List UInt8)

/-- Looks up a name in the directory or outside of it. -/
def lookup? (d : Directory) : Place → String → Option (List UInt8)
  | .inside, name => d.files.lookup name
  | _, _ => none

/-- Follows one part of a path. -/
def follow (d : Directory) : Place → String → Except FileError Place
  | .file _, _ => .error .notDirectory
  | place, "" => .ok place
  | place, "." => .ok place
  | _, ".." => .ok .outside
  | place, name =>
    if maxNameSize < name.utf8ByteSize then .error .nameTooLong
    else
      match d.lookup? place name with
      | some contents => .ok (.file contents)
      | none => .error .notFound

/-- Follows the parts of a path one after the other. -/
def followAll (d : Directory) (place : Place) : List String → Except FileError Place
  | [] => .ok place
  | part :: rest =>
    match d.follow place part with
    | .ok place => d.followAll place rest
    | .error e => .error e

/-- Reads the file at a path. A path that begins with a slash begins outside. -/
def read (d : Directory) (path : String) : Except FileError (List UInt8) :=
  if path.toList.contains '\x00' then .error .nulInPath
  else if path.isEmpty then .error .notFound
  else if maxPathSize < path.utf8ByteSize then .error .nameTooLong
  else
    match d.followAll (if path.startsWith "/" then .outside else .inside) (path.splitOn "/") with
    | .ok (.file contents) => .ok contents
    | .ok _ => .error .isDirectory
    | .error e => .error e

end Directory

end Chip8
