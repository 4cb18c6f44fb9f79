import UmlText.Clipboard

/-!
# Files

What a command sees of the disk: files by the parts of their absolute paths, and the directory that
relative paths start from. A directory exists if it is listed, if it is around the working directory
or if there is a file in it.
-/

namespace UmlText

/-- The parts of an absolute path. -/
abbrev PathParts := List String

/-- Files and their contents. -/
structure Disk where
  files : List (PathParts × String) := []
  directories : List PathParts := []
  workingDirectory : PathParts := []
deriving DecidableEq, Repr

namespace Disk

/-- What stands at a path. -/
inductive Place where
  | file (parts : PathParts) (contents : String)
  | directory (parts : PathParts)
  /-- Nothing, but the directory it would be in exists. -/
  | free (parts : PathParts)
  /-- Nothing, and a file of this name could not be created as asked. -/
  | missing (error : FileError)
deriving DecidableEq, Repr

def contents? (d : Disk) (parts : PathParts) : Option String := d.files.lookup parts

def isDirectory (d : Disk) (parts : PathParts) : Bool :=
  parts.isPrefixOf d.workingDirectory
    || d.directories.any parts.isPrefixOf
    || d.files.any fun (path, _) => parts.isPrefixOf path && parts ≠ path

/-- Follows the parts of a path from a directory on. The parts of a text with slashes in a row, or
with a slash at the end, are empty; they ask for a directory. Nothing is above the first
directory. -/
def follow (d : Disk) (directory : PathParts) : List String → Place
  | [] => .directory directory
  | part :: rest =>
    if part = "" ∨ part = "." then d.follow directory rest
    else if part = ".." then d.follow directory.dropLast rest
    else
      let path := directory ++ [part]
      match d.contents? path with
      | some contents => if rest.isEmpty then .file path contents else .missing .notDirectory
      | none =>
        if d.isDirectory path then d.follow path rest
        else if rest.isEmpty then .free path
        else if rest.all (· = "") then .missing .isDirectory
        else .missing .notFound

/-- The parts of a path as it is written. -/
def pathParts (path : String) : List String := (path.toList.splitOn '/').map String.ofList

/-- Finds what stands at a path. -/
def locate (d : Disk) (path : String) : Place :=
  let parts := pathParts path
  if path = "" then .missing .notFound
  else if parts.head? = some "" then d.follow [] parts
  else d.follow d.workingDirectory parts

/-- The parts of the absolute path that a path stands for. -/
def resolve (workingDirectory : PathParts) (path : String) : PathParts :=
  let parts := pathParts path
  parts.foldl
    (fun directory part =>
      if part = "" ∨ part = "." then directory
      else if part = ".." then directory.dropLast
      else directory ++ [part])
    (if parts.head? = some "" then [] else workingDirectory)

/-- A path as it is written from the first directory on. -/
def absoluteText (parts : PathParts) : String := "/" ++ "/".intercalate parts

/-- A disk with files below the working directory. -/
def ofFiles (workingDirectory : PathParts) (files : List (String × String)) : Disk :=
  { files := files.map fun (path, contents) => (resolve workingDirectory path, contents)
    workingDirectory }

def pathExists (d : Disk) (path : String) : Bool :=
  match d.locate path with
  | .file .. | .directory _ => true
  | .free _ | .missing _ => false

def read (d : Disk) (path : String) : Except FileError String :=
  match d.locate path with
  | .file _ contents => .ok contents
  | .directory _ => .error .isDirectory
  | .missing .notDirectory => .error .notDirectory
  | .free _ | .missing _ => .error .notFound

/-- Sets the contents of a file, at the end if it is new. -/
def setFile (parts : PathParts) (contents : String) :
    List (PathParts × String) → List (PathParts × String)
  | [] => [(parts, contents)]
  | (path, old) :: rest =>
    if path = parts then (path, contents) :: rest
    else (path, old) :: setFile parts contents rest

/-- Creates or replaces a file. -/
def write (d : Disk) (path contents : String) : Except FileError Disk :=
  match d.locate path with
  | .file parts _ | .free parts => .ok { d with files := setFile parts contents d.files }
  | .directory _ => .error .isDirectory
  | .missing error => .error error

/-- The files of `after` that are new or differ from those of `before`. -/
def changes (before after : Disk) : List (PathParts × String) :=
  after.files.filter fun (parts, contents) => before.contents? parts ≠ some contents

/-- A path as it is written in the working directory. -/
def relativeText (d : Disk) (parts : PathParts) : String :=
  match d.workingDirectory.isPrefixOf? parts with
  | some below => "/".intercalate below
  | none => absoluteText parts

end Disk

end UmlText
