import Stackwright.CommandLine.Command
import Stackwright.Text.Utf8

/-! A directory in memory, for carrying out commands without a disk. Files are named by their
path from the directory; a folder exists if a file lies in it. Of what lies outside, only the
folders above the directory and the places that every system has are known. -/

set_option autoImplicit false

namespace Stackwright.CommandLine

/-- Why a file cannot be read or written. -/
inductive FileError where
  | notFound
  | isFolder
  | notFolder
  | nameTooLong
  | notText
  deriving DecidableEq, Repr

def FileError.message : FileError → String
  | .notFound => "No such file or directory (os error 2)"
  | .isFolder => "Is a directory (os error 21)"
  | .notFolder => "Not a directory (os error 20)"
  | .nameTooLong => "File name too long (os error 36)"
  | .notText => "stream did not contain valid UTF-8"

abbrev Path := List String

/-- Where a path leads. -/
inductive Place where
  /-- In the directory; the empty path is the directory itself. -/
  | inside (path : Path)
  /-- A folder above the directory. -/
  | above
  /-- Outside the directory, from the root on. -/
  | system (path : Path)
  deriving DecidableEq, Repr

namespace Place

/-- The folders that every system has. -/
def systemFolders : List Path := [[], ["dev"], ["tmp"]]

/-- The file that is always empty and forgets what is written to it. -/
def nullFile : Path := ["dev", "null"]

/-- The folder around a folder; the root lies in itself. -/
def parent : Place → Place
  | .inside [] => .above
  | .inside path => .inside path.dropLast
  | .above => .above
  | .system path => .system path.dropLast

/-- What a name in a folder leads to, if anything there can be known. -/
def entry? : Place → String → Option Place
  | .inside path, name => some (.inside (path ++ [name]))
  | .above, _ => none
  | .system path, name => some (.system (path ++ [name]))

end Place

structure Directory where
  files : List (Path × List UInt8)
  deriving DecidableEq, Repr

namespace Directory

def parts (path : String) : Path := path.splitOn "/"

/-- The bytes that a name may have, and those that a path may have. -/
def nameLimit : Nat := 255
def pathLimit : Nat := 4095

def contents? (directory : Directory) : Place → Option (List UInt8)
  | .inside path => directory.files.lookup path
  | .above => none
  | .system path => if path = Place.nullFile then some [] else none

def isFolder (directory : Directory) : Place → Bool
  | .inside path => path.isEmpty || directory.files.any fun file => path.isPrefixOf file.1 && path != file.1
  | .above => true
  | .system path => Place.systemFolders.contains path

def holds (directory : Directory) (place : Place) : Bool :=
  directory.isFolder place || (directory.contents? place).isSome

/-- Follow the parts of a path from a place. -/
def walk (directory : Directory) (current : Place) : Path → Except FileError Place
  | [] => .ok current
  | part :: rest =>
    if !directory.isFolder current then .error .notFolder
    else if part = "" ∨ part = "." then directory.walk current rest
    else if part = ".." then directory.walk current.parent rest
    else if nameLimit < part.utf8ByteSize then .error .nameTooLong
    else
      match current.entry? part with
      | some next => if directory.holds next then directory.walk next rest else .error .notFound
      | none => .error .notFound

/-- Where a path begins. -/
def origin (path : String) : Place := if path.startsWith "/" then .system [] else .inside []

def read (directory : Directory) (path : String) : Except FileError String :=
  if path.isEmpty then .error .notFound
  else if pathLimit < path.utf8ByteSize then .error .nameTooLong
  else
    match directory.walk (origin path) (parts path) with
    | .error error => .error error
    | .ok found =>
      match directory.contents? found with
      | none => .error .isFolder
      | some bytes =>
        match Text.Utf8.decode? bytes with
        | some text => .ok text
        | none => .error .notText

/-- The contents of a file, new or replaced; a file outside is not kept. -/
def put (directory : Directory) (place : Place) (bytes : List UInt8) : Directory :=
  match place with
  | .inside path => ⟨directory.files.filter (fun file => file.1 != path) ++ [(path, bytes)]⟩
  | _ => directory

/-- Write a file with the given name in a folder. -/
def writeIn (directory : Directory) (folder : Place) (name : String) (bytes : List UInt8) :
    Except FileError Directory :=
  if nameLimit < name.utf8ByteSize then .error .nameTooLong
  else
    match folder.entry? name with
    | none => .ok directory
    | some target => if directory.isFolder target then .error .isFolder else .ok (directory.put target bytes)

def write (directory : Directory) (path text : String) : Except FileError Directory :=
  if path.isEmpty then .error .notFound
  else if pathLimit < path.utf8ByteSize then .error .nameTooLong
  else
    let parts := parts path
    let named := (parts.reverse.dropWhile fun part => part == "").reverse
    match directory.walk (origin path) named.dropLast with
    | .error error => .error error
    | .ok folder =>
      let last := named.getLast?.getD "."
      if !directory.isFolder folder then .error .notFolder
      else if named ≠ parts ∨ last = "." ∨ last = ".." then .error .isFolder
      else directory.writeIn folder last (Text.Utf8.encode text.toList)

/-- The files of the directory that a command works on. -/
def access : Files (StateM Directory) where
  read path := do return ((← get).read path).mapError FileError.message
  write path text := do
    match (← get).write path text with
    | .error error => return .error error.message
    | .ok directory =>
      set directory
      return .ok ()

end Directory

end Stackwright.CommandLine
