/-!
# A directory of files

Where a configuration is looked for, as data: the folder in which work is done, and what stands
under each path, inside that folder or anywhere else. A path is followed name by name, from the
folder or from the root of all folders; what it leads to is a file, nothing, or something that
cannot be read as a file.
-/

namespace ExprSampler

/-- What stands under a name. -/
inductive FileEntry
  | file (bytes : ByteArray)
  | folder

/-- What opening a path gives. -/
inductive Found
  | bytes (contents : ByteArray)
  | missing
  | unreadable
  /-- The path itself cannot be one. -/
  | badName

/-- A directory among all files there are. Paths are lists of names and start at the root. -/
structure Directory where
  /-- Where the directory stands. -/
  place : List String
  /-- What stands under each path, wherever that is. -/
  entries : List (List String × FileEntry)

namespace Directory

/-- The names on a path, in order. -/
def names (path : String) : List String :=
  (path.toList.splitOnP (· == '/')).map String.ofList

/-- Whether a name only says "here". -/
def isHere (name : String) : Bool :=
  name == "" || name == "."

/-- The directory at a place with the given entries in it, named by their paths, and nothing
elsewhere. -/
def ofPaths (place : List String) (files : List (String × FileEntry)) : Directory :=
  ⟨place, files.map fun f ↦ (place ++ (names f.1).filter fun n ↦ !isHere n, f.2)⟩

/-- The file under a path. -/
def file? (d : Directory) (path : List String) : Option ByteArray :=
  d.entries.findSome? fun e ↦
    match e.2 with
    | .file bytes => if e.1 = path then some bytes else none
    | .folder => none

/-- Whether a folder stands under a path, either itself or because the directory or something else
stands in it. -/
def isFolder (d : Directory) (path : List String) : Bool :=
  path.isPrefixOf d.place || d.entries.any fun e ↦
    match e.2 with
    | .file _ => e.1 != path && path.isPrefixOf e.1
    | .folder => path.isPrefixOf e.1

/-- The longest name, in bytes. -/
def maxNameBytes : Nat := 255

/-- Follows names from a folder. The root is its own parent. -/
def walk (d : Directory) (folder : List String) : List String → Found
  | [] => .unreadable
  | name :: rest =>
    if isHere name then walk d folder rest
    else if name = ".." then walk d folder.dropLast rest
    else if maxNameBytes < name.utf8ByteSize then .unreadable
    else
      let path := folder ++ [name]
      match d.file? path with
      | some bytes => if rest.isEmpty then .bytes bytes else .unreadable
      | none => if d.isFolder path then walk d path rest else .missing

/-- Whether a path starts at the root of all directories. -/
def isAbsolute (path : String) : Bool :=
  path.startsWith "/"

/-- The folder in which a path starts. -/
def start (d : Directory) (path : String) : List String :=
  if isAbsolute path then [] else d.place

/-- Whether a path holds the character that no path can. -/
def isBadPath (path : String) : Bool :=
  path.toList.contains '\x00'

/-- What opening a path gives. The empty path names nothing. -/
def openPath (d : Directory) (path : String) : Found :=
  if isBadPath path then .badName
  else if path = "" then .missing
  else d.walk (d.start path) (names path)

/-- What opening a path gives when it is first brought to its shortest form, in which names that say
"here" are left out; the empty path names the directory itself. -/
def openNormalized (d : Directory) (path : String) : Found :=
  if isBadPath path then .badName
  else d.walk (d.start path) ((names path).filter fun n ↦ !isHere n)

end Directory

end ExprSampler
