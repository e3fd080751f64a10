/-
Files in memory, as the working directory of a command.

A path is followed part by part from the directory or from the root, and every
part but the last has to lead to a directory.  What refuses a path is what
refuses it on a disk.  Outside the working directory there is nothing but the
places that every machine has.
-/
import Keyless.Command.Access

namespace Keyless

/-- Files by their paths from the working directory, with slashes between the parts. -/
abbrev Directory := List (String × String)

namespace Directory

/-- A place by its parts, which lead there from the working directory or from the root. -/
structure Place where
  fromRoot : Bool
  parts : List String
deriving DecidableEq

/-- What is at a place. -/
inductive Entry where
  | directory
  | file (content : String)
  | nothing
deriving DecidableEq

/-- Why a path does not lead to what is wanted. -/
inductive Refusal where
  | absent
  | notDirectory
  | isDirectory
  | tooLong
  | zero
deriving DecidableEq

/-- The wording of a refusal. -/
def Refusal.reason : Refusal → String
  | .absent => FileAccess.systemReason 2 ""
  | .notDirectory => FileAccess.systemReason 20 ""
  | .isDirectory => FileAccess.systemReason 21 ""
  | .tooLong => FileAccess.systemReason 36 ""
  | .zero => FileAccess.zeroReason

/-- The most octets that a part of a path may have, and a whole path. -/
def partLimit : Nat := 255
def pathLimit : Nat := 4095

/-- The parts of a place with slashes between them. -/
def Place.path (place : Place) : String := String.intercalate "/" place.parts

/-- The directory around a place.  The working directory stands in the one for passing files. -/
def Place.parent (place : Place) : Place :=
  if place.parts.isEmpty && !place.fromRoot then { fromRoot := true, parts := ["tmp"] }
  else { place with parts := place.parts.dropLast }

/-- The directories that every machine has. -/
def machineDirectories : List String :=
  ["", "dev", "etc", "home", "proc", "sys", "tmp", "usr", "var"]

/-- What is at a place; the machine has one file, which is empty and takes everything. -/
def entry (files : Directory) (place : Place) : Entry :=
  let path := place.path
  if place.fromRoot then
    if path = "dev/null" then .file ""
    else if path ∈ machineDirectories then .directory
    else .nothing
  else
    match files.find? (·.1 = path) with
    | some (_, content) => .file content
    | none =>
      if path = "" || files.any (·.1.startsWith (path ++ "/")) then .directory else .nothing

/-- Follows one part of a path.  An empty part, as behind a last slash, stays where it is. -/
def follow (files : Directory) (place : Place) (part : String) : Except Refusal Place :=
  match files.entry place with
  | .nothing => .error .absent
  | .file _ => .error .notDirectory
  | .directory =>
    if part = "" || part = "." then .ok place
    else if part = ".." then .ok place.parent
    else if partLimit < part.utf8ByteSize then .error .tooLong
    else .ok { place with parts := place.parts ++ [part] }

/-- The parts of a path, if it is in order as a whole. -/
def partsOf (path : String) : Except Refusal (List String) :=
  if path = "" then .error .absent
  else if FileAccess.holdsZero path then .error .zero
  else if pathLimit < path.utf8ByteSize then .error .tooLong
  else .ok (path.splitOn "/")

/-- The place that parts lead to, from the root if the first of them is empty. -/
def locate (files : Directory) (parts : List String) : Except Refusal Place :=
  parts.foldlM files.follow { fromRoot := parts.head? = some "" && 1 < parts.length, parts := [] }

/-- The content of a file. -/
def read (files : Directory) (path : String) : Except Refusal String := do
  let place ← files.locate (← partsOf path)
  match files.entry place with
  | .directory => throw .isDirectory
  | .nothing => throw .absent
  | .file content => return content

/--
The files with one of them written anew.  A path with a slash at its end is refused
as that of a directory, whatever is there, if the place around it is one.
-/
def write (files : Directory) (path content : String) : Except Refusal Directory := do
  let parts ← partsOf path
  if parts.getLast? = some "" then
    let named := parts.reverse.dropWhile (· = "")
    discard (files.locate (named.tail.reverse ++ ["."]))
    throw .isDirectory
  let place ← files.locate parts
  match files.entry place with
  | .directory => throw .isDirectory
  | .file _ | .nothing =>
    if place.fromRoot then return files
    else return files.filter (·.1 ≠ place.path) ++ [(place.path, content)]

/-- The path of the user's settings file. -/
def settingsPath : String := "xdg/keyless/config.toml"

/-- The files of the directory that a computation carries along. -/
def files : FileAccess (StateM Directory) where
  read path := do return ((← get).read path).mapError Refusal.reason
  write path content := do
    match (← get).write path content with
    | .ok files =>
      set files
      return .ok ()
    | .error refusal => return .error refusal.reason
  standardSettings := do
    match (← get).read settingsPath with
    | .ok _ => return some settingsPath
    | .error _ => return none

end Directory

end Keyless
