import DocTypes.Files.Path

/-! # Trees of files

The files that a run may read, as a value: a directory is a list of entries in no particular order,
and an entry is a file, a directory in turn, or something else that has a name, such as a pipe.  A
file has a text, unless its bytes are none.  There are no links, and nothing is kept from the user.

`FileSystem.find` follows the segments of a path from the working directory, or from the root when
the path begins with a slash, and says what stopped it when it could not. -/

namespace DocTypes

/-- Why a file could not be read. -/
inductive ReadError where
  | notFound
  | noDevice
  | notADirectory
  | isADirectory
  | nameTooLong
  | notText
  deriving DecidableEq

/-- Why a file could not be read, in words. -/
def ReadError.message : ReadError → Text
  | notFound => "No such file or directory (os error 2)"
  | noDevice => "No such device or address (os error 6)"
  | notADirectory => "Not a directory (os error 20)"
  | isADirectory => "Is a directory (os error 21)"
  | nameTooLong => "File name too long (os error 36)"
  | notText => "stream did not contain valid UTF-8"

/-- What has a name in a directory. -/
inductive Entry where
  /-- A regular file, with its text if its bytes are one. -/
  | file (name : Bytes) (content : Option Text)
  /-- A pipe, a socket or a device, with what comes of reading it. -/
  | special (name : Bytes) (reading : Except ReadError Text)
  | directory (name : Bytes) (entries : List Entry)

/-- What stands at a path. -/
inductive Node where
  | file (content : Option Text)
  | special (reading : Except ReadError Text)
  | directory (entries : List Entry)

namespace Entry

/-- The name of an entry. -/
def name : Entry → Bytes
  | file name _ => name
  | special name _ => name
  | directory name _ => name

/-- An entry but for its name. -/
def node : Entry → Node
  | file _ content => .file content
  | special _ reading => .special reading
  | directory _ entries => .directory entries

/-- Whether an entry is a directory. -/
def isDirectory : Entry → Bool
  | directory _ _ => true
  | _ => false

end Entry

namespace Node

/-- A node under a name. -/
def named (name : Bytes) : Node → Entry
  | file content => .file name content
  | special reading => .special name reading
  | directory entries => .directory name entries

end Node

/-- The files that can be reached, and the place where relative paths begin. -/
structure FileSystem where
  root : List Entry
  workingDirectory : List Bytes

namespace FileSystem

/-! ## Reading -/

/-- Follows segments downwards, where `above` are the directories around the one at hand, nearest
first.  Above the root is the root. -/
def follow (above : List (List Entry)) (here : List Entry) : List Bytes → Except ReadError Node
  | [] => .ok (.directory here)
  | segment :: rest =>
    if Path.isIdle segment then follow above here rest
    else if segment = ".." then
      match above with
      | [] => follow [] here rest
      | outer :: further => follow further outer rest
    else if Path.nameLimit < segment.length then .error .nameTooLong
    else
      match here.find? (·.name == segment) with
      | none => .error .notFound
      | some (.directory _ entries) => follow (here :: above) entries rest
      | some e => if rest = [] then .ok e.node else .error .notADirectory

/-- What stands at a path.  The empty path leads nowhere. -/
def find (fs : FileSystem) (path : Bytes) : Except ReadError Node :=
  if path = [] then .error .notFound
  else if Path.isTooLong path then .error .nameTooLong
  else if path.head? = some Path.slash then follow [] fs.root (Path.segments path)
  else follow [] fs.root (fs.workingDirectory ++ Path.segments path)

/-- The text of the file at a path. -/
def read (fs : FileSystem) (path : Bytes) : Except ReadError Text :=
  match fs.find path with
  | .ok (.file (some text)) => .ok text
  | .ok (.file none) => .error .notText
  | .ok (.special reading) => reading
  | .ok (.directory _) => .error .isADirectory
  | .error e => .error e

/-- The entries of the directory at a path, if there is one. -/
def directory? (fs : FileSystem) (path : Bytes) : Option (List Entry) :=
  match fs.find path with
  | .ok (.directory entries) => some entries
  | _ => none

end FileSystem

/-! ## Changing -/

namespace Entry

/-- Puts a node at the place that segments name below a directory, with the directories on the way
there.  A directory that is there already stays as it is. -/
def insert (node : Node) : List Bytes → List Entry → List Entry
  | [], entries => entries
  | [name], entries =>
    match node, entries.find? (·.name == name) with
    -- Making a directory that is there is no change.
    | .directory _, some (.directory _ _) => entries
    | _, _ => entries.filter (·.name != name) ++ [node.named name]
  | name :: rest, entries =>
    let inner :=
      match entries.find? (·.name == name) with
      | some (.directory _ inner) => inner
      | _ => []
    entries.filter (·.name != name) ++ [directory name (insert node rest inner)]

/-- Takes away what stands at the place that segments name below a directory. -/
def erase : List Bytes → List Entry → List Entry
  | [], entries => entries
  | [name], entries => entries.filter (·.name != name)
  | name :: rest, entries =>
    entries.map fun
      | directory other inner =>
        if other = name then directory other (erase rest inner) else directory other inner
      | e => e

end Entry

namespace FileSystem

/-- The place that a path names, as segments from the root.  Two dots lead one segment back. -/
def place (fs : FileSystem) (path : Bytes) : List Bytes :=
  (Path.segments path).foldl
    (fun reached segment =>
      if Path.isIdle segment then reached
      else if segment = ".." then reached.dropLast
      else reached ++ [segment])
    (if path.head? = some Path.slash then [] else fs.workingDirectory)

/-- Puts a file or a directory at a path. -/
def write (fs : FileSystem) (path : Bytes) (node : Node) : FileSystem :=
  { fs with root := Entry.insert node (fs.place path) fs.root }

/-- Takes away the file or the directory at a path. -/
def remove (fs : FileSystem) (path : Bytes) : FileSystem :=
  { fs with root := Entry.erase (fs.place path) fs.root }

end FileSystem
end DocTypes
