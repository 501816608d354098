import DocTypes.Files.Tree
import DocTypes.Signature.Scan
import DocTypes.Text.Sorted

/-! # Signature files

`Signature.load` reads one file, whose extension tells the format.  `Signature.discover` finds the
files of a format below a directory, in the order of their paths component by component.  Whatever
is not known to be a directory counts as a file: a pipe does, and so does a directory whose path is
longer than the system takes.  A directory whose name begins with a dot is passed over, and so is a
directory that merely has the extension of a file.  Only the name of a directory that is a text is
looked at, though, and what is below any other directory is found. -/

namespace DocTypes

/-- Why a signature file does not load. -/
inductive SignatureError where
  | unreadable (path : Bytes) (reason : ReadError)
  | malformed (path : Bytes) (reason : ScanError)
  | unknownFormat (path : Bytes)
  deriving DecidableEq

/-- Why a signature file does not load, in words. -/
def SignatureError.message : SignatureError → Text
  | unreadable path reason => "failed to read " ++ path.shown ++ ": " ++ reason.message
  | malformed path reason => path.shown ++ ": " ++ reason.message
  | unknownFormat path => path.shown ++ " is not an .rbs or .rbi file"

namespace Signature

/-- The declarations of the file at a path. -/
def load (files : FileSystem) (path : Bytes) : Except SignatureError (List Signature) :=
  match SignatureFormat.ofPath? path with
  | none => .error (.unknownFormat path)
  | some format =>
    match files.read path with
    | .error reason => .error (.unreadable path reason)
    | .ok source =>
      match scan format source with
      | .error reason => .error (.malformed path reason)
      | .ok signatures => .ok signatures

/-- The file of the given name, if the name is one of the format. -/
def filesNamed (format : SignatureFormat) (name : Bytes) : List (List Bytes) :=
  if SignatureFormat.ofName? name = some format then [[name]] else []

mutual

/-- The files of a format at or below an entry of the directory at a path, as the names that lead to
them from there. -/
def filesAt (format : SignatureFormat) (outer : Bytes) : Entry → List (List Bytes)
  | .file name _ => filesNamed format name
  | .special name _ => filesNamed format name
  | .directory name entries =>
    let path := Path.join outer name
    -- The system does not tell that there is a directory at such a path.
    if Path.isTooLong path then filesNamed format name
    else if Path.isHidden name then []
    else (filesIn format path entries).map (name :: ·)

/-- The files of a format at or below entries of the directory at a path. -/
def filesIn (format : SignatureFormat) (outer : Bytes) : List Entry → List (List Bytes)
  | [] => []
  | e :: es => filesAt format outer e ++ filesIn format outer es

end

/-- The files of a format below the directory at a path with the given entries, in order, as the
names that lead to them. -/
def discoverIn (format : SignatureFormat) (directory : Bytes) (entries : List Entry) :
    List (List Bytes) :=
  sortUnique (filesIn format directory entries)

/-- The paths of the files of a format below the directory at a path, in order. -/
def discover (files : FileSystem) (format : SignatureFormat) (directory : Bytes) : List Bytes :=
  match files.directory? directory with
  | none => []
  | some entries =>
    (discoverIn format directory entries).map fun names => names.foldl Path.join directory

/-- The paths of the files of a format below the directory at a path, as they are shown. -/
def discoverAt (files : FileSystem) (format : SignatureFormat) (directory : Text) : List Text :=
  (discover files format directory).map Bytes.shown

end Signature

end DocTypes
