import DocTypes.Text.Bytes

/-! # File paths

A path is kept as the bytes that the user wrote, because messages show it so.  Its segments stand
between slashes; empty ones and single dots lead nowhere.  `join` puts a name behind a directory
with one slash between them, and `extension?` is what follows the last dot of the last segment,
where a dot in front does not count.

Any bytes without a slash may be a name, so there are names that are no text.  `isHidden` looks at
the text of a name, so a name that is no text is never hidden, whatever it begins with.  The system
looks at no path that is longer than `limit`. -/

namespace DocTypes.Path

/-- What stands between the segments of a path. -/
def slash : UInt8 := '/'.toUInt8

/-- What stands in front of an extension, and in front of a hidden name. -/
def dot : UInt8 := '.'.toUInt8

/-- What stands between the slashes of a path. -/
def segments (path : Bytes) : List Bytes := path.splitOn slash

/-- Whether a segment leads nowhere. -/
def isIdle (segment : Bytes) : Bool := segment == "" || segment == "."

/-- The last segment of a path that leads somewhere, unless it leads upwards. -/
def fileName? (path : Bytes) : Option Bytes :=
  match ((segments path).filter (!isIdle ·)).getLast? with
  | some name => if name = ".." then none else some name
  | none => none

/-- The extension of a file of the given name. -/
def extensionOfName? (name : Bytes) : Option Bytes :=
  let ext := name.reverse.takeWhile (· != dot)
  -- From the last dot on, backwards.  A single byte is a dot in front.
  match name.reverse.dropWhile (· != dot) with
  | _ :: _ :: _ => some ext.reverse
  | _ => none

/-- The extension of the file at a path. -/
def extension? (path : Bytes) : Option Bytes := (fileName? path).bind extensionOfName?

/-- The path of something in a directory. -/
def join (directory name : Bytes) : Bytes :=
  if directory = [] ∨ directory.getLast? = some slash then directory ++ name
  else directory ++ slash :: name

/-- Whether a name is a text that begins with a dot. -/
def isHidden (name : Bytes) : Bool := (name.text?.getD []).startsWith "."

/-- The greatest length of a path that the system looks at. -/
def limit : Nat := 4095

/-- The greatest length of a name. -/
def nameLimit : Nat := 255

/-- Whether a path is longer than the system takes. -/
def isTooLong (path : Bytes) : Bool := limit < path.length

end DocTypes.Path
