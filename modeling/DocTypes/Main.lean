import DocTypes.CommandLine.Run

/-! # The program

Reads the arguments, looks at the files that the command may read, runs the command on what it saw,
and prints the outcome.  Everything that is decided is decided in `DocTypes.CommandLine`; here only
files are read and lines are written. -/

namespace DocTypes.CommandLine

/-- How the program is used. -/
def usage : Text :=
  "Usage: doctypes convert [OPTIONS] <TYPE>...\n" ++
  "       doctypes resolve [OPTIONS] <NAME>\n\n" ++
  "  --decls <FILE>              Declaration list describing the documented corpus\n" ++
  "  --scope <PATH>              Path of the entity the annotation belongs to\n" ++
  "  --sig-dir <DIR>             Dependency with sig/ or rbi/ signatures (repeatable)\n" ++
  "  --collection <DIR>          Installed RBS collection\n" ++
  "  --ruby <VERSION>            Ruby version whose builtin classes are known\n" ++
  "  --include-messages <KINDS>  Only log these kinds, and done\n" ++
  "  --exclude-messages <KINDS>  Log every kind except these\n" ++
  "  --rbs                       Convert to RBS types (convert only)\n" ++
  "  --replace-errors-with-untyped\n" ++
  "  --replace-unresolved-with-untyped"

/-- What is said when no command is run. -/
def UsageError.message : UsageError → Text
  | missingOperand => "error: a required argument was not provided"
  | unknownArgument => "error: unexpected argument found"
  | conflict => "error: an argument cannot be used with another, or twice"
  | unknownCommand => "error: unrecognized subcommand"
  | missingValue => "error: a value is required for an option but none was supplied"
  | unexpectedValue => "error: unexpected value for an option that takes none"
  | help | nothingAsked => usage
  | version => "doctypes 0.1.0"

/-- An entry of a log in print. -/
def logLine (row : LogRow) : Text :=
  let level : Text :=
    match row.level with
    | .information => " INFO "
    | .warning => " WARN "
    | .failure => "ERROR "
  level ++ row.message ++ " kind=" ++ row.kind.name ++ " item=" ++ row.item

/-- The paths of the files and directories that a command may read. -/
def Command.paths (command : Command) : List Text :=
  let sources :=
    match command with
    | .convert _ _ sources _ => sources
    | .resolve _ sources _ => sources
  sources.decls.toList ++ sources.collection.toList
    ++ sources.sigDirs.flatMap fun gem : Text =>
      [(Path.join gem "sig").shown, (Path.join gem "rbi").shown]

/-- The text of the file at a path, if its bytes are one. -/
def readText? (path : String) : IO (Option Text) :=
  return (String.fromUTF8? (← IO.FS.readBinFile path)).map String.toList

/-- What comes of reading something that is neither a file nor a directory. -/
def readSpecial (path : String) : IO (Except ReadError Text) := do
  try
    match ← readText? path with
    | some text => return .ok text
    | none => return .error .notText
  catch _ => return .error .noDevice

/-- What stands at a path.  Below a directory only signature files are read. -/
partial def observe (path : String) : IO (Option Node) := do
  try
    let place ← IO.FS.realPath path
    match (← place.metadata).type with
    | .dir =>
      let mut entries : List Entry := []
      for found in ← place.readDir do
        let name : Text := found.fileName
        if (← found.path.isDir) || (SignatureFormat.ofName? name).isSome then
          if let some node ← observe found.path.toString then entries := node.named name :: entries
        else entries := .file name none :: entries
      return some (.directory entries)
    | .file => return some (.file (← readText? place.toString))
    | _ => return some (.special (← readSpecial place.toString))
  catch _ => return none

/-- The parts of a path in front of its slashes, the shortest first, and the path itself last. -/
def leadingParts (path : Text) : List Text :=
  ((List.range path.length).filter fun n => 0 < n && path[n]? == some '/').map path.take ++ [path]

/-- The files that a command may read, as they are now. -/
def snapshot (command : Command) : IO FileSystem := do
  let here : Text := (← IO.currentDir).toString
  let mut files : FileSystem := ⟨[], (Path.segments here).filter (!Path.isIdle ·)⟩
  files := files.write here (.directory [])
  for path in command.paths do
    for part in leadingParts path do
      match ← observe (String.ofList part) with
      | some (.directory inner) => if part = path then files := files.write part (.directory inner)
      | some node => files := files.write part node
      | none => pure ()
  return files

/-- Prints lines on the standard error output. -/
def complain (lines : List Text) : IO Unit := do
  for line in lines do IO.eprintln (String.ofList line)

/-- Runs the program and gives its exit code. -/
def runProgram (arguments : List String) : IO UInt32 := do
  match parse (arguments.map String.toList) with
  | .error e =>
    if e.exitCode = 0 then IO.println (String.ofList e.message) else complain [e.message]
    return UInt32.ofNat e.exitCode
  | .ok command =>
    match command.run (← snapshot command) with
    | .error e =>
      complain [e.message]
      return UInt32.ofNat e.exitCode
    | .ok outcome =>
      complain (outcome.log.map logLine)
      for line in outcome.stdout do IO.println (String.ofList line)
      complain outcome.stderr
      return UInt32.ofNat outcome.exitCode

end DocTypes.CommandLine

/-- The program. -/
def main (arguments : List String) : IO UInt32 := DocTypes.CommandLine.runProgram arguments
