import DocTypes.Conversion.Basic

/-! # Arguments of the command line

There are two commands.  `convert` takes texts of annotations, `resolve` takes one name, and both
take options that say where names come from and what is logged.

The grammar is that of long options.  An option with a value has it attached by an equals sign or
takes the next argument, which must not look like an option.  Everything after `--` is an operand.
An option that stands for one value may be given once, and one for a list of values repeatedly.

A value that comes as an argument of its own stays *pending* until something else is complete: only
then is it checked, so that an unknown option after it is reported first. -/

namespace DocTypes.CommandLine

/-- Why arguments are no command, or no command is to be run. -/
inductive UsageError where
  /-- An operand is missing. -/
  | missingOperand
  /-- There is no such option, or an operand too many. -/
  | unknownArgument
  /-- Two options exclude each other, or one is given twice. -/
  | conflict
  /-- There is no such command. -/
  | unknownCommand
  /-- An option lacks its value. -/
  | missingValue
  /-- An option that takes no value has one. -/
  | unexpectedValue
  /-- Help is asked for. -/
  | help
  /-- The version is asked for. -/
  | version
  /-- Nothing at all is asked for. -/
  | nothingAsked
  deriving DecidableEq

/-- Help and the version are no failure. -/
def UsageError.exitCode : UsageError → Nat
  | help | version => 0
  | _ => 2

/-- The commands. -/
inductive CommandName where
  | convert
  | resolve
  deriving DecidableEq

namespace CommandName

/-- The command that a word names. -/
def ofWord? (word : Text) : Option CommandName :=
  if word = "convert" then some convert else if word = "resolve" then some resolve else none

end CommandName

/-- The options that take a value. -/
inductive ValueOption where
  | decls
  | scope
  | sigDir
  | collection
  | ruby
  | includeMessages
  | excludeMessages
  deriving DecidableEq

namespace ValueOption

/-- The option of a name, without its dashes. -/
def named? (name : Text) : Option ValueOption :=
  if name = "decls" then some decls
  else if name = "scope" then some scope
  else if name = "sig-dir" then some sigDir
  else if name = "collection" then some collection
  else if name = "ruby" then some ruby
  else if name = "include-messages" then some includeMessages
  else if name = "exclude-messages" then some excludeMessages
  else none

end ValueOption

/-- The options that take no value. -/
inductive Switch where
  | help
  | rbs
  | replaceErrors
  | replaceUnresolved
  deriving DecidableEq

namespace Switch

/-- The switch of a name, without its dashes, that a command knows. -/
def named? (command : CommandName) (name : Text) : Option Switch :=
  if name = "help" then some help
  else
    match command with
    | .resolve => none
    | .convert =>
      if name = "rbs" then some rbs
      else if name = "replace-errors-with-untyped" then some replaceErrors
      else if name = "replace-unresolved-with-untyped" then some replaceUnresolved
      else none

end Switch

/-- What was read so far. -/
structure Reading where
  operands : List Text := []
  decls : Option Text := none
  scope : Option Text := none
  sigDirs : List Text := []
  collection : Option Text := none
  ruby : Option Text := none
  included : Option (List Text) := none
  excluded : Option (List Text) := none
  rbs : Bool := false
  replaceErrors : Bool := false
  replaceUnresolved : Bool := false
  /-- An option that is not complete, with its value once that was read. -/
  pending : Option (ValueOption × Option Text) := none

namespace Reading

/-- The value of an option that may be given once. -/
def single (old : Option Text) (value : Text) : Except UsageError (Option Text) :=
  match old with
  | some _ => .error .conflict
  | none => .ok (some value)

/-- A value that has to be the path of a file. -/
def filePath (value : Text) : Except UsageError Text :=
  if value = [] then .error .missingValue else .ok value

/-- The names in a list with commas, after those of an earlier list. -/
def extendNames (old : Option (List Text)) (value : Text) : Option (List Text) :=
  some (old.getD [] ++ value.pieces (· == ','))

/-- Gives an option its value. -/
def assign (r : Reading) (option : ValueOption) (value : Text) : Except UsageError Reading :=
  match option with
  | .decls => do
    -- That the option is given twice outweighs what its value is.
    let _ ← single r.decls value
    return { r with decls := some (← filePath value) }
  | .scope => do return { r with scope := ← single r.scope value }
  | .sigDir => do return { r with sigDirs := r.sigDirs ++ [← filePath value] }
  | .collection => do
    let _ ← single r.collection value
    return { r with collection := some (← filePath value) }
  | .ruby => do return { r with ruby := ← single r.ruby value }
  | .includeMessages => .ok { r with included := extendNames r.included value }
  | .excludeMessages => .ok { r with excluded := extendNames r.excluded value }

/-- Completes the pending option. -/
def settle (r : Reading) : Except UsageError Reading :=
  match r.pending with
  | none => .ok r
  | some (_, none) => .error .missingValue
  | some (option, some value) => { r with pending := none }.assign option value

/-- Turns a switch on. -/
def turnOn (r : Reading) : Switch → Except UsageError Reading
  | .help => .error .help
  | .rbs => if r.rbs then .error .conflict else .ok { r with rbs := true }
  | .replaceErrors =>
    if r.replaceErrors then .error .conflict else .ok { r with replaceErrors := true }
  | .replaceUnresolved =>
    if r.replaceUnresolved then .error .conflict else .ok { r with replaceUnresolved := true }

/-- Reads an operand.  Only `convert` takes more than one. -/
def operand (command : CommandName) (r : Reading) (t : Text) : Except UsageError Reading :=
  match command, r.operands with
  | .resolve, _ :: _ => .error .unknownArgument
  | _, _ => do
    let r ← r.settle
    return { r with operands := r.operands ++ [t] }

/-- Reads a long option, given without its dashes. -/
def longOption (command : CommandName) (r : Reading) (body : Text) : Except UsageError Reading :=
  let (name, attached) :=
    match body.cutAtFirst? (· == '=') with
    | some (name, value) => (name, some value)
    | none => (body, none)
  match ValueOption.named? name, Switch.named? command name, attached with
  | some option, _, some value => do (← r.settle).assign option value
  | some option, _, none => do return { ← r.settle with pending := some (option, none) }
  | none, some _, some _ => .error .unexpectedValue
  | none, some switch, none => do (← r.settle).turnOn switch
  | none, none, _ => .error .unknownArgument

/-- Whether an argument begins like a short option.  A dash by itself does not. -/
def isShort : Text → Bool
  | '-' :: _ :: _ => true
  | _ => false

/-- Reads one argument before `--`. -/
def argument (command : CommandName) (r : Reading) (t : Text) : Except UsageError Reading :=
  match t.after? "--" with
  | some body => r.longOption command body
  | none =>
    if isShort t then
      if t.startsWith "-h" then do (← r.settle).turnOn .help else .error .unknownArgument
    else
      match r.pending with
      -- The value is only looked at when something else is complete.
      | some (option, none) => .ok { r with pending := some (option, some t) }
      | _ => r.operand command t

/-- Reads the arguments of a command. -/
def arguments (command : CommandName) (r : Reading) : List Text → Except UsageError Reading
  | [] => r.settle
  | t :: rest =>
    if t = "--" then do (← rest.foldlM (operand command) r).settle
    else do (← r.argument command t).arguments command rest

end Reading

/-- Where names come from. -/
structure Sources where
  /-- The file that lists the corpus. -/
  decls : Option Text
  /-- The path of the entity that is the scope. -/
  scope : Option Text
  /-- The directories of gems. -/
  sigDirs : List Text
  /-- The directory of an installed collection. -/
  collection : Option Text
  /-- The version of the host. -/
  ruby : Option Text

/-- Which kinds of diagnostics are logged, by name. -/
inductive Selection where
  /-- All of them. -/
  | everything
  /-- These, and that some work came to its end. -/
  | including (names : List Text)
  /-- All but these. -/
  | excluding (names : List Text)

/-- A command to run. -/
inductive Command where
  | convert (types : List Text) (settings : Settings) (sources : Sources) (selection : Selection)
  | resolve (name : Text) (sources : Sources) (selection : Selection)

namespace Reading

/-- Where names come from, as it was read. -/
def sources (r : Reading) : Sources := ⟨r.decls, r.scope, r.sigDirs, r.collection, r.ruby⟩

/-- The selection that was read.  There are two ways to make one, which exclude each other. -/
def selection (r : Reading) : Except UsageError Selection :=
  match r.included, r.excluded with
  | some _, some _ => .error .conflict
  | some names, none => .ok (.including names)
  | none, some names => .ok (.excluding names)
  | none, none => .ok .everything

/-- The settings that were read. -/
def settings (r : Reading) : Settings :=
  ⟨r.replaceErrors, r.replaceUnresolved, if r.rbs then .rbs else .rbi⟩

/-- The command that was read. -/
def command (name : CommandName) (r : Reading) : Except UsageError Command := do
  let selection ← r.selection
  match name, r.operands with
  | _, [] => .error .missingOperand
  | .convert, types => return .convert types r.settings r.sources selection
  | .resolve, name :: _ => return .resolve name r.sources selection

end Reading

/-- What asking for help ends in.  Help on one command is help, and there are none below it. -/
def helpOn : List Text → UsageError
  | [] => .help
  | [word] => if (CommandName.ofWord? word).isSome ∨ word = "help" then .help else .unknownCommand
  | _ => .unknownCommand

/-- What an option in front of the command ends in. -/
def leadingOption (body : Text) : UsageError :=
  if body = "help" then .help
  else if body = "version" then .version
  else if body.startsWith "help=" ∨ body.startsWith "version=" then .unexpectedValue
  else .unknownArgument

/-- What operands without a command end in. -/
def withoutCommand : List Text → UsageError
  | [] => .nothingAsked
  | word :: _ =>
    if (CommandName.ofWord? word).isSome ∨ word = "help" then .unknownArgument else .unknownCommand

/-- The command that arguments ask for. -/
def parse : List Text → Except UsageError Command
  | [] => .error .nothingAsked
  | word :: rest =>
    match CommandName.ofWord? word with
    | some name => do (← ({} : Reading).arguments name rest).command name
    | none =>
      -- In front of a command only help and the version may be asked for.
      if word = "help" then .error (helpOn rest)
      else if word = "--" then .error (withoutCommand rest)
      else
        match word.after? "--" with
        | some body => .error (leadingOption body)
        | none =>
          if !Reading.isShort word then .error .unknownCommand
          else if word.startsWith "-h" then .error .help
          else if word.startsWith "-V" then .error .version
          else .error .unknownArgument

end DocTypes.CommandLine
