import DocTypes.CommandLine.Arguments
import DocTypes.Corpus.File
import DocTypes.Diagnostic.Journal
import DocTypes.Resolver.Conversion

/-! # Running a command

A command is run on the files as they are, and its outcome is a value: an exit code, what is printed
on either stream, and the log.  Before anything else the arguments are made sense of, in order: the
corpus, the version, the scope, the selection of kinds.  If one of them fails there is nothing but
its message.

`convert` prints one line, the type, and fails when the type holds a placeholder; a summary counts
what was reported, whether it is logged or not.  `resolve` prints two lines and never fails. -/

namespace DocTypes.CommandLine

/-- Why a command cannot be run. -/
inductive SetupError where
  | corpus (reason : CorpusError)
  | version (text : Text)
  | scope (path : Text)
  | messageKind (name option : Text)
  deriving DecidableEq

/-- Why a command cannot be run, in words. -/
def SetupError.message : SetupError → Text
  | corpus reason => "Error loading declarations: " ++ reason.message
  | version text => "Error: invalid Ruby version " ++ text.quoted
  | scope path => "Error: scope `" ++ path ++ "` is not declared in the corpus"
  | messageKind name option =>
    "Error: " ++ name.quoted ++ " on your --" ++ option
      ++ " list is not a message kind. Valid options are: "
      ++ (", " : Text).intercalate (DiagnosticKind.all.map (·.name))

/-- The exit code of a command that cannot be run. -/
def SetupError.exitCode (_ : SetupError) : Nat := 2

/-- What running a command ends in. -/
structure Outcome where
  exitCode : Nat
  /-- The lines on the standard output. -/
  stdout : List Text
  /-- The lines on the standard error output. -/
  stderr : List Text
  log : List LogRow

/-! ## Setting up -/

/-- The corpus of a run. -/
def loadCorpus (files : FileSystem) (sources : Sources) : Except SetupError Corpus :=
  match sources.decls with
  | none => .ok Corpus.empty
  | some path =>
    match Corpus.load files path with
    | .ok corpus => .ok corpus
    | .error reason => .error (.corpus reason)

/-- The version of a run. -/
def chooseVersion (sources : Sources) : Except SetupError RubyVersion :=
  match sources.ruby with
  | none => .ok .default
  | some text =>
    match RubyVersion.ofText? text with
    | some version => .ok version
    | none => .error (.version text)

/-- The scope of a run, if one is given. -/
def findScope (corpus : Corpus) (sources : Sources) : Except SetupError (Option EntityId) :=
  match sources.scope with
  | none => .ok none
  | some path =>
    match corpus.find? path with
    | some entity => .ok (some entity)
    | none => .error (.scope path)

/-- The lowercase form of a letter, where it is one ASCII letter.  The Kelvin sign is the only
letter outside of the ASCII range that has such a form. -/
def lowered (c : Char) : Char := if c = '\u212A' then 'k' else c.toLower

/-- The kinds that are named in a list.  Case and blanks around a name do not count. -/
def namedKinds (option : Text) : List Text → Except SetupError (List DiagnosticKind)
  | [] => .ok []
  | name :: rest =>
    match DiagnosticKind.named? ((Text.trim name).map lowered) with
    | none => .error (.messageKind name option)
    | some kind =>
      match namedKinds option rest with
      | .ok kinds => .ok (kind :: kinds)
      | .error e => .error e

/-- The kinds that are logged. -/
def Selection.kinds : Selection → Except SetupError (List DiagnosticKind)
  | everything => .ok DiagnosticKind.all
  | including names =>
    match namedKinds "include-messages" names with
    | .ok kinds => .ok (if .completion ∈ kinds then kinds else kinds ++ [.completion])
    | .error e => .error e
  | excluding names =>
    match namedKinds "exclude-messages" names with
    | .ok kinds => .ok (DiagnosticKind.all.filter fun kind => !kinds.contains kind)
    | .error e => .error e

/-- What a command needs to know, made out from its arguments. -/
structure Setup where
  resolver : Resolver
  scope : Option EntityId
  journal : Journal

/-- Makes sense of the arguments. -/
def setUp (files : FileSystem) (sources : Sources) (selection : Selection) :
    Except SetupError Setup := do
  let corpus ← loadCorpus files sources
  let version ← chooseVersion sources
  let scope ← findScope corpus sources
  let kinds ← selection.kinds
  return ⟨.fresh corpus version ⟨sources.collection, sources.sigDirs⟩, scope, .opening kinds⟩

/-! ## Commands -/

/-- The line that counts what was reported, if there is anything to count. -/
def summary (journal : Journal) : List Text :=
  let warnings := journal.count .warning
  let inferred := journal.count .inference
  let ducks := journal.count .duckType
  if warnings + inferred + ducks = 0 then []
  else
    [Text.ofNat warnings ++ " warning(s), " ++ Text.ofNat inferred ++ " inferred, "
      ++ Text.ofNat ducks ++ " duck type(s)"]

/-- Converts an annotation; several texts are the alternatives of one annotation. -/
def runConvert (files : FileSystem) (types : List Text) (settings : Settings) (setup : Setup) :
    Outcome :=
  let tag : Annotation :=
    match types with
    | [only] => .one only
    | many => .many many
  let answer := setup.resolver.convert files settings setup.scope tag
  let journal := setup.journal.addAll answer.diagnostics
  ⟨if answer.value.containsError then 1 else 0, [answer.value.describe], summary journal,
    journal.log⟩

/-- What is known about the path of a name. -/
def pathLine (paths : List Text) : Text :=
  match Resolver.only? paths with
  | some path => "path: " ++ path
  | none =>
    if paths = [] then "path: <unknown>"
    else "path: <ambiguous> (" ++ (", " : Text).intercalate paths ++ ")"

/-- Shows whether a name resolves from the scope, or from the root, and what path it would be taken
for. -/
def runResolve (files : FileSystem) (name : Text) (setup : Setup) : Outcome :=
  let prepared := setup.resolver.prepare files
  let resolver := prepared.resolver
  let resolves := resolver.resolves (setup.scope.getD Corpus.rootId) name
  let paths := resolver.pathsFor files name
  let journal := setup.journal.addAll (prepared.diagnostics ++ paths.diagnostics)
  ⟨0, ["resolvable: " ++ (if resolves then "true" else "false"), pathLine paths.value], [],
    journal.log⟩

/-- Runs a command on the files as they are. -/
def Command.run (files : FileSystem) : Command → Except SetupError Outcome
  | convert types settings sources selection => do
    return runConvert files types settings (← setUp files sources selection)
  | resolve name sources selection => do
    return runResolve files name (← setUp files sources selection)

end DocTypes.CommandLine
