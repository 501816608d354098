import DocTypes.Resolver.Dependencies
import DocTypes.Resolver.Lexical

/-! # Resolvers

A resolver answers what a name refers to: whether it resolves in its scope (`resolves`), and if not,
which single known path ends in it (`pathFor?`).

The second question needs the index.  It is built when it is first asked for and kept until the
resolver is cleared, whatever becomes of the files meanwhile; what there is to report about the
dependencies is reported then and only then.  So each operation that may build the index takes the
files as they are and gives an `Answer`: a value, the diagnostics of this operation, and the
resolver afterwards.  An absolute name is its own path, and asking for it needs no index. -/

namespace DocTypes

/-- Where names are looked up, and the index if there is one by now. -/
structure Resolver where
  corpus : Corpus
  version : RubyVersion
  dependencies : Dependencies
  index? : Option NameIndex

/-- What an operation on a resolver gives. -/
structure Answer (α : Type) where
  value : α
  /-- What was reported during the operation. -/
  diagnostics : List Diagnostic
  /-- The resolver after the operation. -/
  resolver : Resolver

/-- The answer with another value. -/
def Answer.map {α β : Type} (f : α → β) (a : Answer α) : Answer β :=
  ⟨f a.value, a.diagnostics, a.resolver⟩

namespace Resolver

/-- A resolver that has no index yet. -/
def fresh (corpus : Corpus) (version : RubyVersion) (dependencies : Dependencies) : Resolver :=
  ⟨corpus, version, dependencies, none⟩

/-- The index over the files as they are, and what there is to report about them. -/
def build (r : Resolver) (files : FileSystem) : NameIndex × List DependencyFinding :=
  NameIndex.build r.corpus r.version r.dependencies files

/-- The index, built if it is not there yet. -/
def index (r : Resolver) (files : FileSystem) : Answer NameIndex :=
  match r.index? with
  | some index => ⟨index, [], r⟩
  | none =>
    let (index, findings) := r.build files
    ⟨index, findings.map (·.diagnostic), { r with index? := some index }⟩

/-- Builds the index if it is not there yet. -/
def prepare (r : Resolver) (files : FileSystem) : Answer Unit := (r.index files).map fun _ => ()

/-- Forgets the index. -/
def clear (r : Resolver) : Resolver := { r with index? := none }

/-- Whether there is an index. -/
def isPrepared (r : Resolver) : Bool := r.index?.isSome

/-- How many names are known. -/
def knownNames (r : Resolver) (files : FileSystem) : Answer Nat := (r.index files).map (·.size)

/-- All known paths that end in a name, in order. -/
def pathsFor (r : Resolver) (files : FileSystem) (name : Text) : Answer (List Text) :=
  if Name.isAbsolute name then ⟨[name], [], r⟩
  else (r.index files).map fun index => index.pathsFor name

/-- The only one of several paths. -/
def only? : List Text → Option Text
  | [path] => some path
  | _ => none

/-- The known path that ends in a name, when there is exactly one. -/
def pathFor? (r : Resolver) (files : FileSystem) (name : Text) : Answer (Option Text) :=
  (r.pathsFor files name).map only?

/-- The names of the builtin classes of the host. -/
def builtinNames (r : Resolver) : List Text := BuiltinClass.names r.version

/-- Whether a name is that of a builtin class of the host. -/
def isBuiltin (r : Resolver) (name : Text) : Bool := BuiltinClass.isName name r.version

/-- Whether a name written in a scope refers to exactly one thing without further
qualification. -/
def resolves (r : Resolver) (scope : EntityId) (name : Text) : Bool :=
  r.corpus.resolves r.version scope name

end Resolver
end DocTypes
