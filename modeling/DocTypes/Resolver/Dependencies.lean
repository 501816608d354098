import DocTypes.Corpus
import DocTypes.Diagnostic
import DocTypes.Resolver.Index
import DocTypes.Signature.File
import DocTypes.Vocabulary.BuiltinClass

/-! # What the index is built from

Names come from three sources: the modules and classes of the corpus, the builtin classes of the
host, and the signature files of the dependencies.  Dependencies are an installed collection, all of
it in RBS, and directories of gems, each with a directory for either format.

A file that does not load adds no name, and its failure is reported; so is a collection that is not
there.  Neither keeps the rest from being read. -/

namespace DocTypes

/-- What there is to report about the dependencies. -/
inductive DependencyFinding where
  | missingCollection
  | unreadableFile (reason : SignatureError)
  deriving DecidableEq

namespace DependencyFinding

/-- A finding in words. -/
def message : DependencyFinding → Text
  | missingCollection =>
    "Could not load RBS collection - run rbs collection install for dependencies"
  | unreadableFile reason => "Skipping unreadable signature file: " ++ reason.message

/-- A finding is a warning, and about no entity. -/
def diagnostic (f : DependencyFinding) : Diagnostic := ⟨.warning, none, f.message⟩

end DependencyFinding

/-- Where the signature files of dependencies are. -/
structure Dependencies where
  /-- The directory of an installed collection. -/
  collection? : Option Text
  /-- The directories of gems. -/
  gems : List Text

/-- Names, and what there was to report while they were read. -/
structure Harvest where
  names : List KnownName
  findings : List DependencyFinding

namespace Harvest

/-- Two harvests, one after the other. -/
def append (a b : Harvest) : Harvest := ⟨a.names ++ b.names, a.findings ++ b.findings⟩

/-- All harvests, one after the other. -/
def concat (hs : List Harvest) : Harvest :=
  ⟨hs.flatMap (·.names), hs.flatMap (·.findings)⟩

/-- The harvest of the file at a path: all of its names, or the reason why there are none. -/
def ofFile (files : FileSystem) (path : Bytes) : Harvest :=
  match Signature.load files path with
  | .ok signatures => ⟨harvest signatures, []⟩
  | .error reason => ⟨[], [.unreadableFile reason]⟩

end Harvest

namespace Dependencies

/-- The signature files of the collection, or the report that there is no such directory. -/
def collectionFiles (d : Dependencies) (files : FileSystem) :
    List Bytes × List DependencyFinding :=
  match d.collection? with
  | none => ([], [])
  | some directory =>
    if (files.directory? directory).isSome then
      (Signature.discover files .rbs directory, [])
    else ([], [.missingCollection])

/-- The signature files of a gem. -/
def gemFiles (files : FileSystem) (gem : Text) : List Bytes :=
  [SignatureFormat.rbs, .rbi].flatMap fun format =>
    Signature.discover files format (Path.join gem format.directoryName)

/-- All signature files, those of the collection first. -/
def signatureFiles (d : Dependencies) (files : FileSystem) :
    List Bytes × List DependencyFinding :=
  let (paths, findings) := d.collectionFiles files
  (paths ++ d.gems.flatMap (gemFiles files), findings)

/-- The names of all dependencies. -/
def harvest (d : Dependencies) (files : FileSystem) : Harvest :=
  let (paths, findings) := d.signatureFiles files
  Harvest.append ⟨[], findings⟩ (Harvest.concat (paths.map (Harvest.ofFile files)))

end Dependencies

/-- The names of the modules and classes of a corpus. -/
def Corpus.knownNames (c : Corpus) : List KnownName :=
  c.namespaces.map fun (_, name, path) => ⟨name, path⟩

/-- The names of the builtin classes of a version. -/
def BuiltinClass.knownNames (version : RubyVersion) : List KnownName :=
  (BuiltinClass.names version).map fun name => ⟨name, name⟩

/-- The index over a corpus, a version of the host and dependencies, and what there was to report
while it was built. -/
def NameIndex.build (c : Corpus) (version : RubyVersion) (d : Dependencies) (files : FileSystem) :
    NameIndex × List DependencyFinding :=
  let harvest := d.harvest files
  (⟨c.knownNames ++ BuiltinClass.knownNames version ++ harvest.names⟩, harvest.findings)

end DocTypes
