import DocTypes.Files.Path
import DocTypes.Name

/-! # Signatures

A dependency describes its types in signature files, in one of two formats (`SignatureFormat`).  Of
such a file only the modules, classes, constants and interfaces count, and how they are nested
(`Signature`).  `harvest` lists the names that they declare, each with its full path. -/

namespace DocTypes

/-- A format of signature files. -/
inductive SignatureFormat where
  | rbs
  | rbi
  deriving DecidableEq

namespace SignatureFormat

/-- The extension of files in the format. -/
def fileExtension : SignatureFormat → Text
  | rbs => "rbs"
  | rbi => "rbi"

/-- The directory of a dependency that holds files in the format. -/
def directoryName : SignatureFormat → Text
  | rbs => "sig"
  | rbi => "rbi"

/-- The format that an extension tells. -/
def ofExtension? (ext : Bytes) : Option SignatureFormat :=
  if ext = "rbs" then some rbs else if ext = "rbi" then some rbi else none

/-- The format of a file of the given name. -/
def ofName? (name : Bytes) : Option SignatureFormat :=
  (Path.extensionOfName? name).bind ofExtension?

/-- The format of the file at a path. -/
def ofPath? (path : Bytes) : Option SignatureFormat := (Path.extension? path).bind ofExtension?

end SignatureFormat

/-- What a signature declares. -/
inductive SignatureKind where
  | moduleDef
  | classDef
  | constantDef
  | interfaceDef
  deriving DecidableEq

/-- The name of a kind. -/
def SignatureKind.name : SignatureKind → Text
  | moduleDef => "module"
  | classDef => "class"
  | constantDef => "constant"
  | interfaceDef => "interface"

/-- A declaration of a signature file, with the declarations in it. -/
inductive Signature where
  | node (kind : SignatureKind) (name : Text) (members : List Signature)

namespace Signature

/-- A declaration without members. -/
def leaf (kind : SignatureKind) (name : Text) : Signature := node kind name []

end Signature

/-! ## The names that signatures declare -/

/-- A name and the full path of what it names. -/
structure KnownName where
  name : Text
  path : Text
  deriving DecidableEq

/-- The path, as components, of something that is declared by the given name in `outer`.  A name
with a separator in front begins at the top level. -/
def extendPath (outer : List Text) (name : Text) : List Text :=
  (if Name.isAbsolute name then [] else outer) ++ Name.properComponents name

mutual

/-- The names that a declaration in `outer` adds, its own before those of its members.  Interfaces
are not looked into. -/
def Signature.harvestIn (outer : List Text) : Signature → List KnownName
  | .node kind name members =>
    if kind = .interfaceDef then []
    else
      let path := extendPath outer name
      match path.getLast? with
      | none => []
      | some simple => ⟨simple, Name.join path⟩ :: harvestAllIn path members

/-- The names that several declarations in `outer` add. -/
def harvestAllIn (outer : List Text) : List Signature → List KnownName
  | [] => []
  | s :: rest => s.harvestIn outer ++ harvestAllIn outer rest

end

/-- The names that the declarations of a file add. -/
def harvest (signatures : List Signature) : List KnownName := harvestAllIn [] signatures

end DocTypes
