import DocTypes.Corpus
import DocTypes.Vocabulary.BuiltinClass

/-! # Names in their scope

Does a name need qualification where it is written?  It does not when the scope's own path has it as
a component.  Otherwise it is followed downwards from the scope's namespace and from each namespace
around that, up to the root, and it resolves when this leads to exactly one path.  A builtin class
resolves only when it leads nowhere, since what the corpus declares comes first. -/

namespace DocTypes.Corpus

/-- The kinds that a component of a name may refer to. -/
def isNameStep : EntityKind → Bool
  | .classDef | .methodDef | .moduleDef => true
  | .root | .constantDef => false

/-- The given entities up to the first root. -/
def upToRoot (c : Corpus) : List EntityId → List EntityId
  | [] => []
  | id :: outer => if c.isRootAt id then [id] else id :: c.upToRoot outer

/-- The paths that a name leads to from a scope's namespace and the ones around it. -/
def lexicalPaths (c : Corpus) (scope : EntityId) (name : Text) : List Text :=
  (c.upToRoot (c.nesting scope)).filterMap fun outer =>
    (c.descend? isNameStep outer (Name.components name)).map c.path

/-- Whether a name without separators is a component of the path of the scope's namespace. -/
def isEnclosing (c : Corpus) (scope : EntityId) (name : Text) : Bool :=
  !Text.contains Name.separator name
    && (Name.components (c.path (c.namespaceOf scope))).contains name

/-- Whether a name written in a scope refers to exactly one thing without further
qualification. -/
def resolves (c : Corpus) (version : RubyVersion) (scope : EntityId) (name : Text) : Bool :=
  c.isEnclosing scope name ||
    let found := (c.lexicalPaths scope name).eraseDups
    if BuiltinClass.isName name version then found.isEmpty else found.length == 1

end DocTypes.Corpus
