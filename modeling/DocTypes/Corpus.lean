import DocTypes.Name

/-! # The documented corpus

The modules, classes, methods and constants of a project, as a tree under one root.  Entities stand
in the order in which they were declared and are known by their place in it (`EntityId`); the root
is the first.  Each knows its parent and, in order, its children.

Declaring (`define`) reuses a child that has the name already, when the two are of one kind or both
are namespaces; a namespace that is declared as a class is a class from then on.  Since an entity
is only ever declared below one that is there, a parent stands before its children, and
`lineage` reaches the root in as many steps as the place of the entity says.

A path names an entity from the root: `A::B` for namespaces and constants, `A::B#run` for
methods.  A child of the root is written by its name alone. -/

namespace DocTypes

/-- The place of an entity in the order of declaration. -/
abbrev EntityId := Nat

/-- What was declared. -/
inductive EntityKind where
  | root
  | moduleDef
  | classDef
  | methodDef
  | constantDef
  deriving DecidableEq

namespace EntityKind

/-- Whether entities of the kind contain other declarations. -/
def isNamespace : EntityKind → Bool
  | root | moduleDef | classDef => true
  | methodDef | constantDef => false

/-- The name of a kind. -/
def name : EntityKind → Text
  | root => "root"
  | moduleDef => "module"
  | classDef => "class"
  | methodDef => "method"
  | constantDef => "constant"

/-- The kind that a word of a declaration list stands for. -/
def ofKeyword? (word : Text) : Option EntityKind :=
  if word = "module" then some moduleDef
  else if word = "class" then some classDef
  else if word = "method" ∨ word = "def" then some methodDef
  else if word = "constant" ∨ word = "const" then some constantDef
  else none

/-- Whether declaring something of kind `new` may reuse an entity of kind `old`. -/
def merges (new old : EntityKind) : Bool :=
  old == new || (old.isNamespace && new.isNamespace)

end EntityKind

/-- A declared entity. -/
structure Entity where
  name : Text
  kind : EntityKind
  /-- The entity that this one is declared in; only the root has none. -/
  parent : Option EntityId
  /-- The entities declared directly in this one, in order. -/
  children : List EntityId
  deriving DecidableEq

/-- All entities of a project, in the order of declaration. -/
structure Corpus where
  entities : Array Entity
  deriving DecidableEq

namespace Corpus

/-- The place of the root. -/
def rootId : EntityId := 0

/-- The corpus that holds the root only. -/
def empty : Corpus := ⟨#[⟨[], .root, none, []⟩]⟩

/-- How many entities there are, the root included. -/
def size (c : Corpus) : Nat := c.entities.size

/-- The entity at a place. -/
def entity? (c : Corpus) (id : EntityId) : Option Entity := c.entities[id]?

/-! ## Walking down -/

/-- The children of an entity, in order. -/
def childrenOf (c : Corpus) (id : EntityId) : List EntityId :=
  match c.entity? id with
  | some e => e.children
  | none => []

/-- Whether the entity at a place has the name and one of the kinds that `accepts` allows. -/
def isCalled (c : Corpus) (name : Text) (accepts : EntityKind → Bool) (id : EntityId) : Bool :=
  match c.entity? id with
  | some e => e.name == name && accepts e.kind
  | none => false

/-- The first child of an entity with the name and one of the kinds that `accepts` allows. -/
def child? (c : Corpus) (id : EntityId) (name : Text) (accepts : EntityKind → Bool) :
    Option EntityId :=
  (c.childrenOf id).find? (c.isCalled name accepts)

/-- Follows names downwards, from child to child. -/
def descend? (c : Corpus) (accepts : EntityKind → Bool) (id : EntityId) :
    List Text → Option EntityId
  | [] => some id
  | name :: names =>
    match c.child? id name accepts with
    | some child => c.descend? accepts child names
    | none => none

/-! ## Walking up -/

/-- An entity and the ones it is declared in, outwards, for at most `steps` of them. -/
def lineageWithin (c : Corpus) : (steps : Nat) → EntityId → List EntityId
  | 0, _ => []
  | steps + 1, id =>
    match c.entity? id with
    | none => []
    | some e =>
      match e.parent with
      | none => [id]
      | some parent => id :: c.lineageWithin steps parent

/-- An entity and all the ones it is declared in, outwards up to the root. -/
def lineage (c : Corpus) (id : EntityId) : List EntityId := c.lineageWithin (id + 1) id

/-- The path of the first of several entities, each of which is declared in the next. -/
def pathOf : List Entity → Text
  | [] => []
  | [_] => []
  | e :: outer :: rest =>
    if outer.kind = .root then e.name
    else pathOf (outer :: rest) ++ (if e.kind = .methodDef then ['#'] else Name.separator) ++ e.name

/-- The path of an entity; that of the root is empty. -/
def path (c : Corpus) (id : EntityId) : Text := pathOf ((c.lineage id).filterMap c.entity?)

/-- Whether an entity is a namespace. -/
def isNamespaceAt (c : Corpus) (id : EntityId) : Bool :=
  match c.entity? id with
  | some e => e.kind.isNamespace
  | none => false

/-- Whether an entity is of the kind of the root. -/
def isRootAt (c : Corpus) (id : EntityId) : Bool :=
  match c.entity? id with
  | some e => e.kind == .root
  | none => false

/-- An entity and the ones it is declared in, from the nearest namespace outwards. -/
def nesting (c : Corpus) (id : EntityId) : List EntityId :=
  (c.lineage id).dropWhile fun outer => !c.isNamespaceAt outer

/-- The entity itself when it is a namespace, and otherwise the nearest one around it. -/
def namespaceOf (c : Corpus) (id : EntityId) : EntityId := (c.nesting id).headD rootId

/-! ## Declaring -/

/-- Changes the entity at a place. -/
def update (c : Corpus) (id : EntityId) (change : Entity → Entity) : Corpus :=
  ⟨c.entities.modify id change⟩

/-- Adds an entity at the end, as the last child of its parent. -/
def append (c : Corpus) (parent : EntityId) (name : Text) (kind : EntityKind) : Corpus :=
  -- The place of the new entity is the size before it was added.
  let grown : Corpus := ⟨c.entities.push ⟨name, kind, some parent, []⟩⟩
  grown.update parent fun e => { e with children := e.children ++ [c.size] }

@[simp] theorem size_update (c : Corpus) (id : EntityId) (change : Entity → Entity) :
    (c.update id change).size = c.size := by
  simp [update, size]

/-- Appending adds one entity, and its place is the old size. -/
@[simp] theorem size_append (c : Corpus) (parent : EntityId) (name : Text) (kind : EntityKind) :
    (c.append parent name kind).size = c.size + 1 := by
  simp [append, update, size]

/-- Declares a child of an entity: the corpus afterwards, and the place of the child. -/
def define (c : Corpus) (parent : EntityId) (name : Text) (kind : EntityKind) :
    Corpus × EntityId :=
  match c.child? parent name kind.merges with
  | some id =>
    (if kind = .classDef then c.update id fun e => { e with kind := .classDef } else c, id)
  | none => (c.append parent name kind, c.size)

/-- Declares modules, each in the one before. -/
def defineOwners (c : Corpus) (id : EntityId) : List Text → Corpus × EntityId
  | [] => (c, id)
  | name :: names =>
    let (c, id) := c.define id name .moduleDef
    c.defineOwners id names

/-- What a path says of an entity of some kind: the components that own it, and its name.  A method
stands after the last number sign, and anything else is the last component. -/
def ownerAndName (path : Text) (kind : EntityKind) : List Text × Text :=
  let path := path.dropLead Name.separator
  match kind, path.cutAtLast? (· == '#') with
  | .methodDef, some (owner, name) => (Name.properComponents owner, name)
  | _, _ =>
    let parts := Name.properComponents path
    (parts.dropLast, parts.getLast?.getD [])

/-- Declares an entity by its path: owners that are missing become modules. -/
def definePath (c : Corpus) (path : Text) (kind : EntityKind) : Corpus × EntityId :=
  let (owners, name) := ownerAndName path kind
  let (c, owner) := c.defineOwners rootId owners
  c.define owner name kind

/-! ## Looking up -/

/-- The kinds that a path may lead through. -/
def isPathStep : EntityKind → Bool
  | .moduleDef | .classDef | .constantDef => true
  | .root | .methodDef => false

/-- The entity of a path.  The empty path is that of the root, and what stands after the last
number sign is a method. -/
def find? (c : Corpus) (path : Text) : Option EntityId :=
  let path := path.dropLead Name.separator
  match path.cutAtLast? (· == '#') with
  | some (owner, name) => do
    let owner ← c.descend? isPathStep rootId (Name.properComponents owner)
    c.child? owner name (· == .methodDef)
  | none => c.descend? isPathStep rootId (Name.properComponents path)

/-- The places of all entities but the root, in order. -/
def ids (c : Corpus) : List EntityId := (List.range c.size).drop 1

/-- The kind and the path of every entity but the root, in order. -/
def listing (c : Corpus) : List (EntityKind × Text) :=
  c.ids.filterMap fun id => (c.entity? id).map fun e => (e.kind, c.path id)

/-- The name and the path of every module and class, in order. -/
def namespaces (c : Corpus) : List (EntityKind × Text × Text) :=
  c.ids.filterMap fun id =>
    match c.entity? id with
    | some e =>
      if e.kind = .moduleDef ∨ e.kind = .classDef then some (e.kind, e.name, c.path id) else none
    | none => none

end Corpus
end DocTypes
