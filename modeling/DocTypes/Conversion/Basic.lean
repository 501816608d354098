import DocTypes.Annotation.Parameters
import DocTypes.Annotation.Shape
import DocTypes.Conversion.Traced
import DocTypes.TypeExpr
import DocTypes.Vocabulary.Interface
import DocTypes.Vocabulary.Keyword

/-! # From annotations to types

Every annotation has a type.  A text that no rule understands becomes a placeholder, or `untyped` if
the settings ask for that, and is reported.

Words that are no names come first: truth values, `self` inside a scope, and `nil`.  What is left
is read by its shape.  `convertTrimmed` gives the meaning of one text in terms of a function that
converts the parameters inside it, and `convertText` ties the knot with an allowance of nested
brackets, one less at each level: what lies deeper than `maxNesting` levels is not looked into.

All that a conversion knows about its surroundings is a `Scope`.  Without one no name is looked up,
and the type depends on the text alone. -/

namespace DocTypes

/-- The format that types are meant for. -/
inductive Dialect where
  | rbi
  | rbs
  deriving DecidableEq

/-- The name that a dialect has for the type of `nil`. -/
def Dialect.nilName : Dialect → Text
  | rbi => Keyword.nilClass
  | rbs => Keyword.nilWord

/-- How annotations are converted. -/
structure Settings where
  /-- Whether `untyped` takes the place of placeholders. -/
  replaceErrors : Bool
  /-- Whether `untyped` takes the place of names that are not found. -/
  replaceUnresolved : Bool
  dialect : Dialect
  deriving DecidableEq

/-- The type annotation of a parameter, a return value, an attribute or a constant. -/
inductive Annotation where
  /-- There is none. -/
  | absent
  /-- A single text. -/
  | one (text : Text)
  /-- Several texts, each an alternative. -/
  | many (texts : List Text)

/-- The surroundings of an annotation. -/
structure Scope where
  /-- The path of the entity that the annotation belongs to. -/
  path : Text
  /-- Whether a name resolves here by itself. -/
  resolves : Text → Bool
  /-- The only known path that ends in a name. -/
  pathFor? : Text → Option Text

namespace Conversion

/-- How many levels of brackets an annotation may nest. -/
def maxNesting : Nat := 128

/-! ## Parts -/

variable (settings : Settings)

/-- A placeholder for a text, or what stands for it. -/
def placeholder (text : Text) : TypeExpr :=
  if settings.replaceErrors then .untyped else .error text

/-- Reports a fault and goes on with a placeholder. -/
def fail (text : Text) (fault : Finding) : Traced TypeExpr := do
  Traced.report fault
  return placeholder settings text

/-- Looks a name up in a scope.  A name that does not resolve by itself is taken for the only known
path that ends in it, if there is one. -/
def lookUp (scope : Scope) (name : Text) : Traced TypeExpr :=
  if scope.resolves name then pure (.raw name)
  else do
    Traced.askIndexIf (!Name.isAbsolute name)
    match scope.pathFor? name with
    | some path => do
      Traced.reportIf (path != name) (.inferred name path)
      return .raw path
    | none => do
      Traced.report (.unresolved name settings.replaceUnresolved)
      return if settings.replaceUnresolved then .untyped else .raw name

/-- Reports a name that looks like that of a variable. -/
def checkConstant (name : Text) : Traced Unit :=
  Traced.reportIf (Name.looksLikeVariable name) (.notAConstant name)

/-- The type of a container without parameters, which holds anything.  The class object is no such
container but a class as any other. -/
def bareContainer? (name : Text) : Option TypeExpr :=
  match Container.named? name with
  | none => none
  | some kind =>
    match kind.arity with
    | .single => some (.container kind [.untyped])
    | .keyValue => some (.hash .untyped .untyped)
    | .singleton => none

/-- The type of a bare name. -/
def convertName (scope : Option Scope) (name : Text) : Traced TypeExpr :=
  match bareContainer? name with
  | some type => pure type
  | none => do
    checkConstant name
    match scope with
    | none => return .raw name
    | some scope => lookUp settings scope name

/-- The interface that stands for the methods of a duck type.  Only RBS has interfaces, and only for
single methods. -/
def interfaceFor? (dialect : Dialect) (methods : List Text) : Option Interface :=
  match dialect, methods with
  | .rbs, [method] => Interface.forMethod? method
  | _, _ => none

/-- An interface as a type, with anything for its parameters. -/
def interfaceType (interface : Interface) : TypeExpr :=
  if interface.parameters = 0 then .raw interface.name
  else .generic (.raw interface.name) (List.replicate interface.parameters .untyped)

/-- The type of a duck type. -/
def convertDuckType (text : Text) (methods : List Text) : Traced TypeExpr :=
  match interfaceFor? settings.dialect methods with
  | some interface => do
    let type := interfaceType interface
    Traced.report (.duckReplaced text type.describe)
    return type
  | none => do
    Traced.report (.duckDropped text)
    return .untyped

/-- The map of a key and a value.  Any other number of types is a fault, whose placeholder shows
them. -/
def hashOf (text : Text) : List TypeExpr → Traced TypeExpr
  | [key, value] => pure (.hash key value)
  | types => fail settings (types.flatMap (·.describe)) (.invalidHash text)

/-- A container of the vocabulary over its parameters. -/
def applyContainer (text : Text) (kind : Container) (types : List TypeExpr) : Traced TypeExpr :=
  match kind.arity with
  | .single =>
    if 1 < types.length then pure (.container kind [.anyOf types]) else pure (.container kind types)
  | .singleton =>
    match types with
    | [type] => pure (.classOf type)
    | types => pure (.anyOf (types.map .classOf))
  | .keyValue => hashOf settings text types

/-! ## One text -/

/-- The types of a list of parameters, one for each group: the alternatives of the group, each
converted by `inner`. -/
def convertParameters (inner : Text → Traced TypeExpr) (parameters : Text) :
    Traced (List TypeExpr) :=
  Traced.all ((Parameters.split parameters).map fun group => do
    return .anyOf (← Traced.all (group.map inner)))

/-- The type of a name with parameters.  A name that is no container is kept as it is, without
being looked up. -/
def convertGeneric (inner : Text → Traced TypeExpr) (text name parameters : Text) :
    Traced TypeExpr :=
  match Container.named? name with
  | some kind => do applyContainer settings text kind (← convertParameters inner parameters)
  | none =>
    if Keyword.isBoolean name || Keyword.isNil name || Keyword.isSelf name then
      fail settings name (.unsupportedGeneric name text)
    else do
      checkConstant name
      return .generic (.raw name) (← convertParameters inner parameters)

/-- The type of a trimmed text, when `inner` converts what is inside its brackets. -/
def convertTrimmed (scope : Option Scope) (inner : Text → Traced TypeExpr) (text : Text) :
    Traced TypeExpr :=
  if Keyword.isBoolean text then pure .boolean
  else if Keyword.isSelf text && scope.isSome then pure .selfType
  else if Keyword.isNil text then pure (.raw settings.dialect.nilName)
  else
    match Shape.of text with
    | .identifier name => convertName settings scope name
    | .duckType methods => convertDuckType settings text methods
    | .generic name parameters => convertGeneric settings inner text name parameters
    | .orderedList parameters => do return .tuple (← convertParameters inner parameters)
    | .shorthandHash parameters => do hashOf settings text (← convertParameters inner parameters)
    | .shorthandArray parameters => do
      return .array (.anyOf (← convertParameters inner parameters))
    | .literal kind => pure (.raw kind.className)
    | .unrecognized => fail settings text (.notAType text)

/-- The type of a text, with an allowance of levels of brackets. -/
def convertText (scope : Option Scope) : (allowance : Nat) → Text → Traced TypeExpr
  | 0, text => fail settings (Text.trim text) (.nestedTooDeep maxNesting)
  | allowance + 1, text =>
    convertTrimmed settings scope (convertText scope allowance) (Text.trim text)

/-- The type of a text outside of all brackets. -/
def convertOne (scope : Option Scope) (text : Text) : Traced TypeExpr :=
  convertText settings scope (maxNesting + 1) text

/-! ## Several texts -/

/-- Whether a text is `nil`, blanks around it aside. -/
def isNilEntry (text : Text) : Bool := Keyword.isNil (Text.trim text)

/-- Whether two texts are the two truth values. -/
def isBooleanPair : List Text → Bool
  | [a, b] =>
    (Text.trim a == "true" && Text.trim b == "false")
      || (Text.trim a == "false" && Text.trim b == "true")
  | _ => false

/-- The type of several alternatives, when `one` converts each.  An alternative `nil` makes the others
nilable. -/
def convertMany (one : Text → Traced TypeExpr) (texts : List Text) : Traced TypeExpr :=
  if isBooleanPair texts then pure .boolean
  else do
    let types ← Traced.all ((texts.filter (!isNilEntry ·)).map one)
    let type := TypeExpr.anyOf types
    return if texts.any isNilEntry then type.orNil else type

/-- The type of an annotation, when `one` converts its texts. -/
def convertWith (one : Text → Traced TypeExpr) : Annotation → Traced TypeExpr
  | .absent => pure .untyped
  | .one text => one text
  | .many texts => convertMany one texts

/-- The type of an annotation. -/
def convert (scope : Option Scope) (tag : Annotation) : Traced TypeExpr :=
  convertWith (convertOne settings scope) tag

end Conversion
end DocTypes
