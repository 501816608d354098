import DocTypes.Annotation.Brackets
import DocTypes.Annotation.Literal
import DocTypes.Text.Blank

/-! # The shapes of annotations

Annotations write one idea in several ways: `Hash<K, V>`, `Hash{K => V}` and `{K => V}` are all a
map.  `Shape.of` says in which way a trimmed annotation is written, before anything is said
about its meaning.  Each shape has a recognizer of its own, and they are tried in a fixed order:
identifier, duck type, generic, ordered list, the two shorthands, literal. -/

namespace DocTypes

/-- The way an annotation is written. -/
inductive Shape where
  /-- A constant path. -/
  | identifier (name : Text)
  /-- Methods that are asked for, with the number sign in front of each. -/
  | duckType (methods : List Text)
  /-- A name with parameters in angle brackets or braces. -/
  | generic (name parameters : Text)
  /-- Parameters in parentheses, with or without the word `Array` in front. -/
  | orderedList (parameters : Text)
  /-- Parameters in braces. -/
  | shorthandHash (parameters : Text)
  /-- Parameters in angle brackets. -/
  | shorthandArray (parameters : Text)
  /-- A symbol or a number. -/
  | literal (kind : LiteralKind)
  /-- None of these. -/
  | unrecognized
  deriving DecidableEq

namespace Shape

/-- Whether a text is a number sign followed by the name of a method. -/
def isDuckAtom : Text → Bool
  | '#' :: method => isMethodName method
  | _ => false

/-- The methods of a duck type, joined by ampersands with blanks around them.  The ampersand
itself is a method only when nothing else is asked for. -/
def duckAtoms? (t : Text) : Option (List Text) :=
  if t = "#&" then some [t]
  else
    let atoms := (Text.pieces (· == '&') t).map Text.trim
    if atoms.all isDuckAtom then some atoms else none

/-- The name and the parameters of a generic. -/
def genericParts? (t : Text) : Option (Text × Text) :=
  let length := Name.pathLength t
  if length = 0 then none
  else
    let name := t.take length
    let rest := Text.trimStart (t.drop length)
    match Brackets.enclosed? '<' '>' rest with
    | some parameters => some (name, parameters)
    | none => (Brackets.enclosed? '\x7b' '\x7d' rest).map fun parameters => (name, parameters)

/-- The parameters of an ordered list. -/
def orderedListParameters? (t : Text) : Option Text :=
  Brackets.enclosed? '(' ')' (t.dropLead "Array")

/-- The parameters of a map without a name. -/
def shorthandHashParameters? (t : Text) : Option Text := Brackets.enclosed? '\x7b' '\x7d' t

/-- The parameters of a list without a name. -/
def shorthandArrayParameters? (t : Text) : Option Text := Brackets.enclosed? '<' '>' t

/-- The shape of a trimmed annotation: that of the first recognizer to accept it. -/
def of (t : Text) : Shape :=
  if Name.isSimple t then identifier t
  else if let some methods := duckAtoms? t then duckType methods
  else if let some (name, parameters) := genericParts? t then generic name parameters
  else if let some parameters := orderedListParameters? t then orderedList parameters
  else if let some parameters := shorthandHashParameters? t then shorthandHash parameters
  else if let some parameters := shorthandArrayParameters? t then shorthandArray parameters
  else if let some kind := Literal.kind? t then literal kind
  else unrecognized

end Shape
end DocTypes
