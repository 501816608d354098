import DocTypes.Text.Basic

/-! # Containers with a meaning of their own

Seven class names mean a container when they stand in an annotation.  They differ in how many
element types they take (`Arity`), and that decides what becomes of parameters in excess: they are
alternatives of one element type, or an error, or one class each. -/

namespace DocTypes

/-- Whether a vocabulary entry may still be used. -/
inductive Stability where
  | stable
  | deprecated
  deriving DecidableEq

/-- How many element types a container takes. -/
inductive Arity where
  /-- One; further parameters are alternatives for it. -/
  | single
  /-- A key and a value. -/
  | keyValue
  /-- One instance type; further parameters are classes of their own. -/
  | singleton
  deriving DecidableEq

/-- The containers that annotations know by name. -/
inductive Container where
  | array | set | enumerable | enumerator | range | hash | classObject
  deriving DecidableEq

namespace Container

/-- Every container, in the order of the vocabulary. -/
def all : List Container := [array, set, enumerable, enumerator, range, hash, classObject]

/-- The name of a container. -/
def name : Container → Text
  | array => "Array"
  | set => "Set"
  | enumerable => "Enumerable"
  | enumerator => "Enumerator"
  | range => "Range"
  | hash => "Hash"
  | classObject => "Class"

/-- How many element types a container takes. -/
def arity : Container → Arity
  | hash => .keyValue
  | classObject => .singleton
  | _ => .single

/-- What a container is, in a sentence. -/
def description : Container → Text
  | array => "Ordered, growable list."
  | set => "Unordered collection of unique elements."
  | enumerable => "Anything that yields elements through `each`."
  | enumerator => "External or lazy iterator over elements."
  | range => "Interval between two endpoints."
  | hash => "Key/value map."
  | classObject => "The class object of a type rather than an instance of it."

/-- No container is deprecated. -/
def stability (_ : Container) : Stability := .stable

/-- The container of a name.  Case matters. -/
def named? (name : Text) : Option Container := all.find? (·.name == name)

end Container
end DocTypes
