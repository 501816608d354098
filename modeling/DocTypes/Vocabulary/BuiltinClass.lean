import DocTypes.Vocabulary.Container
import DocTypes.Vocabulary.Version

/-! # Classes that every program has

`BuiltinClass.all` lists the classes that the host defines at the top level, each with the first
version that has it and the first that no longer has it.  Modules are not in the list, and a
class is known by its simple name only: `::String` is not a builtin name. -/

namespace DocTypes

/-- A class that the host defines. -/
structure BuiltinClass where
  name : Text
  /-- The first version with the class, if not every early one has it. -/
  since? : Option RubyVersion
  /-- The first version without the class, if some later one lacks it. -/
  removedIn? : Option RubyVersion

namespace BuiltinClass

/-- A class of every version. -/
def always (name : Text) : BuiltinClass := ⟨name, none, none⟩

/-- A class of every version from the given one on. -/
def since (name : Text) (version : RubyVersion) : BuiltinClass := ⟨name, some version, none⟩

/-- A class of every version older than the given one. -/
def upTo (name : Text) (version : RubyVersion) : BuiltinClass := ⟨name, none, some version⟩

/-- The builtin classes, in alphabetical order. -/
def all : List BuiltinClass :=
  [always "ArgumentError", always "Array", always "BasicObject", upTo "Bignum" ⟨3, 2⟩,
   always "Binding", always "Class", always "ClosedQueueError", always "Complex",
   always "ConditionVariable", since "Data" ⟨3, 2⟩, always "Dir", always "EOFError",
   always "Encoding", always "EncodingError", always "Enumerator", always "Exception",
   always "FalseClass", always "Fiber", always "FiberError", always "File", upTo "Fixnum" ⟨3, 2⟩,
   always "Float", always "FloatDomainError", always "FrozenError", always "Hash", always "IO",
   always "IOError", always "IndexError", always "Integer", always "Interrupt", always "KeyError",
   always "LoadError", always "LocalJumpError", always "MatchData", always "Method",
   always "Module", always "Monitor", always "Mutex", always "NameError", always "NilClass",
   since "NoMatchingPatternError" ⟨3, 0⟩, since "NoMatchingPatternKeyError" ⟨3, 1⟩,
   always "NoMemoryError", always "NoMethodError", always "NotImplementedError", always "Numeric",
   always "Object", always "Proc", always "Queue", since "Ractor" ⟨3, 0⟩, always "Random",
   always "Range", always "RangeError", always "Rational", since "Refinement" ⟨3, 1⟩,
   always "Regexp", always "RegexpError", always "RubyVM", always "RuntimeError",
   always "ScriptError", always "SecurityError", always "Set", always "SignalException",
   always "SizedQueue", upTo "SortedSet" ⟨3, 0⟩, always "StandardError", always "StopIteration",
   always "String", always "Struct", always "Symbol", always "SyntaxError",
   always "SystemCallError", always "SystemExit", always "SystemStackError", always "Thread",
   always "ThreadError", always "ThreadGroup", always "Time", always "TracePoint",
   always "TrueClass", always "TypeError", always "UnboundMethod", always "UncaughtThrowError",
   always "ZeroDivisionError"]

/-- A class that some version lacks again should not be used. -/
def stability (c : BuiltinClass) : Stability :=
  if c.removedIn?.isSome then .deprecated else .stable

/-- Whether a version has the class. -/
def availableIn (c : BuiltinClass) (version : RubyVersion) : Bool :=
  c.since?.all (fun first => !version.olderThan first)
    && c.removedIn?.all (fun first => version.olderThan first)

/-- The entry of a name. -/
def named? (name : Text) : Option BuiltinClass := all.find? (·.name == name)

/-- The names of the classes that a version has, in alphabetical order. -/
def names (version : RubyVersion) : List Text :=
  (all.filter (·.availableIn version)).map (·.name)

/-- Whether a version has a class of this name. -/
def isName (name : Text) (version : RubyVersion) : Bool :=
  all.any fun c => c.name == name && c.availableIn version

end BuiltinClass
end DocTypes
