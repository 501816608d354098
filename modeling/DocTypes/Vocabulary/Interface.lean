import DocTypes.Text.Basic

/-! # Interfaces of one method

A duck type asks for a method instead of a class.  For a few methods the RBS standard library has
an interface that asks for just that method; `Interface.forMethod?` finds it. -/

namespace DocTypes

/-- An interface that stands for a single method. -/
structure Interface where
  /-- The method, with the number sign in front. -/
  method : Text
  /-- The name of the interface. -/
  name : Text
  /-- How many type parameters the interface takes. -/
  parameters : Nat

namespace Interface

/-- The interfaces that annotations are replaced by. -/
def all : List Interface :=
  [⟨"#to_s", "_ToS", 0⟩, ⟨"#to_i", "_ToI", 0⟩, ⟨"#to_r", "_ToR", 0⟩, ⟨"#to_str", "_ToStr", 0⟩,
   ⟨"#to_proc", "_ToProc", 0⟩, ⟨"#to_path", "_ToPath", 0⟩, ⟨"#read", "_Reader", 0⟩,
   ⟨"#readpartial", "_ReaderPartial", 0⟩, ⟨"#write", "_Writer", 0⟩, ⟨"#rewind", "_Rewindable", 0⟩,
   ⟨"#to_io", "_ToIO", 0⟩, ⟨"#exception", "_Exception", 0⟩, ⟨"#to_hash", "_ToHash", 2⟩,
   ⟨"#each", "_Each", 1⟩]

/-- The interface that asks for exactly this method, written with the number sign. -/
def forMethod? (method : Text) : Option Interface := all.find? (·.method == method)

end Interface
end DocTypes
