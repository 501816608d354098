import DocTypes.Corpus
import DocTypes.Signature.Basic
import DocTypes.Text.Sorted

/-! # The index of names

The index lists every name that is known, from the corpus, the host and the dependencies, with the
full path of what it names.  A name may be known at several paths, and a path may be listed more
than once.

`pathsFor` asks for the paths that end in a name: those listed under the last component of the name
that are the name itself or have it after a separator. -/

namespace DocTypes

/-- All known names. -/
structure NameIndex where
  names : List KnownName
  deriving DecidableEq

namespace NameIndex

/-- Whether a path is a name or ends in it, component by component. -/
def endsIn (path name : Text) : Bool := path == name || path.endsWith (Name.separator ++ name)

/-- The known paths that end in a relative name, in order. -/
def pathsFor (index : NameIndex) (name : Text) : List Text :=
  let simple := Name.lastComponent name
  sortUnique
    ((index.names.filter fun known => known.name == simple && endsIn known.path name).map (·.path))

/-- A path is an answer when some name with that path is listed under the last component of the
name asked for, and ends in it. -/
theorem mem_pathsFor {index : NameIndex} {name path : Text} :
    path ∈ index.pathsFor name ↔
      ∃ known ∈ index.names,
        known.name = Name.lastComponent name ∧ endsIn known.path name = true ∧
          known.path = path := by
  simp [pathsFor, and_assoc]

/-- How many names are known, whatever their paths. -/
def size (index : NameIndex) : Nat := (index.names.map (·.name)).eraseDups.length

end NameIndex
end DocTypes
