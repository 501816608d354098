import DocTypes.Corpus
import DocTypes.Text.Blank
import DocTypes.Text.Quoted

/-! # Declaration lists

A corpus may be written down as a list of declarations, one to a line: a word for the kind and a
path.  Blank lines and lines that start with a number sign say nothing.  A list is read as a whole
or not at all; the first line at fault is reported. -/

namespace DocTypes

/-- A line of a declaration list. -/
structure Declaration where
  kind : EntityKind
  path : Text
  deriving DecidableEq

/-- What may be wrong with a line of a declaration list. -/
inductive DeclarationFault where
  /-- The line does not consist of two words. -/
  | malformed (line : Text)
  /-- The first word is no kind. -/
  | unknownKind (word : Text)
  /-- The path names nothing. -/
  | emptyPath
  deriving DecidableEq

/-- What a fault is, in words. -/
def DeclarationFault.message : DeclarationFault → Text
  | malformed line => "expected `<kind> <path>`, found " ++ line.quoted
  | unknownKind word => "unknown declaration kind " ++ word.quoted
  | emptyPath => "empty path"

/-- A fault, with the number of the line it is on. -/
structure DeclarationError where
  line : Nat
  fault : DeclarationFault
  deriving DecidableEq

/-- A fault and where it is, in words. -/
def DeclarationError.message (e : DeclarationError) : Text :=
  "line " ++ Text.ofNat e.line ++ ": " ++ e.fault.message

namespace Declaration

/-- Whether a path holds nothing but separators. -/
def isEmptyPath : Text → Bool
  | [] => true
  | ':' :: ':' :: cs => isEmptyPath cs
  | _ => false

/-- What one line declares, if it declares anything. -/
def ofLine? (line : Text) : Except DeclarationFault (Option Declaration) :=
  let line := Text.trim line
  if line = [] ∨ line.startsWith "#" then .ok none
  else
    match Text.words line with
    | [word, path] =>
      match EntityKind.ofKeyword? word with
      | none => .error (.unknownKind word)
      | some kind => if isEmptyPath path then .error .emptyPath else .ok (some ⟨kind, path⟩)
    | _ => .error (.malformed line)

/-- What lines declare, the first of them being line `number`. -/
def ofLines (number : Nat) : List Text → Except DeclarationError (List Declaration)
  | [] => .ok []
  | line :: rest =>
    match ofLine? line with
    | .error fault => .error ⟨number, fault⟩
    | .ok declared =>
      match ofLines (number + 1) rest with
      | .error e => .error e
      | .ok declarations => .ok (declared.toList ++ declarations)

/-- The declarations of a list, in order. -/
def parse (source : Text) : Except DeclarationError (List Declaration) := ofLines 1 source.lines

end Declaration

namespace Corpus

/-- Makes a declaration. -/
def declare (c : Corpus) (d : Declaration) : Corpus := (c.definePath d.path d.kind).1

/-- The corpus that several declarations make up. -/
def ofDeclarations (ds : List Declaration) : Corpus := ds.foldl declare empty

/-- The corpus that a declaration list describes. -/
def parse (source : Text) : Except DeclarationError Corpus :=
  (Declaration.parse source).map ofDeclarations

end Corpus
end DocTypes
