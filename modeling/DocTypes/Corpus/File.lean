import DocTypes.Corpus.Declaration
import DocTypes.Files.Tree

/-! # Declaration files

A corpus that is kept in a file.  Reading the file may fail, and so may the list in it. -/

namespace DocTypes

/-- Why a declaration file does not load. -/
inductive CorpusError where
  | unreadable (path : Text) (reason : ReadError)
  | malformed (reason : DeclarationError)
  deriving DecidableEq

/-- Why a declaration file does not load, in words. -/
def CorpusError.message : CorpusError → Text
  | unreadable path reason => "failed to read " ++ path ++ ": " ++ reason.message
  | malformed reason => reason.message

/-- The corpus that the declaration list at a path describes. -/
def Corpus.load (files : FileSystem) (path : Text) : Except CorpusError Corpus :=
  match files.read path with
  | .error reason => .error (.unreadable path reason)
  | .ok source =>
    match Corpus.parse source with
    | .error reason => .error (.malformed reason)
    | .ok corpus => .ok corpus

end DocTypes
