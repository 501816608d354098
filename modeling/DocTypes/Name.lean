import DocTypes.Text.Basic

/-! # Names and constant paths

A *word* is an ASCII letter or underscore followed by letters, digits and underscores.  A
*constant path* is one or more words joined by `::`, possibly with a further `::` in front that
makes it absolute.  `pathLength` measures the longest constant path at the front of a text by one
pass over its characters, and a text is a simple identifier when that path is all of it.

Paths of declared things may come from elsewhere and hold anything, so taking a path apart
(`components`, `lastComponent`) makes no assumption about the words in it. -/

namespace DocTypes.Name

/-- What may begin a word. -/
def isWordStart (c : Char) : Bool := c.isAlpha || c == '_'

/-- What may stand inside a word. -/
def isWordPart (c : Char) : Bool := c.isAlphanum || c == '_'

/-- The text without the characters that no word holds. -/
def sanitized (t : Text) : Text := t.filter isWordPart

/-- Whether a name begins like a variable or a method and so is hardly that of a constant. -/
def looksLikeVariable : Text → Bool
  | [] => false
  | c :: _ => c == '_' || c.isLower

/-! ## The path at the front of a text -/

/-- How much longer the path at the front becomes, when its current word has begun already. -/
def pathTailLength : Text → Nat
  | ':' :: ':' :: c :: cs => if isWordStart c then pathTailLength cs + 3 else 0
  | c :: cs => if isWordPart c then pathTailLength cs + 1 else 0
  | [] => 0

/-- The length of the longest constant path at the front of a text, zero if there is none. -/
def pathLength : Text → Nat
  | ':' :: ':' :: c :: cs => if isWordStart c then pathTailLength cs + 3 else 0
  | c :: cs => if isWordStart c then pathTailLength cs + 1 else 0
  | [] => 0

theorem pathTailLength_le (t : Text) : pathTailLength t ≤ t.length := by
  fun_induction pathTailLength t <;> simp_all

/-- The path at the front of a text is part of it. -/
theorem pathLength_le (t : Text) : pathLength t ≤ t.length := by
  fun_cases pathLength t with
  | case1 c cs => simpa using pathTailLength_le cs
  | case2 => simp
  | case3 c cs => simpa using pathTailLength_le cs
  | case4 => simp
  | case5 => simp

/-- Whether a text is a constant path, all of it. -/
def isSimple (t : Text) : Bool := t != [] && pathLength t == t.length

/-- The length of the word at the front of a text, zero if there is none. -/
def wordLength : Text → Nat
  | [] => 0
  | c :: cs => if isWordStart c then (cs.takeWhile isWordPart).length + 1 else 0

/-! ## Components -/

/-- What stands between the components of a path, and in front of an absolute one. -/
def separator : Text := "::"

/-- Whether a path begins at the top level. -/
def isAbsolute (path : Text) : Bool := path.startsWith separator

/-- The texts between the separators of a path, the first of which counts when separators
overlap. -/
def components : Text → List Text
  | [] => [[]]
  | ':' :: ':' :: cs => [] :: components cs
  | c :: cs => Text.consFirst c (components cs)

/-- The components of a path that are not empty. -/
def properComponents (path : Text) : List Text := (components path).filter (!·.isEmpty)

/-- The text after the last separator, the last of which counts when separators overlap. -/
def lastComponent (path : Text) : Text := (Text.before separator path.reverse).reverse

/-- The path with the given components. -/
def join (parts : List Text) : Text := separator.intercalate parts

end DocTypes.Name
