import DocTypes.Text.Basic

/-! # Words that are not names

Some words stand for a type by themselves: the six spellings of a truth value, `nil`, and `self`.
They are looked for in a whole annotation or a whole entry of it, never in parts of one. -/

namespace DocTypes.Keyword

/-- The spellings of "true or false". -/
def booleans : List Text := ["bool", "Bool", "boolean", "Boolean", "true", "false"]

/-- The word for the absence of a value. -/
def nilWord : Text := "nil"

/-- The word for the enclosing declaration. -/
def selfWord : Text := "self"

/-- The class of `nil`. -/
def nilClass : Text := "NilClass"

/-- Whether a text is a spelling of "true or false". -/
def isBoolean (t : Text) : Bool := booleans.contains t

/-- Whether a text is `nil`. -/
def isNil (t : Text) : Bool := t == nilWord

/-- Whether a text is `self`. -/
def isSelf (t : Text) : Bool := t == selfWord

end DocTypes.Keyword
