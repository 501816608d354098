import DocTypes.Name

/-! # Method names and literals

A literal in an annotation stands for its class: a symbol, an integer or a float.  A symbol is a
colon and either a quoted text or the name of a method, and a method name is an operator of the
table or a word with at most one of `?`, `!`, `=` at its end.

Numbers follow the grammar of literals and not of any conversion: underscores may stand anywhere
after the first digit, and a sign stands in front at most once. -/

namespace DocTypes

/-- The operators that are names of methods.  The ampersand joins methods of a duck type and is
therefore not among them. -/
def operatorMethods : List Text :=
  ["[]=", "[]", "**", "+@", "-@", "+", "-", "*", "/", "%", "===", "==", "=~", "!=", "!~", "!",
   "<=>", "<=", ">=", "<<", ">>", "<", ">", "|", "^", "~"]

/-- Whether a text is the name of a method. -/
def isMethodName (t : Text) : Bool :=
  operatorMethods.contains t ||
    (Name.wordLength t != 0 &&
      match t.drop (Name.wordLength t) with
      | [] => true
      | [c] => c == '?' || c == '!' || c == '='
      | _ => false)

/-- What a literal may be. -/
inductive LiteralKind where
  | symbol
  | float
  | integer
  deriving DecidableEq

namespace LiteralKind

/-- The class of a literal. -/
def className : LiteralKind → Text
  | symbol => "Symbol"
  | float => "Float"
  | integer => "Integer"

end LiteralKind

namespace Literal

/-- The text without a sign in front. -/
def dropSign : Text → Text
  | '-' :: cs => cs
  | '+' :: cs => cs
  | cs => cs

/-- Whether a text is a digit followed by digits and underscores. -/
def isDigits (isDigit : Char → Bool) : Text → Bool
  | [] => false
  | c :: cs => isDigit c && cs.all fun d => isDigit d || d == '_'

/-- Whether a character is a binary digit. -/
def isBinaryDigit (c : Char) : Bool := c == '0' || c == '1'

/-- Whether a character is an octal digit. -/
def isOctalDigit (c : Char) : Bool := '0' ≤ c && c ≤ '7'

/-- Whether a character is a hexadecimal digit. -/
def isHexDigit (c : Char) : Bool :=
  c.isDigit || ('a' ≤ c && c ≤ 'f') || ('A' ≤ c && c ≤ 'F')

/-- Whether a text stands between two quotes of one kind. -/
def isQuoted (t : Text) : Bool :=
  2 ≤ t.length &&
    ((t.startsWith ['"'] && t.endsWith ['"']) || (t.startsWith ['\''] && t.endsWith ['\'']))

/-- Whether a text is a symbol. -/
def isSymbol : Text → Bool
  | ':' :: body => isQuoted body || isMethodName body
  | _ => false

/-- Whether a text is an integer. -/
def isInteger (t : Text) : Bool :=
  match dropSign t with
  | '0' :: 'x' :: digits => isDigits isHexDigit digits
  | '0' :: 'b' :: digits => isDigits isBinaryDigit digits
  | '0' :: 'o' :: digits => isDigits isOctalDigit digits
  | digits => isDigits Char.isDigit digits

/-- Whether a text is the part of a float in front of the exponent.  The point may be left out
only when there is an exponent, and digits on one side of it. -/
def isMantissa (hasExponent : Bool) (t : Text) : Bool :=
  match t.cutAtFirst? (· == '.') with
  | some (whole, fraction) =>
    (whole.isEmpty || isDigits Char.isDigit whole)
      && (fraction.isEmpty || isDigits Char.isDigit fraction)
      && !(whole.isEmpty && fraction.isEmpty)
  | none => hasExponent && isDigits Char.isDigit t

/-- Whether a text is a float.  Infinity may have a sign, and a value that is no number has
none. -/
def isFloat (t : Text) : Bool :=
  let body := dropSign t
  body == ".inf" || body == ".Inf" || body == ".INF"
    || t == ".nan" || t == ".NaN" || t == ".NAN"
    || match body.cutAtFirst? (fun c => c == 'e' || c == 'E') with
      | some (mantissa, exponent) =>
        isDigits Char.isDigit (dropSign exponent) && isMantissa true mantissa
      | none => isMantissa false body

/-- What kind of literal a text is, if any. -/
def kind? (t : Text) : Option LiteralKind :=
  if isSymbol t then some .symbol
  else if isInteger t then some .integer
  else if isFloat t then some .float
  else none

end Literal
end DocTypes
