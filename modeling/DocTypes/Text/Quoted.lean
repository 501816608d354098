import DocTypes.Text.Hidden

/-! # Quoted texts

A message shows a text that it is about between double quotes, in such a way that the text cannot
break the line of the message: the quote and the backslash are escaped, the usual controls have
their one-letter escapes, and every other hidden character is written by its code point. -/

namespace DocTypes.Text

/-- One character of a quoted text. -/
def quotedChar (c : Char) : Text :=
  if c = '"' then ['\\', '"']
  else if c = '\\' then ['\\', '\\']
  else if c = '\n' then ['\\', 'n']
  else if c = '\r' then ['\\', 'r']
  else if c = '\t' then ['\\', 't']
  else if c = '\x00' then ['\\', '0']
  else if isHidden c then ['\\', 'u', '\x7b'] ++ Nat.toDigits 16 c.toNat ++ ['\x7d']
  else [c]

/-- A text between double quotes, on one line. -/
def quoted (t : Text) : Text := '"' :: t.flatMap quotedChar ++ ['"']

end DocTypes.Text
