import DocTypes.Text.Basic

/-! # White space

`isBlank` is the property `White_Space`, twenty-five code points in all: the six ASCII ones, the
next-line control, the no-break space, the spaces of general punctuation, and the Ogham and
ideographic spaces.  Trimming removes blanks at the ends of a text, and the words of a text are
its longest runs without a blank. -/

namespace DocTypes.Text

/-- The blank code points above the ASCII range, as closed ranges in increasing order. -/
def blankRanges : List (Nat × Nat) :=
  [(0x85, 0x85), (0xA0, 0xA0), (0x1680, 0x1680), (0x2000, 0x200A), (0x2028, 0x2029),
   (0x202F, 0x202F), (0x205F, 0x205F), (0x3000, 0x3000)]

/-- Whether a character is white space. -/
def isBlank (c : Char) : Bool :=
  c == ' ' || (0x9 ≤ c.toNat && c.toNat ≤ 0xD)
    || blankRanges.any fun (low, high) => low ≤ c.toNat && c.toNat ≤ high

/-- The text without the blanks in front. -/
def trimStart (t : Text) : Text := t.dropWhile isBlank

/-- The text without the blanks at its end. -/
def trimEnd (t : Text) : Text := (t.reverse.dropWhile isBlank).reverse

/-- The text without the blanks at either end. -/
def trim (t : Text) : Text := trimEnd (trimStart t)

/-- The longest runs of characters that are not blank, in order. -/
def words (t : Text) : List Text := (pieces isBlank t).filter (!·.isEmpty)

end DocTypes.Text
