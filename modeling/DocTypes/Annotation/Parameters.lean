import DocTypes.Text.Blank

/-! # Lists of parameters

Between the brackets of an annotation stand parameters.  Two separators divide them, the comma and
the arrow `=>`, and only outside of further brackets.  Brackets are counted here on a running
`depth`, which may become negative: an excess closer hides every separator up to the opener that
makes up for it.  A closer right after an equals sign does not count.  The depth is a number without
bounds; one that is kept in 32 bits runs over where more than 2147483647 brackets are open.

`cut` finds the separators and the segments between them; `glue` puts a text together again.  An
arrow outranks the commas: the segments before the first arrow are one group and all others a
second.  Without an arrow every segment is a group of its own. -/

namespace DocTypes.Parameters

/-- What divides parameters. -/
inductive Separator where
  | comma
  | arrow
  deriving DecidableEq

/-- A separator as it is written. -/
def Separator.text : Separator → Text
  | .comma => ","
  | .arrow => "=>"

/-- How a character changes the number of open brackets. -/
def depthChange (afterEquals : Bool) (c : Char) : Int :=
  if c = '<' ∨ c = '\x7b' ∨ c = '(' then 1
  else if (c = '>' ∨ c = '\x7d' ∨ c = ')') ∧ !afterEquals then -1
  else 0

/-- A text that is cut at separators: the first segment, and for each separator the segment after
it. -/
structure Cut where
  first : Text
  others : List (Separator × Text)
  deriving DecidableEq

namespace Cut

/-- Adds a character to the front. -/
def cons (c : Char) (cut : Cut) : Cut := ⟨c :: cut.first, cut.others⟩

/-- Adds a separator to the front, with nothing before it. -/
def separated (s : Separator) (cut : Cut) : Cut := ⟨[], (s, cut.first) :: cut.others⟩

/-- The text that was cut. -/
def glue (cut : Cut) : Text := cut.first ++ cut.others.flatMap fun (s, segment) => s.text ++ segment

/-- All segments, in order. -/
def segments (cut : Cut) : List Text := cut.first :: cut.others.map (·.2)

/-- Whether some separator is an arrow. -/
def hasArrow (cut : Cut) : Bool := cut.others.any (·.1 == .arrow)

/-- The segments up to the first arrow. -/
def keys (cut : Cut) : List Text :=
  cut.first :: (cut.others.takeWhile (·.1 != .arrow)).map (·.2)

/-- The segments after the first arrow. -/
def values (cut : Cut) : List Text := (cut.others.dropWhile (·.1 != .arrow)).map (·.2)

end Cut

/-- Cuts a text at its separators, when `depth` brackets are open already and `afterEquals` says
whether the character before is an equals sign. -/
def cut (depth : Int) (afterEquals : Bool) : Text → Cut
  | [] => ⟨[], []⟩
  -- The second character of an arrow follows an equals sign and so closes nothing.
  | '=' :: '>' :: cs =>
    if depth = 0 then (cut 0 false cs).separated .arrow
    else ((cut depth false cs).cons '>').cons '='
  | c :: cs =>
    let depth := depth + depthChange afterEquals c
    if depth = 0 ∧ c = ',' then (cut 0 false cs).separated .comma
    else (cut depth (c == '=') cs).cons c

/-! ## What cutting keeps -/

namespace Cut

@[simp] theorem glue_cons (c : Char) (cut : Cut) : (cut.cons c).glue = c :: cut.glue := rfl

@[simp] theorem glue_separated (s : Separator) (cut : Cut) :
    (cut.separated s).glue = s.text ++ cut.glue := by
  simp [glue, separated]

end Cut

/-- Cutting loses nothing: the segments and separators make up the text again. -/
theorem glue_cut (depth : Int) (afterEquals : Bool) (t : Text) :
    (cut depth afterEquals t).glue = t := by
  fun_induction cut depth afterEquals t with
  | case1 => rfl
  | case2 afterEquals cs ih => simp [ih, Separator.text]
  | case3 depth afterEquals cs h ih => simp [ih]
  | case4 depth afterEquals c cs hne d h ih =>
    rw [Cut.glue_separated, ih, h.2]
    rfl
  | case5 depth afterEquals c cs hne d h ih => rw [Cut.glue_cons, ih]

/-! ## Groups -/

/-- The groups that the segments form. -/
def Cut.groups (cut : Cut) : List (List Text) :=
  if cut.hasArrow then [cut.keys, cut.values] else cut.segments.map ([·])

/-- The parameters of a list, in groups: one group for each parameter, or one for each side of an
arrow.  Blanks around a parameter do not count. -/
def split (t : Text) : List (List Text) := ((cut 0 false t).groups).map (·.map Text.trim)

end DocTypes.Parameters
