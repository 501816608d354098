import DocTypes.Text.Basic

/-! # Brackets that enclose a text

Three pairs of brackets enclose parameters: `<>`, `{}` and `()`.  What closes a bracket is counted
and not matched by kind, so any closer ends any opener; only the outermost pair has to be of the
kind asked for.  A closer right after an equals sign belongs to an arrow or to the name of a
method, and closes nothing.  The count has no bound; one that is kept in 32 bits runs over where more
than 2147483647 brackets are open.

`enclosed? open close t` is the text between the brackets when the closer of the first character
is the last one: `(A) | (B)` is enclosed by nothing. -/

namespace DocTypes.Brackets

/-- Whether a character opens a bracket. -/
def isOpener (c : Char) : Bool := c == '<' || c == '\x7b' || c == '('

/-- Whether a character may close a bracket. -/
def isCloser (c : Char) : Bool := c == '>' || c == '\x7d' || c == ')'

/-- The text in front of the closer that brings `depth` open brackets to none, that closer, and
the text after it.  `afterEquals` says whether the character before was an equals sign. -/
def untilClosed? (depth : Nat) (afterEquals : Bool) : Text → Option (Text × Char × Text)
  | [] => none
  | c :: cs =>
    if isOpener c then consInner c (untilClosed? (depth + 1) false cs)
    else if isCloser c && !afterEquals then
      if depth ≤ 1 then some ([], c, cs) else consInner c (untilClosed? (depth - 1) false cs)
    else consInner c (untilClosed? depth (c == '=') cs)
where
  /-- Adds a character to the front of the inner text. -/
  consInner (c : Char) : Option (Text × Char × Text) → Option (Text × Char × Text)
    | none => none
    | some (inner, closer, rest) => some (c :: inner, closer, rest)

/-- The text between an opening character and the closing one at the very end, when the second
closes the first. -/
def enclosed? (opener closer : Char) : Text → Option Text
  | [] => none
  | c :: cs =>
    if c = opener then
      match untilClosed? 1 false cs with
      | some (inner, found, []) => if found = closer then some inner else none
      | _ => none
    else none

/-! ## What was found -/

theorem consInner_eq_some {c : Char} {found : Option (Text × Char × Text)} {inner rest : Text}
    {closer : Char} (h : untilClosed?.consInner c found = some (inner, closer, rest)) :
    ∃ tail, inner = c :: tail ∧ found = some (tail, closer, rest) := by
  cases found with
  | none => simp [untilClosed?.consInner] at h
  | some f =>
    obtain ⟨tail, d, after⟩ := f
    simp only [untilClosed?.consInner, Option.some.injEq, Prod.mk.injEq] at h
    obtain ⟨rfl, rfl, rfl⟩ := h
    exact ⟨tail, rfl, rfl⟩

/-- What is found up to the closer, the closer and the rest make up the text. -/
theorem untilClosed?_eq_some {depth : Nat} {afterEquals : Bool} {t inner rest : Text}
    {closer : Char} (h : untilClosed? depth afterEquals t = some (inner, closer, rest)) :
    t = inner ++ closer :: rest := by
  fun_induction untilClosed? depth afterEquals t generalizing inner with
  | case1 => simp at h
  | case2 depth afterEquals c cs _ ih =>
    obtain ⟨tail, rfl, hfound⟩ := consInner_eq_some h
    rw [ih hfound, List.cons_append]
  | case3 depth afterEquals c cs =>
    simp only [Option.some.injEq, Prod.mk.injEq] at h
    obtain ⟨rfl, rfl, rfl⟩ := h
    rfl
  | case4 depth afterEquals c cs _ _ _ ih =>
    obtain ⟨tail, rfl, hfound⟩ := consInner_eq_some h
    rw [ih hfound, List.cons_append]
  | case5 depth afterEquals c cs _ _ ih =>
    obtain ⟨tail, rfl, hfound⟩ := consInner_eq_some h
    rw [ih hfound, List.cons_append]

/-- A text that is enclosed consists of its brackets and what is between them. -/
theorem enclosed?_eq_some {opener closer : Char} {t inner : Text}
    (h : enclosed? opener closer t = some inner) : t = opener :: inner ++ [closer] := by
  cases t with
  | nil => simp [enclosed?] at h
  | cons c cs =>
    rw [enclosed?] at h
    split at h
    · next hc =>
      split at h
      · next found hfound =>
        split at h
        · next hcloser =>
          simp only [Option.some.injEq] at h
          subst hc hcloser h
          rw [untilClosed?_eq_some hfound, List.cons_append]
        · simp at h
      · simp at h
    · simp at h

end DocTypes.Brackets
