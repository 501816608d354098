import DocTypes.Proofs.Annotation.Head
import DocTypes.Proofs.Annotation.Literal
import DocTypes.Proofs.Annotation.Parts

/-! # The recognizers exclude each other

Nine recognizers, one for each shape and one for each kind of literal, say how an annotation is
written.  No text, trimmed or not, is accepted by two of them (`Recognizer.eq_of_accepts`): where a
text begins tells most of them apart, and in the end there is one that may accept it at all
(`candidate`, `candidate_of_accepts`).

So the order in which they are tried does not matter, and a text has no shape exactly when none of
them accepts it (`Shape.of_eq_firstOf`). -/

namespace DocTypes

/-- What recognizes a way of writing an annotation. -/
inductive Recognizer where
  | identifier
  | duckType
  | generic
  | orderedList
  | shorthandHash
  | shorthandArray
  | symbol
  | integer
  | float
  deriving DecidableEq

namespace Recognizer

/-- What a recognizer makes of a text that it accepts. -/
def read? (t : Text) : Recognizer → Option Shape
  | identifier => if Name.isSimple t then some (.identifier t) else none
  | duckType => (Shape.duckAtoms? t).map .duckType
  | generic => (Shape.genericParts? t).map fun (name, parameters) => .generic name parameters
  | orderedList => (Shape.orderedListParameters? t).map .orderedList
  | shorthandHash => (Shape.shorthandHashParameters? t).map .shorthandHash
  | shorthandArray => (Shape.shorthandArrayParameters? t).map .shorthandArray
  | symbol => if Literal.isSymbol t then some (.literal .symbol) else none
  | integer => if Literal.isInteger t then some (.literal .integer) else none
  | float => if Literal.isFloat t then some (.literal .float) else none

/-- The recognizers, in the order in which they are tried. -/
def all : List Recognizer :=
  [identifier, duckType, generic, orderedList, shorthandHash, shorthandArray, symbol, integer,
    float]

theorem mem_all (r : Recognizer) : r ∈ all := by cases r <;> decide

/-- Whether a recognizer accepts a text. -/
def Accepts (r : Recognizer) (t : Text) : Prop := ∃ shape, r.read? t = some shape

/-- The shape of a text if recognizers are tried one after another. -/
def firstOf (order : List Recognizer) (t : Text) : Shape :=
  (order.findSome? (read? t)).getD .unrecognized

/-- The only recognizer that may accept a text. -/
def candidate : Text → Recognizer
  | [] => duckType
  | c :: cs =>
    if Text.isBlank c ∨ c = '#' then duckType
    else if c = '(' then orderedList
    else if c = '\x7b' then shorthandHash
    else if c = '<' then shorthandArray
    else if c = ':' ∧ cs.head? ≠ some ':' then symbol
    else if Name.isWordStart c ∨ c = ':' then
      if Name.isSimple (c :: cs) then identifier
      else if (c :: cs).getLast? = some ')' then orderedList
      else generic
    else if Literal.isInteger (c :: cs) then integer
    else float

end Recognizer

/-! ## How texts begin and end -/

/-- Brackets at the end of a text close at its last character. -/
theorem Brackets.getLast?_of_enclosed? {opener closer : Char} {bracketed inner t : Text}
    (hsuffix : bracketed <:+ t) (h : enclosed? opener closer bracketed = some inner) :
    t.getLast? = some closer := by
  obtain ⟨before, rfl⟩ := hsuffix
  rw [enclosed?_eq_some h, ← List.append_assoc, List.getLast?_concat]

namespace Shape

variable {t name parameters : Text} {methods : List Text}

/-- A duck type begins with a number sign, or with a blank in front of it. -/
theorem exists_of_duckAtoms? (h : duckAtoms? t = some methods) :
    ∃ c cs, t = c :: cs ∧ (Text.isBlank c = true ∨ c = '#') := by
  cases t with
  | nil => cases h
  | cons c cs =>
    refine ⟨c, cs, rfl, ?_⟩
    cases hblank : Text.isBlank c with
    | true => exact Or.inl rfl
    | false =>
      by_cases hsign : c = '#'
      · exact Or.inr hsign
      · rw [duckAtoms?_cons hblank hsign] at h
        cases h

theorem getLast?_of_genericParts? (h : genericParts? t = some (name, parameters)) :
    t.getLast? = some '>' ∨ t.getLast? = some '\x7d' := by
  obtain ⟨-, -, bracketed, hsuffix, henclosed⟩ := genericParts?_eq_some h
  exact henclosed.imp (Brackets.getLast?_of_enclosed? hsuffix)
    (Brackets.getLast?_of_enclosed? hsuffix)

theorem getLast?_of_orderedListParameters? (h : orderedListParameters? t = some parameters) :
    t.getLast? = some ')' := Brackets.getLast?_of_enclosed? (Text.dropLead_suffix t _) h

/-- An ordered list begins with its parenthesis or with the word in front of it. -/
theorem exists_of_orderedListParameters? (h : orderedListParameters? t = some parameters) :
    ∃ cs, t = '(' :: cs ∨ t = "Array" ++ '(' :: cs := by
  have hrest := Brackets.enclosed?_eq_some h
  refine ⟨parameters ++ [')'], ?_⟩
  rcases Text.dropLead_eq_self_or t "Array" with heq | heq
  · left
    rw [← heq, hrest, List.cons_append]
  · right
    rw [heq, hrest, List.cons_append]

end Shape

namespace Recognizer

variable {r r' : Recognizer} {t : Text} {c : Char} {cs : Text} {order : List Recognizer}
  {shape : Shape}

/-! ## The candidate -/

/-- What begins with a path is an identifier, an ordered list or a generic. -/
theorem candidate_of_path (h : Name.pathLength t ≠ 0) :
    candidate t =
      if Name.isSimple t then identifier
      else if t.getLast? = some ')' then orderedList
      else generic := by
  obtain ⟨c, cs, rfl, hfirst⟩ := Name.exists_of_pathLength h
  have hpart : Name.isPathPart c = true := by
    rcases hfirst with hword | ⟨rfl, -⟩
    · exact Name.isPathPart_of_isWordStart hword
    · rfl
  obtain ⟨hblank, hsign⟩ := plain_of_isPathPart hpart
  have hcolon : ¬ (c = ':' ∧ cs.head? ≠ some ':') := by
    rintro ⟨rfl, hhead⟩
    exact hfirst.elim (by decide) fun hcolons => hhead hcolons.2
  have hstart : Name.isWordStart c = true ∨ c = ':' := hfirst.imp_right And.left
  rw [candidate, if_neg (by simp [hblank, hsign]), if_neg (ne_of_isPathPart hpart rfl),
    if_neg (ne_of_isPathPart hpart rfl), if_neg (ne_of_isPathPart hpart rfl), if_neg hcolon,
    if_pos hstart]

/-- What begins with a sign, a digit or a point is a number. -/
theorem candidate_of_number (h : Literal.beginsNumber (Literal.dropSign t) = true) :
    candidate t = if Literal.isInteger t then integer else float := by
  cases t with
  | nil => cases h
  | cons c cs =>
    by_cases hdigit : c.isDigit = true
    · have hword : Name.isWordPart c = true := by simp [Name.isWordPart, Char.isAlphanum, hdigit]
      have hpart : Name.isPathPart c = true := by simp [Name.isPathPart, hword]
      obtain ⟨hblank, hsign⟩ := plain_of_isPathPart hpart
      have hcolon := Name.not_colon_of_isWordPart hword
      have hstart : ¬ Name.isWordStart c = true := fun hstart => by
        rw [Name.not_isDigit_of_isWordStart hstart] at hdigit
        cases hdigit
      rw [candidate, if_neg (by simp [hblank, hsign]), if_neg (ne_of_isPathPart hpart rfl),
        if_neg (ne_of_isPathPart hpart rfl), if_neg (ne_of_isPathPart hpart rfl),
        if_neg (by simp [hcolon]), if_neg (by simp [hstart, hcolon])]
    · have hsign : c = '-' ∨ c = '+' ∨ c = '.' := by
        unfold Literal.dropSign at h
        split at h
        · next heq => exact Or.inl (List.cons.inj heq).1
        · next heq => exact Or.inr (Or.inl (List.cons.inj heq).1)
        · exact Or.inr (Or.inr (by simpa [Literal.beginsNumber, hdigit] using h))
      rcases hsign with rfl | rfl | rfl
      · rfl
      · rfl
      · rfl

theorem accepts_identifier : identifier.Accepts t ↔ Name.isSimple t = true := by
  simp [Accepts, read?]

theorem accepts_symbol : symbol.Accepts t ↔ Literal.isSymbol t = true := by simp [Accepts, read?]

theorem accepts_integer : integer.Accepts t ↔ Literal.isInteger t = true := by
  simp [Accepts, read?]

theorem accepts_float : float.Accepts t ↔ Literal.isFloat t = true := by simp [Accepts, read?]

/-- What ends in a bracket is no identifier. -/
theorem isSimple_of_getLast? {closer : Char} (hlast : t.getLast? = some closer)
    (hcloser : Brackets.isCloser closer = true) : Name.isSimple t = false :=
  Shape.isSimple_of_isMark (List.mem_of_getLast? hlast) (isMark_of_isCloser hcloser)

/-- **A text is accepted by its candidate, if at all.** -/
theorem candidate_of_accepts (h : r.Accepts t) : candidate t = r := by
  cases r with
  | identifier =>
    have hsimple := accepts_identifier.mp h
    rw [candidate_of_path (Name.pathLength_ne_zero hsimple), if_pos hsimple]
  | duckType =>
    obtain ⟨shape, hread⟩ := h
    obtain ⟨methods, hmethods, -⟩ := Option.map_eq_some_iff.mp hread
    obtain ⟨c, cs, rfl, hstart⟩ := Shape.exists_of_duckAtoms? hmethods
    exact if_pos hstart
  | generic =>
    obtain ⟨shape, hread⟩ := h
    obtain ⟨⟨name, parameters⟩, hparts, -⟩ := Option.map_eq_some_iff.mp hread
    have hlast := Shape.getLast?_of_genericParts? hparts
    have hsimple : Name.isSimple t = false := by
      rcases hlast with hlast | hlast
      · exact isSimple_of_getLast? hlast rfl
      · exact isSimple_of_getLast? hlast rfl
    have hnot : t.getLast? ≠ some ')' := by
      rcases hlast with hlast | hlast
      · rw [hlast]
        decide
      · rw [hlast]
        decide
    rw [candidate_of_path (Shape.genericParts?_eq_some hparts).1, hsimple, if_neg Bool.false_ne_true,
      if_neg hnot]
  | orderedList =>
    obtain ⟨shape, hread⟩ := h
    obtain ⟨parameters, hparameters, -⟩ := Option.map_eq_some_iff.mp hread
    have hlast := Shape.getLast?_of_orderedListParameters? hparameters
    obtain ⟨cs, rfl | rfl⟩ := Shape.exists_of_orderedListParameters? hparameters
    · rfl
    · have hpath : Name.pathLength ("Array" ++ '(' :: cs) ≠ 0 :=
        Shape.pathLength_ne_zero Head.arrayName .none (c := '(') rfl cs
      have hsimple := isSimple_of_getLast? hlast rfl
      rw [candidate_of_path hpath, hsimple, if_neg Bool.false_ne_true, if_pos hlast]
  | shorthandHash =>
    obtain ⟨shape, hread⟩ := h
    obtain ⟨parameters, hparameters, -⟩ := Option.map_eq_some_iff.mp hread
    rw [Brackets.enclosed?_eq_some hparameters]
    rfl
  | shorthandArray =>
    obtain ⟨shape, hread⟩ := h
    obtain ⟨parameters, hparameters, -⟩ := Option.map_eq_some_iff.mp hread
    rw [Brackets.enclosed?_eq_some hparameters]
    rfl
  | symbol =>
    obtain ⟨body, rfl, hbody⟩ := Literal.exists_of_isSymbol (accepts_symbol.mp h)
    exact if_pos ⟨rfl, hbody⟩
  | integer =>
    have hinteger := accepts_integer.mp h
    rw [candidate_of_number (Literal.beginsNumber_of_isInteger hinteger), if_pos hinteger]
  | float =>
    have hfloat := accepts_float.mp h
    have hinteger : ¬ Literal.isInteger t = true := fun hinteger => by
      rw [Literal.isFloat_of_isInteger hinteger] at hfloat
      cases hfloat
    rw [candidate_of_number (Literal.beginsNumber_of_isFloat hfloat), if_neg hinteger]

/-- **No text is accepted by two recognizers.** -/
theorem eq_of_accepts (h : r.Accepts t) (h' : r'.Accepts t) : r = r' :=
  (candidate_of_accepts h).symm.trans (candidate_of_accepts h')

/-! ## Trying one after another -/

theorem firstOf_cons (r : Recognizer) (order : List Recognizer) (t : Text) :
    firstOf (r :: order) t = (r.read? t).getD (firstOf order t) := by
  rw [firstOf, List.findSome?_cons]
  cases r.read? t with
  | none => rfl
  | some shape => rfl

/-- It does not matter when a recognizer that accepts a text is tried. -/
theorem firstOf_of_mem (hr : r ∈ order) (h : r.read? t = some shape) : firstOf order t = shape := by
  induction order with
  | nil => cases hr
  | cons first order ih =>
    rw [firstOf_cons]
    cases hfirst : first.read? t with
    | none =>
      have hrest : r ∈ order := by
        rcases List.mem_cons.mp hr with rfl | hr
        · rw [h] at hfirst
          cases hfirst
        · exact hr
      exact ih hrest
    | some other =>
      obtain rfl := eq_of_accepts ⟨shape, h⟩ ⟨other, hfirst⟩
      rw [h] at hfirst
      exact (Option.some.inj hfirst).symm

/-- What its candidate does not accept is not accepted at all. -/
theorem not_accepts (h : (candidate t).read? t = none) (r : Recognizer) : ¬ r.Accepts t := by
  rintro ⟨shape, hread⟩
  rw [candidate_of_accepts ⟨shape, hread⟩, hread] at h
  cases h

/-- Of all recognizers it is the candidate that says what the shape is. -/
theorem firstOf_eq (t : Text) (h : ∀ r, r ∈ order) :
    firstOf order t = ((candidate t).read? t).getD .unrecognized := by
  cases hread : (candidate t).read? t with
  | some shape => exact firstOf_of_mem (h _) hread
  | none =>
    have hnone : order.findSome? (read? t) = none := by
      rw [List.findSome?_eq_none_iff]
      exact fun r _ => Option.eq_none_iff_forall_ne_some.mpr fun shape hr =>
        not_accepts hread r ⟨shape, hr⟩
    rw [firstOf, hnone]

/-- What is recognized has a shape. -/
theorem ne_unrecognized (h : r.read? t = some shape) : shape ≠ .unrecognized := by
  rintro rfl
  cases r <;> simp [read?] at h

end Recognizer

namespace Shape

open Recognizer

variable {t : Text}

/-- The shape of a text is what the first of all recognizers makes of it. -/
theorem of_eq (t : Text) : of t = firstOf Recognizer.all t := by
  simp only [Recognizer.all, firstOf_cons]
  by_cases hsimple : Name.isSimple t = true
  · simp [of, read?, hsimple]
  rcases hduck : duckAtoms? t with _ | methods
  case some => simp [of, read?, hsimple, hduck]
  rcases hgeneric : genericParts? t with _ | ⟨name, parameters⟩
  case some => simp [of, read?, hsimple, hduck, hgeneric]
  rcases hlist : orderedListParameters? t with _ | parameters
  case some => simp [of, read?, hsimple, hduck, hgeneric, hlist]
  rcases hmap : shorthandHashParameters? t with _ | parameters
  case some => simp [of, read?, hsimple, hduck, hgeneric, hlist, hmap]
  rcases harray : shorthandArrayParameters? t with _ | parameters
  case some => simp [of, read?, hsimple, hduck, hgeneric, hlist, hmap, harray]
  simp only [of, read?, hsimple, hduck, hgeneric, hlist, hmap, harray, Literal.kind?]
  by_cases hsymbol : Literal.isSymbol t = true
  · simp [hsymbol]
  by_cases hinteger : Literal.isInteger t = true
  · simp [hsymbol, hinteger]
  by_cases hfloat : Literal.isFloat t = true
  · simp [hsymbol, hinteger, hfloat]
  simp [hsymbol, hinteger, hfloat, firstOf]

/-- The shape of a text is what its candidate makes of it, if anything. -/
theorem of_eq_read? (t : Text) : of t = ((candidate t).read? t).getD .unrecognized :=
  (of_eq t).trans (firstOf_eq t mem_all)

theorem of_eq_unrecognized_iff : of t = .unrecognized ↔ ∀ r, ¬ Accepts r t := by
  rw [of_eq_read?]
  cases hread : (candidate t).read? t with
  | some shape =>
    exact iff_of_false (ne_unrecognized hread) fun hnone => hnone _ ⟨shape, hread⟩
  | none => exact iff_of_true rfl (not_accepts hread)

/-- **The recognizers exclude each other**, so that the shape of a text is the same in whatever order
they are tried, and a text has none exactly when no recognizer accepts it. -/
theorem of_eq_firstOf (t : Text) {order : List Recognizer} (h : ∀ r, r ∈ order) :
    (∀ r r', Accepts r t → Accepts r' t → r = r') ∧ of t = firstOf order t ∧
      (of t = .unrecognized ↔ ∀ r, ¬ Accepts r t) :=
  ⟨fun _ _ => eq_of_accepts, (of_eq_read? t).trans (firstOf_eq t h).symm, of_eq_unrecognized_iff⟩

/-- An operator of brackets is the name of a method, in whatever order this is found out. -/
theorem of_eq_firstOf_reversed :
    let order := Recognizer.all.reverse
    (∀ r, r ∈ order) ∧ of " #<=>" = firstOf order " #<=>" ∧
      firstOf order " #<=>" = .duckType ["#<=>"] := by
  have h : ∀ r, r ∈ Recognizer.all.reverse := fun r => List.mem_reverse.mpr (mem_all r)
  exact ⟨h, (of_eq_firstOf " #<=>" h).2.1, by decide⟩

end Shape
end DocTypes
