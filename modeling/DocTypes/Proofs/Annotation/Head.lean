import DocTypes.Annotation.Shape
import DocTypes.Proofs.Annotation.Depth
import DocTypes.Proofs.Name
import DocTypes.Proofs.Text.Trim

/-! # Heads of bracketed annotations

A bracketed annotation is some parameters with brackets around them and possibly a name in front;
all but the parameters is its `Head`, and `Head.shape` is what the annotation should be read as.
Around a balanced text a head makes a balanced text without a separator of its own
(`Head.balanced_around`, `Head.unseparated_around`).

What an annotation begins or ends with tells it from others: no identifier ends in a bracket, no duck
type begins with anything but a number sign, and what brackets after a name hold is up to these
brackets alone (`Shape.genericParts?_around`). -/

namespace DocTypes

/-- A run of blanks. -/
structure Blanks where
  text : Text
  blank : text.all Text.isBlank = true

/-- No blanks at all. -/
def Blanks.none : Blanks := ⟨[], rfl⟩

/-- A constant path. -/
structure Identifier where
  text : Text
  simple : Name.isSimple text = true

/-- A pair of brackets. -/
inductive Bracket where
  | angle
  | brace
  | parenthesis

namespace Bracket

def opener : Bracket → Char
  | angle => '<'
  | brace => '\x7b'
  | parenthesis => '('

def closer : Bracket → Char
  | angle => '>'
  | brace => '\x7d'
  | parenthesis => ')'

theorem isOpener_opener (b : Bracket) : Brackets.isOpener b.opener = true := by
  cases b <;> rfl

theorem isCloser_closer (b : Bracket) : Brackets.isCloser b.closer = true := by
  cases b <;> rfl

end Bracket

/-- What stands around the parameters of a bracketed annotation. -/
inductive Head where
  /-- A name, some blanks, and braces or angle brackets. -/
  | generic (name : Identifier) (gap : Blanks) (braces : Bool)
  /-- The word `Array` and parentheses. -/
  | namedList
  /-- Parentheses. -/
  | list
  /-- Braces. -/
  | map
  /-- Angle brackets. -/
  | array

namespace Head

/-- What stands before the brackets. -/
def lead : Head → Text
  | generic name gap _ => name.text ++ gap.text
  | namedList => "Array"
  | _ => []

def bracket : Head → Bracket
  | generic _ _ braces => if braces then .brace else .angle
  | namedList | list => .parenthesis
  | map => .brace
  | array => .angle

/-- The annotation with the given parameters. -/
def around (head : Head) (parameters : Text) : Text :=
  head.lead ++ head.bracket.opener :: (parameters ++ [head.bracket.closer])

/-- What the annotation is read as. -/
def shape (parameters : Text) : Head → Shape
  | generic name _ _ => .generic name.text parameters
  | namedList | list => .orderedList parameters
  | map => .shorthandHash parameters
  | array => .shorthandArray parameters

end Head

/-! ## Characters -/

section Characters

variable {c : Char}

theorem isMark_of_isOpener (h : Brackets.isOpener c = true) : isMark c = true := by
  simp [isMark, h]

theorem isMark_of_isCloser (h : Brackets.isCloser c = true) : isMark c = true := by
  simp [isMark, h]

theorem isMark_iff : isMark c = true ↔ Brackets.isOpener c = true ∨ Brackets.isCloser c = true ∨
    c = ',' ∨ c = '=' := by
  simp [isMark, or_assoc]

/-- No mark is blank or belongs to a path. -/
theorem plain_of_isMark (h : isMark c = true) :
    Text.isBlank c = false ∧ Name.isPathPart c = false := by
  rcases isMark_iff.mp h with h | h | rfl | rfl
  · rcases isOpener_iff.mp h with rfl | rfl | rfl <;> decide
  · rcases isCloser_iff.mp h with rfl | rfl | rfl <;> decide
  · decide
  · decide

theorem unmarked_of_isBlank (h : Text.isBlank c = true) : isMark c = false := by
  cases hmark : isMark c with
  | false => rfl
  | true => exact absurd h (by simp [(plain_of_isMark hmark).1])

theorem unmarked_of_isPathPart (h : Name.isPathPart c = true) : isMark c = false := by
  cases hmark : isMark c with
  | false => rfl
  | true => exact absurd h (by simp [(plain_of_isMark hmark).2])

/-- The characters of paths are among the printed ones of the ASCII range. -/
theorem toNat_of_isPathPart (h : Name.isPathPart c = true) : 48 ≤ c.toNat ∧ c.toNat ≤ 122 := by
  have halpha : c.isAlpha = (c.isUpper || c.isLower) := rfl
  have hupper : c.isUpper = decide (c.val ≥ 'A'.val ∧ c.val ≤ 'Z'.val) := rfl
  have hlower : c.isLower = (decide (c.val ≥ 'a'.val) && decide (c.val ≤ 'z'.val)) := rfl
  simp only [Name.isPathPart, Name.isWordPart, Char.isAlphanum, halpha, hupper, hlower,
    Char.isDigit, Bool.or_eq_true, Bool.and_eq_true, decide_eq_true_eq, beq_iff_eq,
    UInt32.le_iff_toNat_le, ge_iff_le] at h
  rcases h with (((h | h) | h) | rfl) | rfl
  · exact ⟨Nat.le_trans (by decide) h.1, Nat.le_trans h.2 (by decide)⟩
  · exact ⟨Nat.le_trans (by decide) h.1, h.2⟩
  · exact ⟨h.1, Nat.le_trans h.2 (by decide)⟩
  · decide
  · decide

/-- No character of a path is blank or begins a duck type. -/
theorem plain_of_isPathPart (h : Name.isPathPart c = true) :
    Text.isBlank c = false ∧ c ≠ '#' := by
  obtain ⟨hlow, hhigh⟩ := toNat_of_isPathPart h
  constructor
  · have hspace : c ≠ ' ' := by
      rintro rfl
      exact absurd hlow (by decide)
    simp [Text.isBlank, Text.blankRanges, hspace]
    omega
  · rintro rfl
    exact absurd hlow (by decide)

theorem ne_of_isPathPart (h : Name.isPathPart c = true) {d : Char} (hd : isMark d = true) :
    c ≠ d := by
  rintro rfl
  rw [unmarked_of_isPathPart h] at hd
  cases hd

theorem not_isPathPart_of_isBlank (h : Text.isBlank c = true) : Name.isPathPart c = false := by
  cases hpart : Name.isPathPart c with
  | false => rfl
  | true => exact absurd h (by simp [(plain_of_isPathPart hpart).1])

end Characters

theorem Blanks.isBlank_of_mem (blanks : Blanks) : ∀ c ∈ blanks.text, Text.isBlank c = true :=
  List.all_eq_true.mp blanks.blank

theorem Blanks.unmarked (blanks : Blanks) : ∀ c ∈ blanks.text, isMark c = false :=
  fun c hc => unmarked_of_isBlank (blanks.isBlank_of_mem c hc)

theorem Identifier.unmarked (name : Identifier) : ∀ c ∈ name.text, isMark c = false :=
  fun _ hc => unmarked_of_isPathPart (Name.isPathPart_of_mem name.simple hc)

theorem Identifier.ne_nil (name : Identifier) : name.text ≠ [] := by
  have h := name.simple
  simp only [Name.isSimple, Bool.and_eq_true, bne_iff_ne] at h
  exact h.1

theorem Identifier.eq_cons (name : Identifier) :
    ∃ c cs, name.text = c :: cs ∧ Text.isBlank c = false := by
  obtain ⟨c, cs, hname⟩ := List.exists_cons_of_ne_nil name.ne_nil
  have hc : c ∈ name.text := hname ▸ List.mem_cons_self
  exact ⟨c, cs, hname, (plain_of_isPathPart (Name.isPathPart_of_mem name.simple hc)).1⟩

/-! ## Around a balanced text -/

namespace Head

variable {head : Head} {t : Text}

/-- The word in front of an ordered list is an identifier. -/
def arrayName : Identifier := ⟨"Array", rfl⟩

theorem lead_unmarked (head : Head) : ∀ c ∈ head.lead, isMark c = false := by
  cases head with
  | generic name gap braces =>
    intro c hc
    rcases List.mem_append.mp hc with hc | hc
    · exact name.unmarked c hc
    · exact gap.unmarked c hc
  | namedList => exact arrayName.unmarked
  | list | map | array => exact fun c hc => nomatch hc

theorem balanced_around (h : Balanced t) : Balanced (head.around t) :=
  (Balanced.of_unmarked head.lead_unmarked).append
    (h.enclose head.bracket.isOpener_opener head.bracket.isCloser_closer)

theorem unseparated_around (h : Balanced t) :
    Parameters.Unseparated Level.outside (head.around t) := by
  have hlead := Balanced.of_unmarked head.lead_unmarked
  refine Parameters.unseparated_append (Parameters.unseparated_of_unmarked head.lead_unmarked)
    hlead.apart ?_
  rw [hlead.closed]
  exact Parameters.unseparated_enclose h head.bracket.isOpener_opener
    head.bracket.isCloser_closer

/-- An annotation in brackets does not begin with a blank. -/
theorem around_eq_cons (head : Head) : ∃ c lead, Text.isBlank c = false ∧
    ∀ t, head.around t = c :: (lead ++ t ++ [head.bracket.closer]) := by
  cases head with
  | generic name gap braces =>
    obtain ⟨c, cs, hname, hblank⟩ := name.eq_cons
    refine ⟨c, cs ++ gap.text ++ [(generic name gap braces).bracket.opener], hblank, ?_⟩
    simp [around, lead, hname]
  | namedList => exact ⟨'A', ['r', 'r', 'a', 'y', '('], by decide, fun t => rfl⟩
  | list => exact ⟨'(', [], by decide, fun t => rfl⟩
  | map => exact ⟨'\x7b', [], by decide, fun t => rfl⟩
  | array => exact ⟨'<', [], by decide, fun t => rfl⟩

theorem closer_mem_around : head.bracket.closer ∈ head.around t := by
  simp [around]

theorem trim_around : Text.trim (head.around t) = head.around t := by
  obtain ⟨c, lead, hc, heq⟩ := head.around_eq_cons
  rw [heq]
  exact Text.trim_of_ends hc
    (plain_of_isMark (isMark_of_isCloser head.bracket.isCloser_closer)).1 _

end Head

/-! ## Recognizing the head -/

namespace Shape

variable {head : Head} {t : Text}

/-- A text with a mark in it is no path. -/
theorem isSimple_of_isMark {c : Char} (hc : c ∈ t) (hmark : isMark c = true) :
    Name.isSimple t = false := by
  cases hsimple : Name.isSimple t with
  | false => rfl
  | true =>
    have hpart := Name.isPathPart_of_mem hsimple hc
    exact absurd hpart (by simp [(plain_of_isMark hmark).2])

theorem isSimple_around : Name.isSimple (head.around t) = false :=
  isSimple_of_isMark head.closer_mem_around (isMark_of_isCloser head.bracket.isCloser_closer)

/-- A duck type begins with a number sign. -/
theorem duckAtoms?_cons {c : Char} (hblank : Text.isBlank c = false) (hsign : c ≠ '#') (cs : Text) :
    duckAtoms? (c :: cs) = none := by
  have hatom : ∀ rest, isDuckAtom (Text.trim (c :: rest)) = false := by
    intro rest
    rw [Text.trim_cons hblank, isDuckAtom]
    rintro method ⟨⟩
    exact hsign rfl
  have hfirst : ((Text.pieces (· == '&') (c :: cs)).map Text.trim).all isDuckAtom = false := by
    rw [Text.pieces]
    split
    · rfl
    · cases Text.pieces (· == '&') cs with
      | nil => simp [Text.consFirst, hatom]
      | cons piece rest => simp [Text.consFirst, hatom]
  have hne : c :: cs ≠ ("#&" : String).toList := fun h => hsign (List.cons.inj h).1
  rw [duckAtoms?, if_neg hne]
  simp [hfirst]

/-- A mark after an identifier, with blanks in between, ends its path. -/
theorem pathLength_append (name : Identifier) (gap : Blanks) {c : Char} (hc : isMark c = true)
    (rest : Text) : Name.pathLength (name.text ++ gap.text ++ c :: rest) = name.text.length := by
  rw [List.append_assoc]
  refine Name.pathLength_append name.simple fun d hd => ?_
  cases hgap : gap.text with
  | nil =>
    rw [hgap] at hd
    cases hd
    exact (plain_of_isMark hc).2
  | cons b bs =>
    rw [hgap] at hd
    cases hd
    exact not_isPathPart_of_isBlank (gap.isBlank_of_mem _ (hgap ▸ List.mem_cons_self))

theorem pathLength_ne_zero (name : Identifier) (gap : Blanks) {c : Char} (hc : isMark c = true)
    (rest : Text) : Name.pathLength (name.text ++ gap.text ++ c :: rest) ≠ 0 := by
  rw [pathLength_append name gap hc]
  simp [name.ne_nil]

/-- What stands in brackets after an identifier and blanks. -/
theorem genericParts?_append (name : Identifier) (gap : Blanks) {c : Char} (hc : isMark c = true)
    (rest : Text) :
    genericParts? (name.text ++ gap.text ++ c :: rest) =
      ((Brackets.enclosed? '<' '>' (c :: rest)).or
        (Brackets.enclosed? '\x7b' '\x7d' (c :: rest))).map (name.text, ·) := by
  have hne : name.text.length ≠ 0 := by simp [name.ne_nil]
  rw [genericParts?, pathLength_append name gap hc, List.append_assoc]
  simp only [if_neg hne, List.take_left, List.drop_left, Text.trimStart_append gap.isBlank_of_mem,
    Text.trimStart_cons (plain_of_isMark hc).1]
  cases Brackets.enclosed? '<' '>' (c :: rest) with
  | none => rfl
  | some parameters => rfl

theorem genericParts?_around (name : Identifier) (gap : Blanks) (braces : Bool) (t : Text) :
    let bracket := (Head.generic name gap braces).bracket
    genericParts? ((Head.generic name gap braces).around t) =
      (Brackets.enclosed? bracket.opener bracket.closer
        (bracket.opener :: (t ++ [bracket.closer]))).map (name.text, ·) := by
  intro bracket
  refine (genericParts?_append name gap (isMark_of_isOpener bracket.isOpener_opener) _).trans ?_
  cases braces with
  | false => exact congrArg (Option.map (name.text, ·)) Option.or_none
  | true => rfl

end Shape
end DocTypes
