import DocTypes.Proofs.Annotation.Literal
import DocTypes.Proofs.Annotation.MethodName
import DocTypes.Proofs.Text.Lines

/-! # The grammar of literals

Each kind of literal is a regular language (`LiteralKind.language`), no two of these have a text in
common, and a text is taken for a literal of a kind exactly when it is in the language of that kind
(`kind?_iff_mem_language`).

A number is read in steps: a sign is dropped, the rest is cut at the first `e`, and what stands
before that at the first point.  Each step undoes one concatenation of the grammar, because what
precedes the place of the cut has no such place in it: no digits hold a point or an `e`, and none
begin with a sign. -/

namespace DocTypes

open Text
open scoped Computability

namespace Literal

/-! ## Languages -/

/-- A digit, and any number of digits and underscores after it. -/
def digits (ranges : List (Char × Char)) : Language Char :=
  oneOf ranges * (oneOf (('_', '_') :: ranges))∗

def decimal : Language Char := digits [('0', '9')]

/-- A single sign, or none. -/
def sign : Language Char := optional (among ["+", "-"])

/-- Integers without their sign.  The radix is told by two characters in front, if it is not ten. -/
def unsignedInteger : Language Char :=
  decimal + among ["0x"] * digits [('0', '9'), ('a', 'f'), ('A', 'F')] +
    among ["0b"] * digits [('0', '1')] + among ["0o"] * digits [('0', '7')]

def integerLanguage : Language Char := sign * unsignedInteger

def point : Language Char := among ["."]

def exponent : Language Char := oneOf [('e', 'e'), ('E', 'E')] * (sign * decimal)

/-- A point with digits on one side of it at least. -/
def pointed : Language Char := decimal * (point * optional decimal) + point * decimal

/-- Floats without their sign, the names aside.  There is a point or an exponent. -/
def unsignedFloat : Language Char := pointed * optional exponent + decimal * exponent

/-- Infinity, what is no number and has no sign, and numbers with a point or an exponent. -/
def floatLanguage : Language Char :=
  sign * among [".inf", ".Inf", ".INF"] + among [".nan", ".NaN", ".NAN"] + sign * unsignedFloat

/-- What stands between two quotes. -/
def quotedBy (quote : Char) : Language Char :=
  {t | 2 ≤ t.length ∧ t.head? = some quote ∧ t.getLast? = some quote}

/-- A colon, and a quoted text or the name of a method after it. -/
def symbolLanguage : Language Char :=
  among [":"] * (quotedBy '"' + quotedBy '\'' + methodLanguage)

end Literal

/-- The literals of a kind. -/
def LiteralKind.language : LiteralKind → Language Char
  | symbol => Literal.symbolLanguage
  | float => Literal.floatLanguage
  | integer => Literal.integerLanguage

namespace Literal

variable {t : Text} {ranges : List (Char × Char)} {isDigit : Char → Bool} {l : Language Char}

/-! ## Digits -/

theorem mem_digits (h : ∀ c, isDigit c = inRanges ranges c) :
    t ∈ digits ranges ↔ isDigits isDigit t = true := by
  have hrest : ∀ c, inRanges (('_', '_') :: ranges) c = (isDigit c || c == '_') := by
    intro c
    rw [h c, beq_eq_inRange, Bool.or_comm]
    rfl
  rw [digits, mem_oneOf_mul]
  simp only [mem_kstar_oneOf, hrest, ← h]
  constructor
  · rintro ⟨c, cs, rfl, hc, hcs⟩
    rw [isDigits, hc, Bool.true_and, List.all_eq_true]
    exact hcs
  · intro hdigits
    cases t with
    | nil => cases hdigits
    | cons c cs =>
      rw [isDigits, Bool.and_eq_true, List.all_eq_true] at hdigits
      exact ⟨c, cs, rfl, hdigits.1, hdigits.2⟩

theorem mem_decimal : t ∈ decimal ↔ isDigits Char.isDigit t = true := by
  refine mem_digits fun c => ?_
  simp [inRanges, Char.isDigit, Char.le_def]

theorem mem_hexadecimal :
    t ∈ digits [('0', '9'), ('a', 'f'), ('A', 'F')] ↔ isDigits isHexDigit t = true := by
  refine mem_digits fun c => ?_
  simp [inRanges, isHexDigit, Char.isDigit, Char.le_def, Bool.or_assoc]

theorem mem_binary : t ∈ digits [('0', '1')] ↔ isDigits isBinaryDigit t = true := by
  refine mem_digits fun c => ?_
  have hzero : c = '0' ↔ c.toNat = 48 := (Char.toNat_inj (d := '0')).symm
  have hone : c = '1' ↔ c.toNat = 49 := (Char.toNat_inj (d := '1')).symm
  rw [Bool.eq_iff_iff]
  simp only [inRanges, isBinaryDigit, List.any_cons, List.any_nil, Bool.or_false, Bool.or_eq_true,
    Bool.and_eq_true, beq_iff_eq, decide_eq_true_eq, Char.le_def, UInt32.le_iff_toNat_le,
    Char.toNat_val, hzero, hone]
  show _ ↔ 48 ≤ c.toNat ∧ c.toNat ≤ 49
  omega

theorem mem_octal : t ∈ digits [('0', '7')] ↔ isDigits isOctalDigit t = true := by
  refine mem_digits fun c => ?_
  simp [inRanges, isOctalDigit]

/-! ## Signs -/

theorem dropSign_of_beginsNumber (h : beginsNumber t = true) : dropSign t = t := by
  unfold dropSign
  split
  · cases h
  · cases h
  · rfl

/-- **A sign is dropped from a number that may have one**, for nothing else of it is a sign. -/
theorem mem_sign_mul (h : ∀ t ∈ l, beginsNumber t = true) : t ∈ sign * l ↔ dropSign t ∈ l := by
  rw [sign, optional_mul, Language.mem_add, Language.mem_mul]
  constructor
  · rintro (hplain | ⟨front, hfront, rest, hrest, rfl⟩)
    · rwa [dropSign_of_beginsNumber (h t hplain)]
    · rw [mem_among, List.mem_cons, List.mem_singleton] at hfront
      rcases hfront with rfl | rfl
      · exact hrest
      · exact hrest
  · intro hdrop
    unfold dropSign at hdrop
    split at hdrop
    · next cs => exact Or.inr ⟨"-", by decide, cs, hdrop, rfl⟩
    · next cs => exact Or.inr ⟨"+", by decide, cs, hdrop, rfl⟩
    · exact Or.inl hdrop

/-! ## Integers -/

theorem beginsNumber_of_mem_decimal (h : t ∈ decimal) : beginsNumber t = true :=
  beginsNumber_of_isDigits (mem_decimal.mp h)

theorem mem_unsignedInteger : t ∈ unsignedInteger ↔
    isDigits Char.isDigit t = true ∨
      (∃ rest, isDigits isHexDigit rest = true ∧ t = '0' :: 'x' :: rest) ∨
      (∃ rest, isDigits isBinaryDigit rest = true ∧ t = '0' :: 'b' :: rest) ∨
      ∃ rest, isDigits isOctalDigit rest = true ∧ t = '0' :: 'o' :: rest := by
  simp only [unsignedInteger, Language.mem_add, mem_among_singleton_mul, mem_decimal,
    mem_hexadecimal, mem_binary, mem_octal, or_assoc]
  exact Iff.rfl

theorem beginsNumber_of_mem_unsignedInteger (h : t ∈ unsignedInteger) : beginsNumber t = true := by
  rcases mem_unsignedInteger.mp h with hten | ⟨rest, -, rfl⟩ | ⟨rest, -, rfl⟩ | ⟨rest, -, rfl⟩
  · exact beginsNumber_of_isDigits hten
  · rfl
  · rfl
  · rfl

/-- **What is recognized as an integer is the language of integers.** -/
theorem mem_integerLanguage : t ∈ integerLanguage ↔ isInteger t = true := by
  rw [integerLanguage, mem_sign_mul fun _ => beginsNumber_of_mem_unsignedInteger,
    mem_unsignedInteger]
  unfold isInteger
  split
  · next digits heq => simp [heq, isDigits]
  · next digits heq => simp [heq, isDigits]
  · next digits heq => simp [heq, isDigits]
  · next hhex hbinary hoctal =>
    -- No radix is told in front, so that only ten is left.
    constructor
    · rintro (hten | ⟨rest, -, heq⟩ | ⟨rest, -, heq⟩ | ⟨rest, -, heq⟩)
      · exact hten
      · exact absurd heq (hhex rest)
      · exact absurd heq (hbinary rest)
      · exact absurd heq (hoctal rest)
    · exact Or.inl

/-! ## Floats -/

theorem point_not_mem_of_mem_decimal (h : t ∈ decimal) : ∀ c ∈ t, (c == '.') = false := by
  intro c hc
  rw [beq_eq_false_iff_ne]
  exact (plain_of_isDigits (mem_decimal.mp h) rfl rfl rfl c hc).1

theorem ne_nil_of_mem_decimal (h : t ∈ decimal) : t ≠ [] := by
  rintro rfl
  exact absurd (mem_decimal.mp h) (by decide)

theorem isMantissa_append {whole fraction : Text} (h : whole = [] ∨ whole ∈ decimal)
    (hasExponent : Bool) : isMantissa hasExponent (whole ++ '.' :: fraction) = true ↔
      (fraction = [] ∨ fraction ∈ decimal) ∧ ¬ (whole = [] ∧ fraction = []) := by
  have hplain : ∀ c ∈ whole, (c == '.') = false := by
    rcases h with rfl | hdigits
    · exact List.forall_mem_nil _
    · exact point_not_mem_of_mem_decimal hdigits
  have hwhole : (whole.isEmpty || isDigits Char.isDigit whole) = true := by
    rwa [Bool.or_eq_true, List.isEmpty_iff, ← mem_decimal]
  rw [isMantissa, Text.cutAtFirst?_append hplain rfl]
  simp only [hwhole, Bool.true_and, Bool.and_eq_true, Bool.or_eq_true, Bool.not_eq_true',
    List.isEmpty_iff, ← mem_decimal, not_and_or, ← Bool.not_eq_true]

/-- **A mantissa has a point, or is made of digits where an exponent follows.** -/
theorem isMantissa_iff {hasExponent : Bool} :
    isMantissa hasExponent t = true ↔ t ∈ pointed ∨ hasExponent = true ∧ t ∈ decimal := by
  rw [pointed, Language.mem_add, Language.mem_mul]
  simp only [point, mem_among_singleton_mul, mem_optional]
  constructor
  · intro h
    cases hcut : t.cutAtFirst? (· == '.') with
    | none =>
      rw [isMantissa, hcut, Bool.and_eq_true, ← mem_decimal] at h
      exact Or.inr h
    | some sides =>
      obtain ⟨c, hc, rfl, -⟩ := Text.cutAtFirst?_eq_some hcut
      obtain rfl : c = '.' := by simpa using hc
      have hwhole : sides.1 = [] ∨ sides.1 ∈ decimal := by
        rw [isMantissa, hcut] at h
        simp only [Bool.and_eq_true, Bool.or_eq_true, List.isEmpty_iff, ← mem_decimal] at h
        exact h.1.1
      obtain ⟨hfraction, hne⟩ := (isMantissa_append hwhole hasExponent).mp h
      left
      rcases hwhole with hnil | hdigits
      · rw [hnil] at hne ⊢
        exact Or.inr ⟨_, hfraction.resolve_left fun hnil => hne ⟨rfl, hnil⟩, rfl⟩
      · exact Or.inl ⟨_, hdigits, _, ⟨_, hfraction, rfl⟩, rfl⟩
  · rintro ((⟨whole, hwhole, rest, ⟨fraction, hfraction, rfl⟩, rfl⟩ | ⟨fraction, hfraction, rfl⟩) |
      ⟨rfl, hdigits⟩)
    · refine (isMantissa_append (Or.inr hwhole) hasExponent).mpr ⟨hfraction, ?_⟩
      exact fun h => ne_nil_of_mem_decimal hwhole h.1
    · refine (isMantissa_append (Or.inl rfl) hasExponent).mpr ⟨Or.inr hfraction, ?_⟩
      exact fun h => ne_nil_of_mem_decimal hfraction h.2
    · have hplain : ∀ c ∈ t, c ≠ '.' := fun c hc =>
        beq_eq_false_iff_ne.mp (point_not_mem_of_mem_decimal hdigits c hc)
      rw [isMantissa_of_forall hplain, Bool.true_and]
      exact mem_decimal.mp hdigits

theorem mem_exponent : t ∈ exponent ↔
    ∃ c power, t = c :: power ∧ (c == 'e' || c == 'E') = true ∧ dropSign power ∈ decimal := by
  have hmark : ∀ c, inRanges [('e', 'e'), ('E', 'E')] c = (c == 'e' || c == 'E') := by
    intro c
    rw [beq_eq_inRange, beq_eq_inRange, inRanges, List.any_cons, List.any_cons, List.any_nil,
      Bool.or_false]
  have hpower : ∀ power, power ∈ sign * decimal ↔ dropSign power ∈ decimal := fun _ =>
    mem_sign_mul fun _ => beginsNumber_of_mem_decimal
  simp only [exponent, mem_oneOf_mul, hmark, hpower]

/-- No mantissa holds the mark of an exponent. -/
theorem mark_not_mem_of_mantissa (h : t ∈ pointed ∨ t ∈ decimal) :
    ∀ c ∈ t, (c == 'e' || c == 'E') = false := by
  have hdecimal : ∀ {u : Text}, u = [] ∨ u ∈ decimal → ∀ c ∈ u, (c == 'e' || c == 'E') = false := by
    rintro u (rfl | hu) c hc
    · exact absurd hc List.not_mem_nil
    · have hplain := (plain_of_isDigits (mem_decimal.mp hu) rfl rfl rfl c hc).2
      rw [Bool.or_eq_false_iff, beq_eq_false_iff_ne, beq_eq_false_iff_ne]
      exact hplain
  rcases h with hpointed | hdigits
  · rw [pointed, Language.mem_add, Language.mem_mul] at hpointed
    simp only [point, mem_among_singleton_mul, mem_optional] at hpointed
    have hpoint : ∀ c ∈ (".".toList : Text), (c == 'e' || c == 'E') = false :=
      List.forall_mem_singleton.mpr rfl
    rcases hpointed with ⟨whole, hwhole, rest, ⟨fraction, hfraction, rfl⟩, rfl⟩ |
      ⟨fraction, hfraction, rfl⟩
    · refine List.forall_mem_append.mpr ⟨hdecimal (Or.inr hwhole), ?_⟩
      exact List.forall_mem_append.mpr ⟨hpoint, hdecimal hfraction⟩
    · exact List.forall_mem_append.mpr ⟨hpoint, hdecimal (Or.inr hfraction)⟩
  · exact hdecimal (Or.inr hdigits)

/-- A number with an exponent is a mantissa, the mark, and digits that may have a sign. -/
theorem mem_unsignedFloat : t ∈ unsignedFloat ↔ t ∈ pointed ∨
    ∃ mantissa c power, t = mantissa ++ c :: power ∧ (c == 'e' || c == 'E') = true ∧
      (mantissa ∈ pointed ∨ mantissa ∈ decimal) ∧ dropSign power ∈ decimal := by
  rw [unsignedFloat, mul_optional, add_assoc, ← add_mul, Language.mem_add, Language.mem_mul]
  refine or_congr_right ?_
  simp only [mem_exponent, Language.mem_add]
  constructor
  · rintro ⟨mantissa, hmantissa, _, ⟨c, power, rfl, hc, hpower⟩, rfl⟩
    exact ⟨mantissa, c, power, rfl, hc, hmantissa, hpower⟩
  · rintro ⟨mantissa, c, power, rfl, hc, hmantissa, hpower⟩
    exact ⟨mantissa, hmantissa, _, ⟨c, power, rfl, hc, hpower⟩, rfl⟩

/-- What a number begins with is no sign, a point or an exponent in it or not. -/
theorem beginsNumber_of_mem_unsignedFloat (h : t ∈ unsignedFloat) : beginsNumber t = true := by
  have hmantissa : ∀ {u : Text}, u ∈ pointed ∨ u ∈ decimal → beginsNumber u = true := fun hu =>
    beginsNumber_of_isMantissa (isMantissa_iff.mpr (hu.imp_right fun h => ⟨rfl, h⟩))
  rcases mem_unsignedFloat.mp h with hpointed | ⟨mantissa, c, power, rfl, -, hsides, -⟩
  · exact hmantissa (Or.inl hpointed)
  · exact beginsNumber_append (hmantissa hsides) _

/-- **Cutting at the first mark of an exponent decides what is a number with a point or one.** -/
theorem mem_unsignedFloat_iff_cut : t ∈ unsignedFloat ↔
    (match t.cutAtFirst? (fun c => c == 'e' || c == 'E') with
      | some (mantissa, power) =>
        isDigits Char.isDigit (dropSign power) && isMantissa true mantissa
      | none => isMantissa false t) = true := by
  rw [mem_unsignedFloat]
  constructor
  · rintro (hpointed | ⟨mantissa, c, power, rfl, hc, hmantissa, hpower⟩)
    · have hplain := mark_not_mem_of_mantissa (Or.inl hpointed)
      rw [Text.cutAtFirst?_eq_none hplain]
      exact isMantissa_iff.mpr (Or.inl hpointed)
    · rw [Text.cutAtFirst?_append (mark_not_mem_of_mantissa hmantissa) hc]
      refine Bool.and_eq_true_iff.mpr ⟨mem_decimal.mp hpower, isMantissa_iff.mpr ?_⟩
      exact hmantissa.imp_right fun h => ⟨rfl, h⟩
  · intro h
    split at h
    · next mantissa power hcut =>
      obtain ⟨c, hc, rfl, -⟩ := Text.cutAtFirst?_eq_some hcut
      obtain ⟨hpower, hmantissa⟩ := Bool.and_eq_true_iff.mp h
      refine Or.inr ⟨mantissa, c, power, rfl, hc, ?_, mem_decimal.mpr hpower⟩
      exact (isMantissa_iff.mp hmantissa).imp_right And.right
    · exact Or.inl ((isMantissa_iff.mp h).resolve_right fun h => Bool.false_ne_true h.1)

/-- **What is recognized as a float is the language of floats.** -/
theorem mem_floatLanguage : t ∈ floatLanguage ↔ isFloat t = true := by
  have hinfinity : t ∈ sign * among [".inf", ".Inf", ".INF"] ↔
      dropSign t ∈ among [".inf", ".Inf", ".INF"] := by
    have hbegin : ∀ t ∈ ([".inf", ".Inf", ".INF"] : List Text), beginsNumber t = true := by decide
    exact mem_sign_mul hbegin
  have hnumber : t ∈ sign * unsignedFloat ↔ dropSign t ∈ unsignedFloat :=
    mem_sign_mul fun _ => beginsNumber_of_mem_unsignedFloat
  rw [floatLanguage, Language.mem_add, Language.mem_add, hinfinity, hnumber,
    mem_unsignedFloat_iff_cut, isFloat, Bool.or_eq_true]
  refine or_congr_left ?_
  simp only [mem_among, List.mem_cons, List.not_mem_nil, or_false, Bool.or_eq_true, beq_iff_eq,
    or_assoc]

/-! ## Symbols -/

theorem mem_quotedBy {quote : Char} : t ∈ quotedBy quote ↔
    2 ≤ t.length ∧ t.startsWith [quote] = true ∧ t.endsWith [quote] = true := by
  have hstart : t.startsWith [quote] = true ↔ t.head? = some quote := by
    rw [startsWith_iff, List.head?_eq_some_iff]
    exact ⟨fun ⟨cs, h⟩ => ⟨cs, h.symm⟩, fun ⟨cs, h⟩ => ⟨cs, h.symm⟩⟩
  have hend : t.endsWith [quote] = true ↔ t.getLast? = some quote := by
    rw [endsWith, List.isSuffixOf_iff_suffix, List.getLast?_eq_some_iff]
    exact ⟨fun ⟨cs, h⟩ => ⟨cs, h.symm⟩, fun ⟨cs, h⟩ => ⟨cs, h.symm⟩⟩
  rw [hstart, hend]
  exact Iff.rfl

/-- **What is recognized as a symbol is the language of symbols.** -/
theorem mem_symbolLanguage : t ∈ symbolLanguage ↔ isSymbol t = true := by
  have hbody : ∀ body, body ∈ quotedBy '"' + quotedBy '\'' + methodLanguage ↔
      (isQuoted body || isMethodName body) = true := by
    intro body
    rw [Language.mem_add, Language.mem_add, mem_quotedBy, mem_quotedBy, mem_methodLanguage,
      isQuoted, Bool.or_eq_true, ← and_or_left]
    simp only [Bool.and_eq_true, Bool.or_eq_true, decide_eq_true_eq]
  rw [symbolLanguage, mem_among_singleton_mul]
  constructor
  · rintro ⟨body, hmem, rfl⟩
    exact (hbody body).mp hmem
  · intro h
    unfold isSymbol at h
    split at h
    · next body => exact ⟨body, (hbody body).mpr h, rfl⟩
    · cases h

/-! ## Kinds -/

/-- A symbol begins with a colon, and no number does. -/
theorem not_number_of_isSymbol (h : isSymbol t = true) :
    isInteger t = false ∧ isFloat t = false := by
  obtain ⟨body, rfl, -⟩ := exists_of_isSymbol h
  have hbegins : ¬ beginsNumber (dropSign (':' :: body)) = true := Bool.false_ne_true
  constructor
  · exact Bool.eq_false_iff.mpr fun hinteger => hbegins (beginsNumber_of_isInteger hinteger)
  · exact Bool.eq_false_iff.mpr fun hfloat => hbegins (beginsNumber_of_isFloat hfloat)

/-- A text is asked for each kind in turn, which cannot matter: at most one kind accepts it. -/
theorem kind?_eq_some_iff {kind : LiteralKind} : kind? t = some kind ↔
    match kind with
    | .symbol => isSymbol t = true
    | .float => isFloat t = true
    | .integer => isInteger t = true := by
  unfold kind?
  by_cases hsymbol : isSymbol t = true
  · obtain ⟨hinteger, hfloat⟩ := not_number_of_isSymbol hsymbol
    cases kind <;> simp [hsymbol, hinteger, hfloat]
  · by_cases hinteger : isInteger t = true
    · have hfloat := isFloat_of_isInteger hinteger
      cases kind <;> simp [hsymbol, hinteger, hfloat]
    · by_cases hfloat : isFloat t = true
      · cases kind <;> simp [hsymbol, hinteger, hfloat]
      · cases kind <;> simp [hsymbol, hinteger, hfloat]

theorem mem_language {kind : LiteralKind} : t ∈ kind.language ↔ kind? t = some kind := by
  rw [kind?_eq_some_iff]
  cases kind with
  | symbol => exact mem_symbolLanguage
  | float => exact mem_floatLanguage
  | integer => exact mem_integerLanguage

/-- **A text is a literal of a kind exactly when it is in the language of that kind**, and no literal
exactly when it is in none of the three. -/
theorem kind?_iff_mem_language (t : Text) :
    (∀ kind, kind? t = some kind ↔ t ∈ kind.language) ∧
      (kind? t = none ↔ ∀ kind : LiteralKind, t ∉ kind.language) := by
  refine ⟨fun kind => mem_language.symm, ?_⟩
  simp only [mem_language]
  exact Option.eq_none_iff_forall_ne_some

/-- Behind `0x` an `e` is a digit and begins no exponent. -/
example : kind? "0x1e5" = some .integer := by decide

end Literal
end DocTypes
