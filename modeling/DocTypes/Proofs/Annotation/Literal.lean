import DocTypes.Annotation.Literal

/-! # What literals begin with, and what tells them apart

A symbol begins with one colon and not with two (`exists_of_isSymbol`).  A number begins with a
digit or a point, possibly after a sign (`beginsNumber_of_isInteger`, `beginsNumber_of_isFloat`).

Integers and floats may look alike, for an `e` begins an exponent and is a digit as well.  But an
integer holds no point, and what stands before its first `e`, if it has one, holds the `x` of its
radix and is no mantissa; so nothing is both (`isFloat_of_isInteger`). -/

namespace DocTypes

namespace Text

theorem cutAtFirst?_eq_none {cuts : Char → Bool} {t : Text} (h : ∀ c ∈ t, cuts c = false) :
    cutAtFirst? cuts t = none := by
  induction t with
  | nil => rfl
  | cons c t ih =>
    obtain ⟨hc, ht⟩ := List.forall_mem_cons.mp h
    rw [cutAtFirst?, hc, ih ht]
    rfl

end Text

namespace Literal

variable {t : Text} {isDigit : Char → Bool}

/-! ## Digits -/

theorem exists_of_isDigits (h : isDigits isDigit t = true) :
    ∃ c cs, t = c :: cs ∧ isDigit c = true ∧ ∀ d ∈ cs, isDigit d = true ∨ d = '_' := by
  cases t with
  | nil => cases h
  | cons c cs =>
    simp only [isDigits, Bool.and_eq_true, List.all_eq_true, Bool.or_eq_true, beq_iff_eq] at h
    exact ⟨c, cs, rfl, h⟩

theorem forall_of_isDigits (h : isDigits isDigit t = true) : ∀ c ∈ t, isDigit c = true ∨ c = '_' := by
  obtain ⟨c, cs, rfl, hc, hcs⟩ := exists_of_isDigits h
  exact List.forall_mem_cons.mpr ⟨Or.inl hc, hcs⟩

/-- A character that is neither a digit nor an underscore is not among digits. -/
theorem ne_of_mem_of_isDigits {c d : Char} (h : isDigits isDigit t = true) (hc : c ∈ t)
    (hdigit : isDigit d = false) (hunderscore : d ≠ '_') : c ≠ d := by
  rintro rfl
  rcases forall_of_isDigits h c hc with hd | rfl
  · rw [hd] at hdigit
    cases hdigit
  · exact hunderscore rfl

/-! ## Symbols -/

theorem isMethodName_colon (cs : Text) : isMethodName (':' :: cs) = false := by
  have hword : Name.wordLength (':' :: cs) = 0 := rfl
  rw [isMethodName, hword]
  simp [operatorMethods]

/-- A symbol begins with a colon, and after that with another character. -/
theorem exists_of_isSymbol (h : isSymbol t = true) :
    ∃ body, t = ':' :: body ∧ body.head? ≠ some ':' := by
  unfold isSymbol at h
  split at h
  · next body =>
    refine ⟨body, rfl, fun hhead => ?_⟩
    obtain ⟨cs, rfl⟩ := List.head?_eq_some_iff.mp hhead
    rw [isMethodName_colon] at h
    simp [isQuoted, Text.startsWith] at h
  · cases h

/-! ## Numbers -/

/-- Whether a text begins with a digit or a point. -/
def beginsNumber : Text → Bool
  | [] => false
  | c :: _ => c.isDigit || c == '.'

theorem beginsNumber_append (h : beginsNumber t = true) (u : Text) :
    beginsNumber (t ++ u) = true := by
  cases t with
  | nil => cases h
  | cons c cs => exact h

theorem beginsNumber_of_isDigits (h : isDigits Char.isDigit t = true) : beginsNumber t = true := by
  obtain ⟨c, cs, rfl, hc, -⟩ := exists_of_isDigits h
  simp [beginsNumber, hc]

/-- An integer in any radix begins with a digit. -/
theorem beginsNumber_of_isInteger (h : isInteger t = true) : beginsNumber (dropSign t) = true := by
  unfold isInteger at h
  split at h
  · next heq => rw [heq]; rfl
  · next heq => rw [heq]; rfl
  · next heq => rw [heq]; rfl
  · exact beginsNumber_of_isDigits h

theorem beginsNumber_of_isMantissa {hasExponent : Bool} (h : isMantissa hasExponent t = true) :
    beginsNumber t = true := by
  unfold isMantissa at h
  split at h
  · next whole fraction hcut =>
    obtain ⟨c, hc, rfl, -⟩ := Text.cutAtFirst?_eq_some hcut
    obtain rfl : c = '.' := by simpa using hc
    cases whole with
    | nil => rfl
    | cons d ds =>
      refine beginsNumber_append (beginsNumber_of_isDigits ?_) _
      simp only [List.isEmpty_cons, Bool.false_or, Bool.and_eq_true] at h
      exact h.1.1
  · exact beginsNumber_of_isDigits (Bool.and_eq_true_iff.mp h).2

theorem beginsNumber_of_isFloat (h : isFloat t = true) : beginsNumber (dropSign t) = true := by
  simp only [isFloat, Bool.or_eq_true, beq_iff_eq] at h
  rcases h with (((((h | h) | h) | rfl) | rfl) | rfl) | h
  · rw [h]; rfl
  · rw [h]; rfl
  · rw [h]; rfl
  · rfl
  · rfl
  · rfl
  · split at h
    · next mantissa exponent hcut =>
      obtain ⟨c, -, heq, -⟩ := Text.cutAtFirst?_eq_some hcut
      rw [heq]
      exact beginsNumber_append (beginsNumber_of_isMantissa (Bool.and_eq_true_iff.mp h).2) _
    · exact beginsNumber_of_isMantissa h

/-! ## Integers are no floats -/

/-- Without a point there are only digits in a mantissa, and an exponent has to follow. -/
theorem isMantissa_of_forall (h : ∀ c ∈ t, c ≠ '.') (hasExponent : Bool) :
    isMantissa hasExponent t = (hasExponent && isDigits Char.isDigit t) := by
  have hcut : Text.cutAtFirst? (· == '.') t = none :=
    Text.cutAtFirst?_eq_none fun c hc => by simpa using h c hc
  rw [isMantissa, hcut]

/-- Digits of a radix that has no `e` among them hold no point and begin no exponent. -/
theorem plain_of_isDigits (h : isDigits isDigit t = true) (hpoint : isDigit '.' = false)
    (hlower : isDigit 'e' = false) (hupper : isDigit 'E' = false) :
    ∀ c ∈ t, c ≠ '.' ∧ c ≠ 'e' ∧ c ≠ 'E' := fun _ hc =>
  ⟨ne_of_mem_of_isDigits h hc hpoint (by decide), ne_of_mem_of_isDigits h hc hlower (by decide),
    ne_of_mem_of_isDigits h hc hupper (by decide)⟩

/-- An integer holds no point.  It holds no exponent either, unless its radix is sixteen. -/
theorem holds_of_isInteger (h : isInteger t = true) :
    (∀ c ∈ dropSign t, c ≠ '.' ∧ c ≠ 'e' ∧ c ≠ 'E') ∨
      ∃ digits, dropSign t = '0' :: 'x' :: digits ∧ ∀ c ∈ digits, c ≠ '.' := by
  unfold isInteger at h
  split at h
  · next digits heq =>
    exact Or.inr ⟨digits, heq, fun c hc => ne_of_mem_of_isDigits h hc rfl (by decide)⟩
  · next digits heq =>
    left
    rw [heq, List.forall_mem_cons, List.forall_mem_cons]
    exact ⟨by decide, by decide, plain_of_isDigits h rfl rfl rfl⟩
  · next digits heq =>
    left
    rw [heq, List.forall_mem_cons, List.forall_mem_cons]
    exact ⟨by decide, by decide, plain_of_isDigits h rfl rfl rfl⟩
  · exact Or.inl (plain_of_isDigits h rfl rfl rfl)

theorem point_not_mem_of_isInteger (h : isInteger t = true) : ∀ c ∈ dropSign t, c ≠ '.' := by
  rcases holds_of_isInteger h with hplain | ⟨digits, heq, hdigits⟩
  · exact fun c hc => (hplain c hc).1
  · rw [heq, List.forall_mem_cons, List.forall_mem_cons]
    exact ⟨by decide, by decide, hdigits⟩

/-- What stands before the first `e` of an integer is not made of decimal digits. -/
theorem isDigits_of_isInteger {mantissa exponent : Text} (h : isInteger t = true)
    (hcut : (dropSign t).cutAtFirst? (fun c => c == 'e' || c == 'E') = some (mantissa, exponent)) :
    isDigits Char.isDigit mantissa = false := by
  rcases holds_of_isInteger h with hplain | ⟨digits, heq, -⟩
  · have hnone : (dropSign t).cutAtFirst? (fun c => c == 'e' || c == 'E') = none :=
      Text.cutAtFirst?_eq_none fun c hc => by simpa using (hplain c hc).2
    rw [hnone] at hcut
    cases hcut
  · have hrest : (dropSign t).cutAtFirst? (fun c => c == 'e' || c == 'E') =
        (Text.cutAtFirst? (fun c => c == 'e' || c == 'E') digits).map
          fun pair => ('0' :: 'x' :: pair.1, pair.2) := by
      rw [heq]
      simp [Text.cutAtFirst?, Function.comp_def]
    rw [hrest] at hcut
    obtain ⟨⟨before, after⟩, -, hpair⟩ := Option.map_eq_some_iff.mp hcut
    cases hpair
    simp [isDigits]

/-- **No integer is a float.** -/
theorem isFloat_of_isInteger (h : isInteger t = true) : isFloat t = false := by
  have hpoint := point_not_mem_of_isInteger h
  have hnot : ∀ name : Text, '.' ∈ name → dropSign t ≠ name :=
    fun name hmem heq => hpoint '.' (heq ▸ hmem) rfl
  rw [← Bool.not_eq_true]
  intro hfloat
  simp only [isFloat, Bool.or_eq_true, beq_iff_eq] at hfloat
  rcases hfloat with (((((hname | hname) | hname) | rfl) | rfl) | rfl) | hnumber
  · exact hnot _ (by decide) hname
  · exact hnot _ (by decide) hname
  · exact hnot _ (by decide) hname
  · exact hnot _ (by decide) rfl
  · exact hnot _ (by decide) rfl
  · exact hnot _ (by decide) rfl
  · split at hnumber
    · next mantissa exponent hcut =>
      obtain ⟨c, -, heq, -⟩ := Text.cutAtFirst?_eq_some hcut
      have hmantissa : ∀ c ∈ mantissa, c ≠ '.' := fun c hc =>
        hpoint c (heq ▸ List.mem_append_left _ hc)
      rw [isMantissa_of_forall hmantissa, isDigits_of_isInteger h hcut] at hnumber
      simp at hnumber
    · rw [isMantissa_of_forall hpoint] at hnumber
      simp at hnumber

end Literal
end DocTypes
