import DocTypes.Name

/-! # Where a path ends

The path at the front of a text ends where no character can continue it: what follows a simple
identifier does not belong to its path unless it begins with a character of words or with a colon
(`pathLength_append`).  An identifier itself is made of such characters (`isPathPart_of_mem`). -/

namespace DocTypes.Name

/-- Whether a character may stand in a path. -/
def isPathPart (c : Char) : Bool := isWordPart c || c == ':'

theorem isWordPart_of_isWordStart {c : Char} (h : isWordStart c = true) : isWordPart c = true := by
  simp only [isWordStart, Bool.or_eq_true] at h
  rcases h with h | h
  · simp [isWordPart, Char.isAlphanum, h]
  · simp [isWordPart, h]

theorem isPathPart_of_isWordStart {c : Char} (h : isWordStart c = true) : isPathPart c = true := by
  simp [isPathPart, isWordPart_of_isWordStart h]

/-- No digit begins a word. -/
theorem not_isDigit_of_isWordStart {c : Char} (h : isWordStart c = true) :
    c.isDigit = false := by
  have halpha : c.isAlpha = (c.isUpper || c.isLower) := rfl
  have hupper : c.isUpper = decide (c.val ≥ 'A'.val ∧ c.val ≤ 'Z'.val) := rfl
  have hlower : c.isLower = (decide (c.val ≥ 'a'.val) && decide (c.val ≤ 'z'.val)) := rfl
  refine Bool.eq_false_iff.mpr fun hdigit => ?_
  simp only [isWordStart, halpha, hupper, hlower, Char.isDigit, Bool.or_eq_true,
    Bool.and_eq_true, decide_eq_true_eq, beq_iff_eq, UInt32.le_iff_toNat_le, ge_iff_le] at h hdigit
  rcases h with (h | h) | rfl
  · exact absurd (Nat.le_trans h.1 hdigit.2) (by decide)
  · exact absurd (Nat.le_trans h.1 hdigit.2) (by decide)
  · exact absurd hdigit.2 (by decide)

variable {c : Char} {cs name rest : Text}

theorem not_colon_of_isWordPart (h : isWordPart c = true) : c ≠ ':' := by
  rintro rfl
  exact absurd h (by decide)

/-! ## Measuring a path -/

theorem pathTailLength_cons (h : isWordPart c = true) :
    pathTailLength (c :: cs) = pathTailLength cs + 1 := by
  rw [pathTailLength, if_pos h]
  rintro d ds rfl
  exact absurd rfl (not_colon_of_isWordPart h)

theorem pathLength_cons (h : isWordStart c = true) :
    pathLength (c :: cs) = pathTailLength cs + 1 := by
  rw [pathLength, if_pos h]
  rintro d ds rfl
  exact absurd rfl (not_colon_of_isWordPart (isWordPart_of_isWordStart h))

/-- A character that no path holds ends the path before it. -/
theorem pathTailLength_eq_zero (h : ∀ c ∈ rest.head?, isPathPart c = false) :
    pathTailLength rest = 0 := by
  cases rest with
  | nil => rfl
  | cons c cs =>
    have hc := h c rfl
    simp only [isPathPart, Bool.or_eq_false_iff, beq_eq_false_iff_ne] at hc
    rw [pathTailLength]
    · simp [hc.1]
    · rintro d ds rfl
      exact absurd rfl hc.2

/-- A path begins like a word, or with two colons. -/
theorem exists_of_pathLength {t : Text} (h : pathLength t ≠ 0) :
    ∃ c cs, t = c :: cs ∧ (isWordStart c = true ∨ c = ':' ∧ cs.head? = some ':') := by
  fun_cases pathLength t with
  | case1 c cs _ => exact ⟨':', ':' :: c :: cs, rfl, Or.inr ⟨rfl, rfl⟩⟩
  | case2 c cs hc => simp [pathLength, hc] at h
  | case3 c cs _ hc => exact ⟨c, cs, rfl, Or.inl hc⟩
  | case4 c cs hcolons hc =>
    rw [pathLength] at h
    · simp [hc] at h
    · exact hcolons
  | case5 => exact absurd rfl h

theorem pathLength_ne_zero {t : Text} (h : isSimple t = true) : pathLength t ≠ 0 := by
  simp only [isSimple, Bool.and_eq_true, bne_iff_ne, beq_iff_eq] at h
  rw [h.2]
  exact fun hlength => h.1 (List.length_eq_zero_iff.mp hlength)

theorem pathTailLength_append (h : pathTailLength name = name.length)
    (hrest : ∀ c ∈ rest.head?, isPathPart c = false) :
    pathTailLength (name ++ rest) = name.length := by
  fun_induction pathTailLength name with
  | case1 c cs hc ih =>
    have htail : pathTailLength cs = cs.length := by simpa using h
    simp [pathTailLength, hc, ih htail]
  | case2 => simp at h
  | case3 c cs _ hc ih =>
    have htail : pathTailLength cs = cs.length := by simpa using h
    rw [List.cons_append, pathTailLength_cons hc, ih htail, List.length_cons]
  | case4 => simp at h
  | case5 => exact pathTailLength_eq_zero hrest

/-! ## Identifiers -/

/-- An identifier is a path that begins with a word, or with colons and then a word. -/
theorem exists_of_isSimple (h : isSimple name = true) :
    ∃ c cs, isWordStart c = true ∧ pathTailLength cs = cs.length ∧
      (name = c :: cs ∨ name = ':' :: ':' :: c :: cs) := by
  simp only [isSimple, Bool.and_eq_true, bne_iff_ne, beq_iff_eq] at h
  obtain ⟨hne, hlength⟩ := h
  fun_cases pathLength name with
  | case1 c cs hc =>
    exact ⟨c, cs, hc, by simpa [pathLength, hc] using hlength, Or.inr rfl⟩
  | case2 c cs hc => simp [pathLength, hc] at hlength
  | case3 c cs _ hc =>
    exact ⟨c, cs, hc, by simpa [pathLength_cons hc] using hlength, Or.inl rfl⟩
  | case4 c cs hcolons hc =>
    rw [pathLength] at hlength
    · simp [hc] at hlength
    · exact hcolons
  | case5 => exact absurd rfl hne

/-- **What follows an identifier is not part of its path**, unless it begins like such a part. -/
theorem pathLength_append (h : isSimple name = true)
    (hrest : ∀ c ∈ rest.head?, isPathPart c = false) :
    pathLength (name ++ rest) = name.length := by
  obtain ⟨c, cs, hc, htail, rfl | rfl⟩ := exists_of_isSimple h
  · rw [List.cons_append, pathLength_cons hc, pathTailLength_append htail hrest, List.length_cons]
  · simp [pathLength, hc, pathTailLength_append htail hrest]

theorem isPathPart_of_mem_tail (h : pathTailLength name = name.length) (hc : c ∈ name) :
    isPathPart c = true := by
  fun_induction pathTailLength name with
  | case1 d ds hd ih =>
    have htail : pathTailLength ds = ds.length := by simpa using h
    simp only [List.mem_cons] at hc
    rcases hc with rfl | rfl | rfl | hc
    · rfl
    · rfl
    · exact isPathPart_of_isWordStart hd
    · exact ih htail hc
  | case2 => simp at h
  | case3 d ds _ hd ih =>
    have htail : pathTailLength ds = ds.length := by simpa using h
    rcases List.mem_cons.mp hc with rfl | hc
    · simp [isPathPart, hd]
    · exact ih htail hc
  | case4 => simp at h
  | case5 => cases hc

/-- An identifier holds nothing but characters of words and colons. -/
theorem isPathPart_of_mem (h : isSimple name = true) (hc : c ∈ name) : isPathPart c = true := by
  obtain ⟨d, ds, hd, htail, rfl | rfl⟩ := exists_of_isSimple h
  · rcases List.mem_cons.mp hc with rfl | hc
    · exact isPathPart_of_isWordStart hd
    · exact isPathPart_of_mem_tail htail hc
  · simp only [List.mem_cons] at hc
    rcases hc with rfl | rfl | rfl | hc
    · rfl
    · rfl
    · exact isPathPart_of_isWordStart hd
    · exact isPathPart_of_mem_tail htail hc

/-- The rest of a path, cut off where it ends, is measured in full. -/
theorem pathTailLength_take (t : Text) :
    pathTailLength (t.take (pathTailLength t)) = pathTailLength t := by
  fun_induction pathTailLength t with
  | case1 c cs hc ih => simp [pathTailLength, hc, ih]
  | case2 => rfl
  | case3 c cs _ hc ih => rw [List.take_succ_cons, pathTailLength_cons hc, ih]
  | case4 => rfl
  | case5 => rfl

/-- **The path at the front of a text is an identifier**, if there is one. -/
theorem isSimple_take {t : Text} (h : pathLength t ≠ 0) :
    isSimple (t.take (pathLength t)) = true := by
  have hlength : (t.take (pathLength t)).length = pathLength t :=
    List.length_take_of_le (pathLength_le t)
  have hne : t.take (pathLength t) ≠ [] := List.ne_nil_of_length_pos (by omega)
  have hall : pathLength (t.take (pathLength t)) = pathLength t := by
    fun_cases pathLength t with
    | case1 c cs hc => simp [pathLength, hc, pathTailLength_take]
    | case2 c cs hc => simp [pathLength, hc] at h
    | case3 c cs _ hc => rw [List.take_succ_cons, pathLength_cons hc, pathTailLength_take]
    | case4 | case5 => rfl
  rw [isSimple, hall, hlength, beq_self_eq_true, Bool.and_true]
  exact bne_iff_ne.mpr hne

end DocTypes.Name
