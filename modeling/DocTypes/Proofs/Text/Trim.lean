import DocTypes.Text.Blank

/-! # Trimming

Trimming takes blanks away at the ends of a text and nothing else: a trimmed text is not longer than
before (`length_trim_le`), blanks around a text make no difference to what is left of it
(`trim_padded`), nor does trimming a second time (`trim_trim`), and a character that is not blank
stays at its end (`trimEnd_cons`, `trim_of_ends`). -/

namespace DocTypes.Text

/-! ## Lengths -/

theorem trimStart_suffix (t : Text) : trimStart t <:+ t := List.dropWhile_suffix _

theorem length_trimStart_le (t : Text) : (trimStart t).length ≤ t.length :=
  (trimStart_suffix t).length_le

theorem length_trimEnd_le (t : Text) : (trimEnd t).length ≤ t.length := by
  have h : (t.reverse.dropWhile isBlank).length ≤ t.reverse.length :=
    (List.dropWhile_suffix _).length_le
  simpa [trimEnd] using h

theorem length_trim_le (t : Text) : (trim t).length ≤ t.length :=
  Nat.le_trans (length_trimEnd_le _) (length_trimStart_le t)

/-! ## Blanks at the ends -/

section Blanks

variable {t before after : Text}

theorem trimStart_append (h : ∀ c ∈ before, isBlank c = true) :
    trimStart (before ++ t) = trimStart t := List.dropWhile_append_of_pos h

theorem trimEnd_append (h : ∀ c ∈ after, isBlank c = true) : trimEnd (t ++ after) = trimEnd t := by
  have hreverse : ∀ c ∈ after.reverse, isBlank c = true := fun c hc => h c (List.mem_reverse.mp hc)
  rw [trimEnd, List.reverse_append, List.dropWhile_append_of_pos hreverse, trimEnd]

theorem trim_append (h : ∀ c ∈ after, isBlank c = true) : trim (t ++ after) = trim t := by
  unfold trim
  rw [trimStart, List.dropWhile_append]
  split
  · -- Nothing but blanks: all of them go at the start already.
    next hempty =>
    have hafter : trimStart (after ++ []) = [] := trimStart_append h
    rw [List.append_nil] at hafter
    rw [← trimStart, hafter, trimStart, List.isEmpty_iff.mp hempty]
  · exact trimEnd_append h

/-- Blanks around a text make no difference to what is left of it. -/
theorem trim_padded (hbefore : ∀ c ∈ before, isBlank c = true)
    (hafter : ∀ c ∈ after, isBlank c = true) : trim (before ++ t ++ after) = trim t := by
  rw [trim_append hafter, trim, trimStart_append hbefore, trim]

end Blanks

/-! ## Characters that are not blank -/

theorem trimStart_cons {c : Char} (h : isBlank c = false) (cs : Text) :
    trimStart (c :: cs) = c :: cs := List.dropWhile_cons_of_neg (by simp [h])

/-- What stands before a character that is not blank stays. -/
theorem trimEnd_append_cons {c : Char} (h : isBlank c = false) (before after : Text) :
    trimEnd (before ++ c :: after) = before ++ c :: trimEnd after := by
  have hreverse : (before ++ c :: after).reverse = after.reverse ++ c :: before.reverse := by simp
  rw [trimEnd, hreverse, List.dropWhile_append]
  split
  · next hempty => simp [trimEnd, h, List.isEmpty_iff.mp hempty]
  · simp [trimEnd]

theorem trimEnd_cons {c : Char} (h : isBlank c = false) (cs : Text) :
    trimEnd (c :: cs) = c :: trimEnd cs := trimEnd_append_cons h [] cs

theorem trim_cons {c : Char} (h : isBlank c = false) (cs : Text) :
    trim (c :: cs) = c :: trimEnd cs := by
  rw [trim, trimStart_cons h, trimEnd_cons h]

theorem trimEnd_concat {c : Char} (h : isBlank c = false) (cs : Text) :
    trimEnd (cs ++ [c]) = cs ++ [c] := trimEnd_append_cons h cs []

/-- Only blanks are trimmed at the end. -/
theorem exists_trimEnd_append (t : Text) :
    ∃ blanks, t = trimEnd t ++ blanks ∧ ∀ c ∈ blanks, isBlank c = true := by
  refine ⟨(t.reverse.takeWhile isBlank).reverse, ?_, ?_⟩
  · rw [trimEnd, ← List.reverse_append, List.takeWhile_append_dropWhile, List.reverse_reverse]
  · intro c hc
    exact List.all_eq_true.mp List.all_takeWhile c (List.mem_reverse.mp hc)

/-- Only blanks are trimmed at either end. -/
theorem exists_append_trim_append (t : Text) :
    ∃ before after, before ++ trim t ++ after = t ∧ (∀ c ∈ before, isBlank c = true) ∧
      ∀ c ∈ after, isBlank c = true := by
  obtain ⟨after, hafter, hblank⟩ := exists_trimEnd_append (trimStart t)
  refine ⟨t.takeWhile isBlank, after, ?_, List.all_eq_true.mp List.all_takeWhile, hblank⟩
  rw [trim, List.append_assoc, ← hafter]
  exact List.takeWhile_append_dropWhile

/-- What is trimmed already is not trimmed any further. -/
theorem trim_trim (t : Text) : trim (trim t) = trim t := by
  obtain ⟨before, after, heq, hbefore, hafter⟩ := exists_append_trim_append t
  calc trim (trim t) = trim (before ++ trim t ++ after) := (trim_padded hbefore hafter).symm
    _ = trim t := by rw [heq]

theorem mem_of_mem_trim {c : Char} {t : Text} (h : c ∈ trim t) : c ∈ t := by
  obtain ⟨before, after, heq, -, -⟩ := exists_append_trim_append t
  rw [← heq]
  exact List.mem_append_left _ (List.mem_append_right _ h)

/-- Nothing is trimmed from a text whose ends are not blank. -/
theorem trim_of_ends {first last : Char} (hfirst : isBlank first = false)
    (hlast : isBlank last = false) (t : Text) :
    trim (first :: (t ++ [last])) = first :: (t ++ [last]) := by
  rw [trim_cons hfirst, trimEnd_concat hlast]

theorem trim_of_forall {t : Text} (h : ∀ c ∈ t, isBlank c = false) : trim t = t := by
  have hdrop : ∀ cs : Text, (∀ c ∈ cs, isBlank c = false) → cs.dropWhile isBlank = cs := by
    intro cs hcs
    cases cs with
    | nil => rfl
    | cons c cs => exact trimStart_cons (hcs c List.mem_cons_self) cs
  have hreverse : ∀ c ∈ t.reverse, isBlank c = false := fun c hc => h c (List.mem_reverse.mp hc)
  rw [trim, trimStart, hdrop t h, trimEnd, hdrop t.reverse hreverse, List.reverse_reverse]

end DocTypes.Text
