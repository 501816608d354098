import DocTypes.Proofs.Text.Trim

/-! # Lines and words

What is put together line by line is cut into just these lines again (`lines_unlines`), and a blank
between two texts keeps their words apart (`words_append`), so that cutting a text off at a blank
adds no word to those that it had.  No word holds a blank (`isBlank_of_mem_words`). -/

namespace DocTypes.Text

/-- A computed check of a class of characters, as a statement about each character. -/
theorem forall_of_any {p : Char → Bool} {t : Text} (h : t.any p = false) : ∀ c ∈ t, p c = false :=
  fun c hc => Bool.eq_false_iff.mpr (List.any_eq_false.mp h c hc)

/-! ## Lines -/

/-- Whether a character belongs to a line end. -/
def isLineEnd (c : Char) : Bool := c == '\n' || c == '\r'

/-- Texts as the lines of one text, each with a line feed after it. -/
def unlines (lines : List Text) : Text := lines.flatMap (· ++ ['\n'])

variable {c : Char} {line t before after : Text} {cuts : Char → Bool}

theorem isBlank_of_isLineEnd (h : isLineEnd c = true) : isBlank c = true := by
  simp only [isLineEnd, Bool.or_eq_true, beq_iff_eq] at h
  rcases h with rfl | rfl <;> decide

theorem lines_cons (h : isLineEnd c = false) : lines (c :: t) = consFirst c (lines t) := by
  simp only [isLineEnd, Bool.or_eq_false_iff, beq_eq_false_iff_ne] at h
  rw [lines]
  · exact h.1
  · rintro cs rfl
    exact absurd rfl h.2

/-- A line feed ends the line before it. -/
theorem lines_append (h : ∀ c ∈ line, isLineEnd c = false) (t : Text) :
    lines (line ++ '\n' :: t) = line :: lines t := by
  induction line with
  | nil => rfl
  | cons c line ih =>
    obtain ⟨hc, hline⟩ := List.forall_mem_cons.mp h
    rw [List.cons_append, lines_cons hc, ih hline]
    rfl

/-- **Lines that are put together are cut apart again.** -/
theorem lines_unlines {lines : List Text} (h : ∀ line ∈ lines, ∀ c ∈ line, isLineEnd c = false) :
    (unlines lines).lines = lines := by
  induction lines with
  | nil => rfl
  | cons line lines ih =>
    obtain ⟨hline, hlines⟩ := List.forall_mem_cons.mp h
    have hsplit : unlines (line :: lines) = line ++ '\n' :: unlines lines := by simp [unlines]
    rw [hsplit, lines_append hline, ih hlines]

/-! ## Words -/

/-- A text without a place to cut at is one piece. -/
theorem pieces_of_forall (h : ∀ c ∈ t, cuts c = false) : pieces cuts t = [t] := by
  induction t with
  | nil => rfl
  | cons c t ih =>
    obtain ⟨hc, ht⟩ := List.forall_mem_cons.mp h
    rw [pieces, hc, ih ht]
    rfl

theorem pieces_append (h : cuts c = true) (before after : Text) :
    pieces cuts (before ++ c :: after) = pieces cuts before ++ pieces cuts after := by
  induction before with
  | nil => simp [pieces, h]
  | cons d before ih =>
    rw [List.cons_append, pieces, pieces, ih]
    split
    · rfl
    · -- The character goes to the first piece, and that is one of those before the cut.
      cases hpieces : pieces cuts before with
      | nil => exact absurd hpieces (pieces_ne_nil cuts before)
      | cons piece rest => rfl

/-- Cutting is splitting a list at the elements that a test accepts. -/
theorem pieces_eq_splitOnP (cuts : Char → Bool) (t : Text) : pieces cuts t = t.splitOnP cuts := by
  induction t with
  | nil => rfl
  | cons c t ih =>
    rw [List.splitOnP_cons_eq_if_modifyHead, ← ih, pieces]
    split
    · rfl
    · obtain ⟨piece, rest, hpieces⟩ := List.exists_cons_of_ne_nil (pieces_ne_nil cuts t)
      rw [hpieces]
      rfl

/-- **A blank keeps words apart.** -/
theorem words_append (h : isBlank c = true) (before after : Text) :
    words (before ++ c :: after) = words before ++ words after := by
  rw [words, pieces_append h, List.filter_append]
  rfl

theorem words_cons (h : isBlank c = true) (t : Text) : words (c :: t) = words t :=
  words_append h [] t

/-- A text without a blank is one word. -/
theorem words_of_forall (hne : t ≠ []) (h : ∀ c ∈ t, isBlank c = false) : words t = [t] := by
  rw [words, pieces_of_forall h]
  simp [hne]

/-- What is cut off at a blank, or not at all, has no words of its own. -/
theorem words_subset_append (h : ∀ c ∈ after.head?, isBlank c = true) :
    words before ⊆ words (before ++ after) := by
  cases after with
  | nil => simp
  | cons c after =>
    rw [words_append (h c rfl)]
    exact List.subset_append_left _ _

/-- Blanks are no words. -/
theorem words_of_blank (h : ∀ c ∈ t, isBlank c = true) : words t = [] := by
  induction t with
  | nil => rfl
  | cons c t ih =>
    obtain ⟨hc, ht⟩ := List.forall_mem_cons.mp h
    rw [words_cons hc, ih ht]

/-- **Trimming does not change the words of a text.** -/
theorem words_trim (t : Text) : words (trim t) = words t := by
  obtain ⟨before, after, heq, hbefore, hafter⟩ := exists_append_trim_append t
  have hfront : ∀ t : Text, words (before ++ t) = words t := by
    intro t
    clear heq
    induction before with
    | nil => rfl
    | cons c before ih =>
      obtain ⟨hc, hrest⟩ := List.forall_mem_cons.mp hbefore
      rw [List.cons_append, words_cons hc, ih hrest]
  have hwords := hfront (trim t ++ after)
  rw [← List.append_assoc, heq] at hwords
  rw [hwords]
  cases after with
  | nil => rw [List.append_nil]
  | cons c after =>
    obtain ⟨hc, hrest⟩ := List.forall_mem_cons.mp hafter
    rw [words_append hc, words_of_blank hrest, List.append_nil]

/-- No piece holds a character to cut at. -/
theorem cuts_of_mem_pieces {piece : Text} (h : piece ∈ pieces cuts t) :
    ∀ c ∈ piece, cuts c = false := by
  induction t generalizing piece with
  | nil =>
    obtain rfl := List.mem_singleton.mp h
    exact fun c hc => absurd hc List.not_mem_nil
  | cons d t ih =>
    rw [pieces] at h
    split at h
    · rcases List.mem_cons.mp h with rfl | h
      · exact fun c hc => absurd hc List.not_mem_nil
      · exact ih h
    · next hd =>
      rcases mem_consFirst h with ⟨rest, rfl, hrest⟩ | h
      · refine List.forall_mem_cons.mpr ⟨Bool.eq_false_iff.mpr hd, ?_⟩
        rcases hrest with rfl | hrest
        · exact fun c hc => absurd hc List.not_mem_nil
        · exact ih hrest
      · exact ih h

/-- **A word holds no blank.** -/
theorem isBlank_of_mem_words {w : Text} (h : w ∈ words t) : ∀ c ∈ w, isBlank c = false :=
  cuts_of_mem_pieces (List.mem_filter.mp h).1

/-! ## Texts in texts -/

theorem startsWith_iff {lead : Text} : t.startsWith lead = true ↔ lead <+: t := by
  rw [startsWith, List.isPrefixOf_iff_prefix]

/-- A text that begins with another character does not begin with a part. -/
theorem startsWith_cons_of_ne {d : Char} {lead : Text} (h : c ≠ d) :
    startsWith (c :: t) (d :: lead) = false := by
  simp [startsWith, List.isPrefixOf, Ne.symm h]

theorem infix_of_contains {part : Text} (h : contains part t = true) : part <:+: t := by
  induction t with
  | nil =>
    rw [contains, List.isEmpty_iff] at h
    exact h ▸ List.infix_refl _
  | cons c t ih =>
    rw [contains, Bool.or_eq_true] at h
    rcases h with h | h
    · exact (startsWith_iff.mp h).isInfix
    · exact List.infix_cons (ih h)

end DocTypes.Text
