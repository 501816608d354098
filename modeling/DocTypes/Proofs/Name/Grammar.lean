import DocTypes.Proofs.Name.Components
import DocTypes.Proofs.Text.Regular
import Mathlib.Order.Bounds.Basic

/-! # The language of constant paths

Words and constant paths as regular languages.  The simple identifiers are exactly the texts of the
language of paths (`mem_pathLanguage`), and the path at the front of a text is the longest one there
(`isGreatest_pathLength`): what is taken is a path, and no longer prefix is one, for a path that
goes on is measured further. -/

namespace DocTypes.Name

open Text
open scoped Computability

/-- A letter or an underscore, and any number of letters, digits and underscores after it. -/
def wordLanguage : Language Char :=
  oneOf [('A', 'Z'), ('a', 'z'), ('_', '_')] *
    (oneOf [('A', 'Z'), ('a', 'z'), ('0', '9'), ('_', '_')])∗

/-- Words with a separator between each and the next, and possibly one more in front. -/
def pathLanguage : Language Char :=
  optional (among [separator]) * (wordLanguage * (among [separator] * wordLanguage)∗)

/-- The lengths of the texts of a language at the front of a text, and zero. -/
def prefixLengths (l : Language Char) (t : Text) : Set Nat :=
  {n | n = 0 ∨ ∃ p ∈ l, p <+: t ∧ p.length = n}

variable {t name : Text}

/-! ## Words -/

theorem isAlpha_eq (c : Char) : c.isAlpha = inRanges [('A', 'Z'), ('a', 'z')] c := by
  have halpha : c.isAlpha = (c.isUpper || c.isLower) := rfl
  have hupper : c.isUpper = decide (c.val ≥ 'A'.val ∧ c.val ≤ 'Z'.val) := rfl
  have hlower : c.isLower = (decide (c.val ≥ 'a'.val) && decide (c.val ≤ 'z'.val)) := rfl
  rw [halpha, hupper, hlower]
  simp [inRanges, Char.le_def, Bool.decide_and]

theorem isWordStart_eq (c : Char) :
    isWordStart c = inRanges [('A', 'Z'), ('a', 'z'), ('_', '_')] c := by
  rw [isWordStart, isAlpha_eq, beq_eq_inRange]
  simp [inRanges, Bool.or_assoc]

theorem isWordPart_eq (c : Char) :
    isWordPart c = inRanges [('A', 'Z'), ('a', 'z'), ('0', '9'), ('_', '_')] c := by
  rw [isWordPart, Char.isAlphanum, isAlpha_eq, Char.isDigit, beq_eq_inRange]
  simp [inRanges, Char.le_def, Bool.or_assoc]

theorem mem_wordLanguage : t ∈ wordLanguage ↔ isWord t = true := by
  simp only [wordLanguage, mem_oneOf_mul, mem_kstar_oneOf, ← isWordStart_eq, ← isWordPart_eq]
  constructor
  · rintro ⟨c, cs, rfl, hc, hcs⟩
    rw [isWord, hc, Bool.true_and, List.all_eq_true]
    exact hcs
  · intro h
    exact exists_of_isWord h

/-! ## Paths -/

/-- Every word of a path but the first has a separator in front. -/
theorem join_cons_eq (w : Text) (parts : List Text) :
    join (w :: parts) = w ++ (parts.map (separator ++ ·)).flatten := by
  induction parts generalizing w with
  | nil => rw [join_singleton, List.map_nil, List.flatten_nil, List.append_nil]
  | cons p parts ih =>
    rw [join_cons w (List.cons_ne_nil p parts), ih, List.map_cons, List.flatten_cons]
    rfl

theorem mem_kstar_separated :
    t ∈ (among [separator] * wordLanguage)∗ ↔
      ∃ parts : List Text, (∀ p ∈ parts, isWord p = true) ∧ t = (parts.map (separator ++ ·)).flatten := by
  rw [Language.mem_kstar]
  constructor
  · rintro ⟨pieces, rfl, hpieces⟩
    induction pieces with
    | nil => exact ⟨[], fun _ hp => absurd hp List.not_mem_nil, rfl⟩
    | cons piece pieces ih =>
      obtain ⟨hpiece, hrest⟩ := List.forall_mem_cons.mp hpieces
      obtain ⟨w, hw, rfl⟩ := mem_among_singleton_mul.mp hpiece
      obtain ⟨parts, hparts, heq⟩ := ih hrest
      refine ⟨w :: parts, List.forall_mem_cons.mpr ⟨mem_wordLanguage.mp hw, hparts⟩, ?_⟩
      rw [List.flatten_cons, heq, List.map_cons, List.flatten_cons]
  · rintro ⟨parts, hparts, rfl⟩
    refine ⟨_, rfl, ?_⟩
    intro piece hpiece
    obtain ⟨w, hw, rfl⟩ := List.mem_map.mp hpiece
    exact mem_among_singleton_mul.mpr ⟨w, mem_wordLanguage.mpr (hparts w hw), rfl⟩

/-- A path without a separator in front is one or more words. -/
theorem mem_relative :
    t ∈ wordLanguage * (among [separator] * wordLanguage)∗ ↔
      ∃ parts, Words parts ∧ t = join parts := by
  rw [Language.mem_mul]
  constructor
  · rintro ⟨w, hw, rest, hrest, rfl⟩
    obtain ⟨parts, hparts, rfl⟩ := mem_kstar_separated.mp hrest
    have hword : ∀ p ∈ w :: parts, isWord p = true :=
      List.forall_mem_cons.mpr ⟨mem_wordLanguage.mp hw, hparts⟩
    exact ⟨w :: parts, ⟨List.cons_ne_nil w parts, hword⟩, (join_cons_eq w parts).symm⟩
  · rintro ⟨parts, ⟨hne, hword⟩, rfl⟩
    obtain ⟨w, parts, rfl⟩ := List.exists_cons_of_ne_nil hne
    obtain ⟨hw, hparts⟩ := List.forall_mem_cons.mp hword
    exact ⟨w, mem_wordLanguage.mpr hw, _, mem_kstar_separated.mpr ⟨parts, hparts, rfl⟩,
      (join_cons_eq w parts).symm⟩

/-- **The simple identifiers are the texts of the language of paths.** -/
theorem mem_pathLanguage : t ∈ pathLanguage ↔ isSimple t = true := by
  rw [pathLanguage, optional_mul, Language.mem_add, mem_among_singleton_mul]
  constructor
  · rintro (hrelative | ⟨rest, hrest, rfl⟩)
    · obtain ⟨parts, hparts, rfl⟩ := mem_relative.mp hrelative
      exact isSimple_join hparts
    · obtain ⟨parts, hparts, rfl⟩ := mem_relative.mp hrest
      exact isSimple_separator_join hparts
  · intro h
    obtain ⟨parts, hparts, ht⟩ := exists_words_of_isSimple h
    have hmem := mem_relative.mpr ⟨parts, hparts, rfl⟩
    by_cases habsolute : isAbsolute t = true
    · rw [if_pos habsolute] at ht
      exact Or.inr ⟨join parts, hmem, ht⟩
    · rw [if_neg habsolute] at ht
      exact Or.inl (ht ▸ hmem)

/-! ## The longest path -/

/-- What follows the rest of a path can only make it longer. -/
theorem length_le_pathTailLength_append (h : pathTailLength name = name.length) (rest : Text) :
    name.length ≤ pathTailLength (name ++ rest) := by
  fun_induction pathTailLength name with
  | case1 c cs hc ih =>
    have htail := ih (by simpa using h)
    rw [List.cons_append, List.cons_append, List.cons_append, pathTailLength, if_pos hc]
    simp only [List.length_cons]
    omega
  | case2 => simp at h
  | case3 c cs _ hc ih =>
    have htail := ih (by simpa using h)
    rw [List.cons_append, pathTailLength_cons hc, List.length_cons]
    omega
  | case4 => simp at h
  | case5 => exact Nat.zero_le _

theorem length_le_pathLength_append (h : isSimple name = true) (rest : Text) :
    name.length ≤ pathLength (name ++ rest) := by
  obtain ⟨c, cs, hc, hcs, rfl | rfl⟩ := exists_of_isSimple h
  · have htail := length_le_pathTailLength_append hcs rest
    rw [List.cons_append, pathLength_cons hc, List.length_cons]
    omega
  · have htail := length_le_pathTailLength_append hcs rest
    rw [List.cons_append, List.cons_append, List.cons_append, pathLength, if_pos hc]
    simp only [List.length_cons]
    omega

/-- **The path at the front of a text is the longest one.** -/
theorem isGreatest_pathLength (t : Text) :
    IsGreatest (prefixLengths pathLanguage t) (pathLength t) := by
  constructor
  · by_cases hzero : pathLength t = 0
    · exact Or.inl hzero
    · have hsimple := mem_pathLanguage.mpr (isSimple_take hzero)
      exact Or.inr ⟨_, hsimple, List.take_prefix _ t, List.length_take_of_le (pathLength_le t)⟩
  · rintro n (rfl | ⟨p, hp, ⟨rest, rfl⟩, rfl⟩)
    · exact Nat.zero_le _
    · exact length_le_pathLength_append (mem_pathLanguage.mp hp) rest

end DocTypes.Name
