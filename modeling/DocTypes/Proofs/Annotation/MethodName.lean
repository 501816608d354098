import DocTypes.Annotation.Literal
import DocTypes.Proofs.Annotation.Head
import DocTypes.Proofs.Name.Grammar
import DocTypes.Proofs.Text.Lines

/-! # The language of method names

A method is called by an operator of the table, or by a word that may end in a question mark, an
exclamation mark or an equals sign (`methodLanguage`).  Recognizing one is a matter of where its first
word ends, and what is recognized is just this language (`mem_methodLanguage`).

Neither a blank nor the ampersand that joins methods is part of a name (`plain_of_mem_method`). -/

namespace DocTypes

open Text

/-- The operators of the table, and the words with at most one mark at the end. -/
def methodLanguage : Language Char :=
  among operatorMethods +
    Name.wordLanguage * optional (oneOf [('?', '?'), ('!', '!'), ('=', '=')])

variable {t w rest : Text}

/-! ## The first word -/

namespace Name

/-- A word that nothing continues is measured to its end. -/
theorem wordLength_append (hw : isWord w = true) (hrest : ∀ c ∈ rest.head?, isWordPart c = false) :
    wordLength (w ++ rest) = w.length := by
  obtain ⟨c, cs, rfl, hc, hcs⟩ := exists_of_isWord hw
  have htake : (cs ++ rest).takeWhile isWordPart = cs := by
    rw [List.takeWhile_append_of_pos hcs]
    cases rest with
    | nil => exact List.append_nil cs
    | cons d rest => simp [hrest d rfl]
  rw [List.cons_append, wordLength, if_pos hc, htake, List.length_cons]

theorem isWord_take_wordLength (h : wordLength t ≠ 0) : isWord (t.take (wordLength t)) = true := by
  cases t with
  | nil => exact absurd rfl h
  | cons c cs =>
    rw [wordLength] at h ⊢
    by_cases hc : isWordStart c = true
    · have htake : cs.take (cs.takeWhile isWordPart).length = cs.takeWhile isWordPart :=
        List.prefix_iff_eq_take.mp (List.takeWhile_prefix _) ▸ rfl
      rw [if_pos hc, List.take_succ_cons, htake, isWord, hc, Bool.true_and]
      exact List.all_takeWhile
    · exact absurd (if_neg hc) h

end Name

/-! ## Names -/

/-- The marks that a method name may end in. -/
theorem inRanges_marks (c : Char) :
    inRanges [('?', '?'), ('!', '!'), ('=', '=')] c = (c == '?' || c == '!' || c == '=') := by
  simp only [beq_eq_inRange, inRanges, List.any_cons, List.any_nil, Bool.or_false, Bool.or_assoc]

theorem not_isWordPart_of_mark {c : Char} (h : (c == '?' || c == '!' || c == '=') = true) :
    Name.isWordPart c = false := by
  simp only [Bool.or_eq_true, beq_iff_eq] at h
  rcases h with (rfl | rfl) | rfl <;> decide

/-- **What is recognized as the name of a method is the language of method names.** -/
theorem mem_methodLanguage : t ∈ methodLanguage ↔ isMethodName t = true := by
  rw [methodLanguage, Language.mem_add, mem_among, isMethodName, Bool.or_eq_true,
    List.contains_iff_mem]
  refine or_congr_right ?_
  rw [Language.mem_mul, Bool.and_eq_true, bne_iff_ne]
  constructor
  · rintro ⟨w, hw, mark, hmark, rfl⟩
    have hword := Name.mem_wordLanguage.mp hw
    have hne : w.length ≠ 0 := by
      obtain ⟨c, cs, rfl, -⟩ := Name.exists_of_isWord hword
      exact Nat.succ_ne_zero _
    rcases mem_optional.mp hmark with rfl | ⟨d, rfl, hd⟩
    · have hlength : Name.wordLength (w ++ []) = w.length :=
        Name.wordLength_append hword fun _ hc => by cases hc
      rw [hlength, List.drop_left]
      exact ⟨hne, rfl⟩
    · rw [inRanges_marks] at hd
      have hlength : Name.wordLength (w ++ [d]) = w.length := by
        refine Name.wordLength_append hword fun c hc => ?_
        obtain rfl := Option.some.inj hc
        exact not_isWordPart_of_mark hd
      rw [hlength, List.drop_left]
      exact ⟨hne, hd⟩
  · rintro ⟨hlength, hrest⟩
    have hword := Name.mem_wordLanguage.mpr (Name.isWord_take_wordLength hlength)
    refine ⟨_, hword, _, mem_optional.mpr ?_, List.take_append_drop _ t⟩
    split at hrest
    · next hnil => exact Or.inl hnil
    · next c hmark =>
      rw [← inRanges_marks] at hrest
      exact Or.inr ⟨c, hmark, hrest⟩
    · cases hrest

/-- No name of a method is empty, and none holds a blank or an ampersand. -/
theorem plain_of_mem_method (h : t ∈ methodLanguage) :
    t ≠ [] ∧ ∀ c ∈ t, isBlank c = false ∧ c ≠ '&' := by
  rw [methodLanguage, Language.mem_add, mem_among] at h
  rcases h with hoperator | hword
  · have hall : ∀ operator ∈ operatorMethods,
        operator ≠ [] ∧ operator.any isBlank = false ∧ '&' ∉ operator := by decide
    obtain ⟨hne, hblank, hampersand⟩ := hall t hoperator
    refine ⟨hne, fun c hc => ⟨forall_of_any hblank c hc, ?_⟩⟩
    rintro rfl
    exact hampersand hc
  · obtain ⟨w, hw, mark, hmark, rfl⟩ := Language.mem_mul.mp hword
    have hw := Name.mem_wordLanguage.mp hw
    obtain ⟨first, others, rfl, -⟩ := Name.exists_of_isWord hw
    refine ⟨List.cons_ne_nil _ _, List.forall_mem_append.mpr ⟨?_, ?_⟩⟩
    · intro c hc
      have hpart : Name.isPathPart c = true := by
        rw [Name.isPathPart, Name.isWordPart_of_mem hw hc, Bool.true_or]
      refine ⟨(plain_of_isPathPart hpart).1, ?_⟩
      rintro rfl
      exact absurd hpart (by decide)
    · rcases mem_optional.mp hmark with rfl | ⟨c, rfl, hc⟩
      · exact List.forall_mem_nil _
      · rw [inRanges_marks] at hc
        simp only [Bool.or_eq_true, beq_iff_eq] at hc
        rw [List.forall_mem_singleton]
        rcases hc with (rfl | rfl) | rfl <;> decide

end DocTypes
