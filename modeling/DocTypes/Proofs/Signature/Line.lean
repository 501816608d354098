import DocTypes.Proofs.Annotation.Head
import DocTypes.Proofs.Name.Components
import DocTypes.Proofs.Text.Lines
import DocTypes.Signature.Line

/-! # Reading the parts of a line

A line of a signature file is read piece by piece, and this module says when each piece is found
again in a line that was put together from pieces.  Stripping leaves what is `Solid` and cuts off
behind it at a blank only (`exists_strip_eq`).  The first word of a line begins as the line does
(`head?_splitKeyword`).  A constant path at the front is split off whole when nothing that follows
continues it (`splitConstant?_append`).  And a line does not open a block unless `do` is one of its
words (`do_mem_words_of_opensBlock`). -/

namespace DocTypes

namespace SignatureLine

/-! ## What stripping leaves -/

/-- A text whose ends are not blank and that begins no comment. -/
structure Solid (t : Text) : Prop where
  first : ∃ c cs, t = c :: cs ∧ Text.isBlank c = false
  last : ∃ cs c, t = cs ++ [c] ∧ Text.isBlank c = false
  uncommented : '#' ∉ t

/-- Whether a text is what is left of another one that is cut off at a blank, or not at all. -/
def CutOff (kept t : Text) : Prop :=
  ∃ rest, t = kept ++ rest ∧ ∀ c ∈ rest.head?, Text.isBlank c = true

variable {t s kept head tail indentation : Text}

theorem Solid.of_forall (hne : t ≠ []) (hblank : ∀ c ∈ t, Text.isBlank c = false)
    (huncommented : '#' ∉ t) : Solid t := by
  have hlast := hblank _ (List.getLast_mem hne)
  refine ⟨?_, ⟨_, _, (List.dropLast_concat_getLast hne).symm, hlast⟩, huncommented⟩
  obtain ⟨c, cs, rfl⟩ := List.exists_cons_of_ne_nil hne
  exact ⟨c, cs, rfl, hblank c List.mem_cons_self⟩

/-- Solid ends make a solid text, whatever uncommented text is between them. -/
theorem Solid.append (hfront : Solid s) (between : Text) (hbetween : '#' ∉ between)
    (hback : Solid t) : Solid (s ++ between ++ t) := by
  obtain ⟨c, cs, rfl, hc⟩ := hfront.first
  obtain ⟨ds, d, rfl, hd⟩ := hback.last
  refine ⟨⟨c, _, rfl, hc⟩, ⟨_, d, (List.append_assoc _ _ _).symm, hd⟩, ?_⟩
  simp only [List.mem_append, not_or]
  exact ⟨⟨hfront.uncommented, hbetween⟩, by simpa using hback.uncommented⟩

theorem CutOff.trans (h : CutOff s t) (h' : CutOff kept s) : CutOff kept t := by
  obtain ⟨rest, rfl, hrest⟩ := h
  obtain ⟨rest', rfl, hrest'⟩ := h'
  refine ⟨rest' ++ rest, List.append_assoc _ _ _, ?_⟩
  cases rest' with
  | nil => exact hrest
  | cons c rest' => exact hrest'

theorem cutOff_trimEnd (t : Text) : CutOff (Text.trimEnd t) t := by
  obtain ⟨blanks, ht, hblanks⟩ := Text.exists_trimEnd_append t
  exact ⟨blanks, ht, fun c hc => hblanks c (List.mem_of_mem_head? hc)⟩

theorem cutOff_before (t : Text) : CutOff (Text.before " #" t) t := by
  induction t with
  | nil => exact ⟨[], rfl, fun _ hc => by cases hc⟩
  | cons c t ih =>
    rw [Text.before]
    split
    · next hstart =>
      obtain ⟨after, hafter⟩ := Text.startsWith_iff.mp hstart
      obtain ⟨rfl, -⟩ := List.cons.inj hafter
      exact ⟨_, rfl, fun _ hd => by cases hd; rfl⟩
    · obtain ⟨rest, ht, hrest⟩ := ih
      exact ⟨rest, congrArg (c :: ·) ht, hrest⟩

/-- What is left of a text that begins with a blank is nothing, or begins with it, too. -/
theorem CutOff.head_eq (h : CutOff kept t) : ∀ c ∈ kept.head?, c ∈ t.head? := by
  obtain ⟨rest, rfl, -⟩ := h
  cases kept with
  | nil => exact fun _ hc => by cases hc
  | cons d kept => exact fun _ hc => hc

theorem CutOff.words_subset (h : CutOff kept t) : Text.words kept ⊆ Text.words t := by
  obtain ⟨rest, rfl, hrest⟩ := h
  exact Text.words_subset_append hrest

/-- No comment begins in an uncommented text that does not end in a space. -/
theorem before_append (huncommented : '#' ∉ head) (hlast : ∀ c ∈ head.getLast?, c ≠ ' ')
    (t : Text) : Text.before " #" (head ++ t) = head ++ Text.before " #" t := by
  induction head with
  | nil => rfl
  | cons c head ih =>
    have hstart : Text.startsWith (c :: (head ++ t)) " #" = false := by
      by_cases hspace : c = ' '
      · subst hspace
        cases head with
        | nil => exact absurd rfl (hlast ' ' rfl)
        | cons d head =>
          have hd : d ≠ '#' := fun heq => huncommented (by simp [heq])
          simp [Text.startsWith, List.isPrefixOf, Ne.symm hd]
      · exact Text.startsWith_cons_of_ne hspace
    rw [List.cons_append, Text.before, hstart,
      ih fun hmem => huncommented (List.mem_cons_of_mem _ hmem)]
    · rfl
    · intro d hd
      cases head with
      | nil => cases hd
      | cons e head => exact hlast d hd

/-- **Stripping a line leaves a solid text at its front as it is**, and cuts off what follows it at a
blank if at all. -/
theorem exists_strip_eq (hindentation : ∀ c ∈ indentation, Text.isBlank c = true) (hhead : Solid head)
    (tail : Text) :
    ∃ kept, CutOff kept tail ∧ strip (indentation ++ (head ++ tail)) = head ++ kept := by
  obtain ⟨c, cs, hfirst, hc⟩ := hhead.first
  obtain ⟨ds, d, hlast, hd⟩ := hhead.last
  have htrimEnd : ∀ t : Text, Text.trimEnd (head ++ t) = head ++ Text.trimEnd t := by
    intro t
    rw [hlast, List.append_assoc, List.append_assoc]
    exact Text.trimEnd_append_cons hd ds t
  have htrim : Text.trim (indentation ++ (head ++ tail)) = head ++ Text.trimEnd tail := by
    rw [Text.trim, Text.trimStart_append hindentation, ← htrimEnd, hfirst, List.cons_append,
      Text.trimStart_cons hc]
  have hcomment : Text.startsWith (head ++ Text.trimEnd tail) "#" = false := by
    have hne : c ≠ '#' := fun heq => hhead.uncommented (by simp [hfirst, heq])
    rw [hfirst]
    exact Text.startsWith_cons_of_ne hne
  have hspace : ∀ e ∈ head.getLast?, e ≠ ' ' := by
    rw [hlast, List.getLast?_concat]
    rintro e ⟨⟩ rfl
    cases hd
  refine ⟨Text.trimEnd (Text.before " #" (Text.trimEnd tail)),
    ((cutOff_trimEnd tail).trans (cutOff_before _)).trans (cutOff_trimEnd _), ?_⟩
  unfold strip
  rw [htrim]
  dsimp only
  rw [if_neg (by rw [hcomment]; exact Bool.false_ne_true),
    before_append hhead.uncommented hspace, htrimEnd]

/-! ## The first word -/

/-- A word without blanks is the first word of what it begins, when a blank follows. -/
theorem splitKeyword_append {c : Char} (hs : ∀ c ∈ s, Text.isBlank c = false)
    (hc : Text.isBlank c = true) (t : Text) :
    splitKeyword (s ++ c :: t) = (s, Text.trimStart t) := by
  rw [splitKeyword, Text.cutAtFirst?_append hs hc]

/-- The first word of a line begins as the line does. -/
theorem head?_splitKeyword {c : Char} (hc : Text.isBlank c = false) (t : Text) :
    (splitKeyword (c :: t)).1.head? = some c := by
  unfold splitKeyword
  rw [Text.cutAtFirst?, hc]
  cases t.cutAtFirst? Text.isBlank <;> rfl

/-! ## The path at the front -/

/-- Whether a text that follows a path does not continue it. -/
structure EndsPath (rest : Text) : Prop where
  word : ∀ c ∈ rest.head?, Name.isWordPart c = false
  separator : rest.startsWith Name.separator = false

variable {rest name : Text} {parts : List Text}

theorem endsPath_nil : EndsPath [] := ⟨fun _ hc => (by cases hc), rfl⟩

/-- Where no character of words follows, a word is taken whole. -/
theorem takeWhile_append {w : Text} (hw : Name.isWord w = true)
    (ht : ∀ c ∈ t.head?, Name.isWordPart c = false) :
    (w ++ t).takeWhile Name.isWordPart = w ∧ (w ++ t).dropWhile Name.isWordPart = t := by
  have hall : ∀ c ∈ w, Name.isWordPart c = true := fun c hc => Name.isWordPart_of_mem hw hc
  rw [List.takeWhile_append_of_pos hall, List.dropWhile_append_of_pos hall]
  cases t with
  | nil => exact ⟨List.append_nil w, rfl⟩
  | cons c t => simp [ht c rfl]

/-- A word that nothing continues is the end of a path. -/
theorem takePath_last {w : Text} (hw : Name.isWord w = true) (words : Nat)
    (hrest : EndsPath rest) : takePath (words + 1) (w ++ rest) = w := by
  obtain ⟨htake, hdrop⟩ := takeWhile_append hw hrest.word
  obtain ⟨first, others, rfl, hfirst, -⟩ := Name.exists_of_isWord hw
  rw [takePath, htake]
  dsimp only
  rw [Name.not_isDigit_of_isWordStart hfirst, if_neg Bool.false_ne_true, hdrop]
  split
  · exact absurd hrest.separator (by simp [Text.startsWith, Name.separator])
  · rfl

/-- A word that a separator and a path follow is the beginning of a path. -/
theorem takePath_more {w : Text} (hw : Name.isWord w = true) {words : Nat}
    (hmore : takePath words t ≠ []) :
    takePath (words + 1) (w ++ ':' :: ':' :: t) = w ++ ':' :: ':' :: takePath words t := by
  obtain ⟨htake, hdrop⟩ := @takeWhile_append (':' :: ':' :: t) w hw fun c hc => by cases hc; rfl
  obtain ⟨first, others, rfl, hfirst, -⟩ := Name.exists_of_isWord hw
  rw [takePath, htake]
  dsimp only
  rw [Name.not_isDigit_of_isWordStart hfirst, if_neg Bool.false_ne_true, hdrop]
  split
  · next heq =>
    cases heq
    split
    · next hnil => exact absurd hnil hmore
    · rw [List.append_assoc]
      rfl
  · next hother => exact absurd rfl (hother t)

/-- **A path that nothing continues is taken to its end**, when there are words enough. -/
theorem takePath_join (h : Name.Words parts) {words : Nat} (hwords : parts.length ≤ words)
    (hrest : EndsPath rest) : takePath words (Name.join parts ++ rest) = Name.join parts := by
  obtain ⟨hne, hword⟩ := h
  induction parts generalizing words with
  | nil => exact absurd rfl hne
  | cons w parts ih =>
    obtain ⟨hw, hparts⟩ := List.forall_mem_cons.mp hword
    obtain ⟨words, rfl⟩ := Nat.exists_eq_add_of_le' (Nat.le_trans (Nat.le_add_left 1 _) hwords)
    by_cases hmore : parts = []
    · subst hmore
      rw [Name.join_singleton, takePath_last hw words hrest]
    · have htail := ih (Nat.le_of_succ_le_succ hwords) hmore hparts
      have hne : Name.join parts ≠ [] := by
        obtain ⟨c, cs, hjoin, -⟩ := Name.pathTailLength_join ⟨hmore, hparts⟩
        simp [hjoin]
      rw [Name.join_cons w hmore, List.append_assoc, List.cons_append, List.cons_append,
        takePath_more hw (by rwa [htail]), htail]

theorem length_le_length_join (h : Name.Words parts) :
    parts.length ≤ (Name.join parts).length := by
  obtain ⟨hne, hword⟩ := h
  induction parts with
  | nil => exact absurd rfl hne
  | cons w parts ih =>
    obtain ⟨hw, hparts⟩ := List.forall_mem_cons.mp hword
    obtain ⟨first, others, rfl, -⟩ := Name.exists_of_isWord hw
    by_cases hmore : parts = []
    · subst hmore
      simp
    · have htail := ih hmore hparts
      rw [Name.join_cons _ hmore]
      simp only [List.length_cons, List.length_append]
      omega

/-- **An identifier that nothing continues is the path at the front.** -/
theorem leadingPath_append (h : Name.isSimple name = true) (hrest : EndsPath rest) :
    leadingPath (name ++ rest) = name := by
  obtain ⟨parts, hparts, hname⟩ := Name.exists_words_of_isSimple h
  have hlength : parts.length ≤ (Name.join parts ++ rest).length := by
    rw [List.length_append]
    exact Nat.le_trans (length_le_length_join hparts) (Nat.le_add_right _ _)
  have htake := takePath_join hparts hlength hrest
  cases habsolute : Name.isAbsolute name with
  | false =>
    have hrelative : Text.after? (Name.join parts ++ rest) Name.separator = none := by
      obtain ⟨c, cs, hjoin, hc, -⟩ := Name.pathTailLength_join hparts
      have hcolon := Name.not_colon_of_isWordPart (Name.isWordPart_of_isWordStart hc)
      have hstart : Text.startsWith (c :: (cs ++ rest)) Name.separator = false :=
        Name.isAbsolute_cons hcolon
      rw [hjoin, Text.after?, List.cons_append, hstart]
      rfl
    rw [habsolute] at hname
    subst hname
    rw [leadingPath, if_neg Bool.false_ne_true, hrelative]
    exact htake
  | true =>
    have hafter : Text.after? (':' :: ':' :: (Name.join parts ++ rest)) Name.separator =
        some (Name.join parts ++ rest) := rfl
    have hne : Name.join parts ≠ [] := by
      obtain ⟨c, cs, hjoin, -⟩ := Name.pathTailLength_join hparts
      simp [hjoin]
    rw [habsolute] at hname
    subst hname
    rw [if_pos rfl, leadingPath, List.cons_append, List.cons_append, hafter]
    dsimp only
    rw [htake]
    split
    · next hnil => exact absurd hnil hne
    · rfl

theorem splitConstant?_append (h : Name.isSimple name = true) (hrest : EndsPath rest) :
    splitConstant? (name ++ rest) = some (name, Text.trimStart rest) := by
  have hne : name ≠ [] := by
    rintro rfl
    cases h
  unfold splitConstant?
  rw [leadingPath_append h hrest]
  dsimp only
  rw [if_neg hne, List.drop_left]

/-! ## Blocks -/

/-- A text between blanks is among the words. -/
theorem mem_words_append {w : Text} (hne : w ≠ []) (hw : ∀ c ∈ w, Text.isBlank c = false)
    (before after : Text) (hafter : ∀ c ∈ after.head?, Text.isBlank c = true) :
    w ∈ Text.words (before ++ ' ' :: (w ++ after)) := by
  have hmem : w ∈ Text.words w := by
    rw [Text.words_of_forall hne hw]
    exact List.mem_singleton_self w
  rw [Text.words_append rfl]
  exact List.mem_append_right _ (Text.words_subset_append hafter hmem)

/-- **Only a line with the word `do` opens a block.** -/
theorem do_mem_words_of_opensBlock (h : opensBlock t = true) : ("do" : Text) ∈ Text.words t := by
  simp only [opensBlock, Bool.or_eq_true, Bool.and_eq_true, beq_iff_eq] at h
  rcases h with (h | rfl) | ⟨h, -⟩
  · obtain ⟨before, rfl⟩ := List.isSuffixOf_iff_suffix.mp h
    exact mem_words_append (by decide) (Text.forall_of_any rfl) before [] (by simp)
  · decide
  · obtain ⟨before, after, rfl⟩ := Text.infix_of_contains h
    rw [List.append_assoc]
    exact mem_words_append (by decide) (Text.forall_of_any rfl) before (' ' :: '|' :: after)
      fun c hc => by cases hc; rfl

end SignatureLine
end DocTypes
