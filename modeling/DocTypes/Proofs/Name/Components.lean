import DocTypes.Proofs.Name

/-! # Paths and their components

A constant path that is not absolute is one or more words with separators between them
(`exists_words_of_isSimple`), and what is put together from words is taken apart into just these
words again: by its components (`components_join`), and at its end (`lastComponent_join`).

No word holds a colon.  So a path in front of which a separator stands can only be found at the end
of another path where one of that path's own separators is, and one path ends in another as a text
exactly when its words end in the words of the other (`join_suffix_iff`). -/

namespace DocTypes.Name

/-- Whether a text is a word. -/
def isWord : Text → Bool
  | [] => false
  | c :: cs => isWordStart c && cs.all isWordPart

/-- One or more words, as the components of a path. -/
structure Words (parts : List Text) : Prop where
  ne_nil : parts ≠ []
  word : ∀ p ∈ parts, isWord p = true

variable {c : Char} {w t : Text} {parts path name : List Text}

/-! ## Words -/

theorem isWordPart_of_mem (h : isWord w = true) (hc : c ∈ w) : isWordPart c = true := by
  cases w with
  | nil => cases hc
  | cons d ds =>
    simp only [isWord, Bool.and_eq_true, List.all_eq_true] at h
    rcases List.mem_cons.mp hc with rfl | hc
    · exact isWordPart_of_isWordStart h.1
    · exact h.2 c hc

theorem colon_not_mem (h : isWord w = true) : ':' ∉ w :=
  fun hc => not_colon_of_isWordPart (isWordPart_of_mem h hc) rfl

theorem colon_not_mem_cons (h : ':' ∉ c :: w) : c ≠ ':' ∧ ':' ∉ w := by
  simp only [List.mem_cons, not_or] at h
  exact ⟨Ne.symm h.1, h.2⟩

theorem exists_of_isWord (h : isWord w = true) :
    ∃ c cs, w = c :: cs ∧ isWordStart c = true ∧ ∀ d ∈ cs, isWordPart d = true := by
  cases w with
  | nil => cases h
  | cons c cs =>
    simp only [isWord, Bool.and_eq_true, List.all_eq_true] at h
    exact ⟨c, cs, rfl, h.1, h.2⟩

theorem isWord_append (h : isWord w = true) (hc : isWordPart c = true) :
    isWord (w ++ [c]) = true := by
  obtain ⟨d, ds, rfl, hd, hds⟩ := exists_of_isWord h
  simp only [isWord, List.cons_append, hd, Bool.true_and, List.all_eq_true, List.mem_append,
    List.mem_singleton]
  rintro e (he | rfl)
  · exact hds e he
  · exact hc

theorem Words.singleton (h : isWord w = true) : Words [w] :=
  ⟨List.cons_ne_nil _ _, fun _ hp => List.mem_singleton.mp hp ▸ h⟩

theorem Words.cons (h : isWord w = true) (hparts : Words parts) : Words (w :: parts) :=
  ⟨List.cons_ne_nil _ _, List.forall_mem_cons.mpr ⟨h, hparts.word⟩⟩

/-- Words and one more at the end. -/
theorem words_concat (hparts : ∀ p ∈ parts, isWord p = true) (h : isWord w = true) :
    Words (parts ++ [w]) :=
  ⟨by simp, List.forall_mem_append.mpr ⟨hparts, List.forall_mem_singleton.mpr h⟩⟩

/-! ## Putting components together -/

@[simp] theorem join_singleton (w : Text) : join [w] = w := List.intercalate_singleton

theorem join_cons (w : Text) (h : parts ≠ []) :
    join (w :: parts) = w ++ ':' :: ':' :: join parts := by
  cases parts with
  | nil => exact absurd rfl h
  | cons p parts => simp [join, separator, List.intercalate_cons_cons]

theorem join_append (hpath : path ≠ []) (hname : name ≠ []) :
    join (path ++ name) = join path ++ ':' :: ':' :: join name := by
  induction path with
  | nil => exact absurd rfl hpath
  | cons w path ih =>
    by_cases hrest : path = []
    · subst hrest
      rw [join_singleton]
      exact join_cons w hname
    · have hne : path ++ name ≠ [] := by simp [hrest]
      rw [List.cons_append, join_cons w hne, ih hrest, join_cons w hrest]
      simp

/-! ## Taking them apart -/

theorem components_cons (hc : c ≠ ':') (t : Text) :
    components (c :: t) = Text.consFirst c (components t) := by
  rw [components]
  rintro cs rfl
  exact absurd rfl hc

theorem components_ne_nil (t : Text) : components t ≠ [] := by
  fun_cases components t with
  | case1 => exact List.cons_ne_nil _ _
  | case2 cs => exact List.cons_ne_nil _ _
  | case3 d cs hstart => exact Text.consFirst_ne_nil _ _

theorem components_of_colon_not_mem (h : ':' ∉ w) : components w = [w] := by
  induction w with
  | nil => rfl
  | cons c w ih =>
    obtain ⟨hc, hw⟩ := colon_not_mem_cons h
    rw [components_cons hc, ih hw]
    rfl

theorem components_append (h : ':' ∉ w) (t : Text) :
    components (w ++ ':' :: ':' :: t) = w :: components t := by
  induction w with
  | nil => rfl
  | cons c w ih =>
    obtain ⟨hc, hw⟩ := colon_not_mem_cons h
    rw [List.cons_append, components_cons hc, ih hw]
    rfl

/-- The characters of the components of a text are those of the text, some colons left aside. -/
theorem mem_of_mem_components (hw : w ∈ components t) (hc : c ∈ w) : c ∈ t := by
  fun_induction components t generalizing w with
  | case1 =>
    rw [List.mem_singleton.mp hw] at hc
    cases hc
  | case2 cs ih =>
    rcases List.mem_cons.mp hw with rfl | hw
    · cases hc
    · exact List.mem_cons_of_mem _ (List.mem_cons_of_mem _ (ih hw hc))
  | case3 d cs hstart ih =>
    rcases Text.mem_consFirst hw with ⟨piece, rfl, hpiece⟩ | hw
    · rcases List.mem_cons.mp hc with rfl | hc
      · exact List.mem_cons_self
      · rcases hpiece with rfl | hpiece
        · cases hc
        · exact List.mem_cons_of_mem _ (ih hpiece hc)
    · exact List.mem_cons_of_mem _ (ih hw hc)

theorem exists_component_of_mem (hc : c ∈ t) (hcolon : c ≠ ':') : ∃ w ∈ components t, c ∈ w := by
  fun_induction components t with
  | case1 => cases hc
  | case2 cs ih =>
    have hrest : c ∈ cs := by simpa [hcolon] using hc
    obtain ⟨w, hw, hcw⟩ := ih hrest
    exact ⟨w, List.mem_cons_of_mem _ hw, hcw⟩
  | case3 d cs hstart ih =>
    rcases List.mem_cons.mp hc with rfl | hc
    · obtain ⟨piece, hpiece⟩ := Text.exists_mem_consFirst c (components cs)
      exact ⟨c :: piece, hpiece, List.mem_cons_self⟩
    · obtain ⟨w, hw, hcw⟩ := ih hc
      obtain ⟨w', hw', hsub⟩ := Text.exists_mem_consFirst_of_mem d hw
      exact ⟨w', hw', hsub hcw⟩

/-- **A path of words has these words for components.** -/
theorem components_join (h : Words parts) : components (join parts) = parts := by
  obtain ⟨hne, hword⟩ := h
  induction parts with
  | nil => exact absurd rfl hne
  | cons w parts ih =>
    obtain ⟨hw, hparts⟩ := List.forall_mem_cons.mp hword
    have hcolon := colon_not_mem hw
    by_cases hrest : parts = []
    · subst hrest
      rw [join_singleton, components_of_colon_not_mem hcolon]
    · rw [join_cons w hrest, components_append hcolon, ih hrest hparts]

theorem join_injective (hpath : Words path) (hname : Words name) (h : join path = join name) :
    path = name := by
  rw [← components_join hpath, h, components_join hname]

/-- A separator begins with a colon. -/
theorem isAbsolute_cons (hc : c ≠ ':') : isAbsolute (c :: t) = false := by
  simp [isAbsolute, Text.startsWith, separator, List.isPrefixOf, Ne.symm hc]

theorem before_separator (h : ':' ∉ w) (t : Text) :
    Text.before separator (w ++ ':' :: ':' :: t) = w := by
  induction w with
  | nil => rfl
  | cons c w ih =>
    obtain ⟨hc, hw⟩ := colon_not_mem_cons h
    have hstart : Text.startsWith (c :: (w ++ ':' :: ':' :: t)) separator = false :=
      isAbsolute_cons hc
    rw [List.cons_append, Text.before, hstart, ih hw]
    rfl

theorem before_separator_of_colon_not_mem (h : ':' ∉ w) : Text.before separator w = w := by
  induction w with
  | nil => rfl
  | cons c w ih =>
    obtain ⟨hc, hw⟩ := colon_not_mem_cons h
    have hstart : Text.startsWith (c :: w) separator = false := isAbsolute_cons hc
    rw [Text.before, hstart, ih hw]
    rfl

theorem contains_separator_of_colon_not_mem (h : ':' ∉ w) :
    Text.contains separator w = false := by
  induction w with
  | nil => rfl
  | cons c w ih =>
    obtain ⟨hc, hw⟩ := colon_not_mem_cons h
    have hstart : Text.startsWith (c :: w) separator = false := isAbsolute_cons hc
    rw [Text.contains, hstart, ih hw]
    rfl

/-- The last of the words of a path is its last component. -/
theorem lastComponent_join (h : isWord w = true) : lastComponent (join (parts ++ [w])) = w := by
  have hcolon : ':' ∉ w.reverse := fun hmem => colon_not_mem h (List.mem_reverse.mp hmem)
  unfold lastComponent
  by_cases hparts : parts = []
  · subst hparts
    rw [List.nil_append, join_singleton, before_separator_of_colon_not_mem hcolon,
      List.reverse_reverse]
  · rw [join_append hparts (List.cons_ne_nil w []), join_singleton]
    have hreverse : (join parts ++ ':' :: ':' :: w).reverse =
        w.reverse ++ ':' :: ':' :: (join parts).reverse := by simp
    rw [hreverse, before_separator hcolon, List.reverse_reverse]

/-! ## Identifiers are paths of words -/

/-- What continues a word to a path makes a path of words of it. -/
theorem exists_words_of_tail (h : pathTailLength t = t.length) (hw : isWord w = true) :
    ∃ parts, Words parts ∧ w ++ t = join parts := by
  fun_induction pathTailLength t generalizing w with
  | case1 c cs hc ih =>
    have htail : pathTailLength cs = cs.length := by simpa using h
    have hword : isWord [c] = true := by simp [isWord, hc]
    obtain ⟨parts, hparts, heq⟩ := ih htail hword
    refine ⟨w :: parts, hparts.cons hw, ?_⟩
    rw [join_cons w hparts.ne_nil, ← heq]
    rfl
  | case2 => simp at h
  | case3 c cs _ hc ih =>
    have htail : pathTailLength cs = cs.length := by simpa using h
    obtain ⟨parts, hparts, heq⟩ := ih htail (isWord_append hw hc)
    exact ⟨parts, hparts, by rw [← heq]; simp⟩
  | case4 => simp at h
  | case5 => exact ⟨[w], .singleton hw, by simp⟩

/-- **An identifier is a path of words**, possibly with a separator in front. -/
theorem exists_words_of_isSimple (h : isSimple t = true) :
    ∃ parts, Words parts ∧ t = if isAbsolute t then ':' :: ':' :: join parts else join parts := by
  obtain ⟨c, cs, hc, htail, rfl | rfl⟩ := exists_of_isSimple h
  all_goals
    have hword : isWord [c] = true := by simp [isWord, hc]
    obtain ⟨parts, hparts, heq⟩ := exists_words_of_tail htail hword
    refine ⟨parts, hparts, ?_⟩
  · have hcolon := not_colon_of_isWordPart (isWordPart_of_isWordStart hc)
    have hrelative : isAbsolute (c :: cs) = false := isAbsolute_cons hcolon
    rw [hrelative, ← heq]
    rfl
  · rw [← heq]
    rfl

theorem exists_words_of_relative (h : isSimple t = true) (hrelative : isAbsolute t = false) :
    ∃ parts, Words parts ∧ t = join parts := by
  obtain ⟨parts, hparts, ht⟩ := exists_words_of_isSimple h
  rw [hrelative] at ht
  exact ⟨parts, hparts, ht⟩

theorem pathTailLength_append_word {rest : Text} (h : ∀ d ∈ w, isWordPart d = true) :
    pathTailLength (w ++ rest) = w.length + pathTailLength rest := by
  induction w with
  | nil => simp
  | cons c w ih =>
    obtain ⟨hc, hw⟩ := List.forall_mem_cons.mp h
    rw [List.cons_append, pathTailLength_cons hc, ih hw, List.length_cons]
    omega

/-- What follows the first character of a path of words is measured to its end. -/
theorem pathTailLength_join (h : Words parts) :
    ∃ c cs, join parts = c :: cs ∧ isWordStart c = true ∧ pathTailLength cs = cs.length := by
  obtain ⟨hne, hword⟩ := h
  induction parts with
  | nil => exact absurd rfl hne
  | cons w parts ih =>
    obtain ⟨hw, hparts⟩ := List.forall_mem_cons.mp hword
    obtain ⟨c, cs, rfl, hc, hcs⟩ := exists_of_isWord hw
    by_cases hrest : parts = []
    · subst hrest
      have hlength : pathTailLength (cs ++ []) = cs.length + pathTailLength [] :=
        pathTailLength_append_word hcs
      refine ⟨c, cs, join_singleton _, hc, ?_⟩
      simpa [pathTailLength] using hlength
    · obtain ⟨d, ds, hjoin, hd, hds⟩ := ih hrest hparts
      refine ⟨c, cs ++ ':' :: ':' :: d :: ds, ?_, hc, ?_⟩
      · rw [join_cons _ hrest, hjoin]
        rfl
      · rw [pathTailLength_append_word hcs, pathTailLength, if_pos hd, hds]
        simp

theorem isSimple_join (h : Words parts) : isSimple (join parts) = true := by
  obtain ⟨c, cs, hjoin, hc, htail⟩ := pathTailLength_join h
  rw [hjoin, isSimple, pathLength_cons hc, htail]
  simp

theorem isSimple_separator_join (h : Words parts) : isSimple (separator ++ join parts) = true := by
  obtain ⟨c, cs, hjoin, hc, htail⟩ := pathTailLength_join h
  simp [separator, hjoin, isSimple, pathLength, hc, htail]

theorem isAbsolute_join (h : Words parts) : isAbsolute (join parts) = false := by
  obtain ⟨c, cs, hjoin, hc, -⟩ := pathTailLength_join h
  have hcolon := not_colon_of_isWordPart (isWordPart_of_isWordStart hc)
  rw [hjoin, isAbsolute_cons hcolon]

/-! ## Components that are not empty -/

/-- A separator in front of a path is dropped, if there is one. -/
theorem dropLead_separator (t : Text) :
    (∃ rest, t = ':' :: ':' :: rest ∧ t.dropLead separator = rest) ∨ t.dropLead separator = t := by
  unfold Text.dropLead Text.after?
  by_cases hstart : t.startsWith separator = true
  · left
    obtain ⟨rest, rfl⟩ := List.isPrefixOf_iff_prefix.mp hstart
    exact ⟨rest, rfl, by rw [if_pos hstart]; rfl⟩
  · right
    rw [if_neg hstart]
    rfl

/-- It makes no difference to the components that are not empty. -/
theorem properComponents_dropLead (t : Text) :
    properComponents (t.dropLead separator) = properComponents t := by
  rcases dropLead_separator t with ⟨rest, rfl, hrest⟩ | hsame
  · rw [hrest]
    rfl
  · rw [hsame]

theorem mem_dropLead_separator {c : Char} (hcolon : c ≠ ':') :
    c ∈ t.dropLead separator ↔ c ∈ t := by
  rcases dropLead_separator t with ⟨rest, rfl, hrest⟩ | hsame
  · rw [hrest]
    simp [hcolon]
  · rw [hsame]

theorem properComponents_of_colon_not_mem (h : ':' ∉ w) (hne : w ≠ []) :
    properComponents w = [w] := by
  rw [properComponents, components_of_colon_not_mem h]
  exact List.filter_eq_self.mpr fun p hp => by simpa [List.mem_singleton.mp hp] using hne

/-- Words are not empty, so all components of a path of words are kept. -/
theorem properComponents_join (h : Words parts) : properComponents (join parts) = parts := by
  rw [properComponents, components_join h]
  refine List.filter_eq_self.mpr fun p hp => ?_
  obtain ⟨c, cs, rfl, -⟩ := exists_of_isWord (h.word p hp)
  rfl

/-- The components of an identifier that are not empty are words. -/
theorem words_properComponents (h : isSimple t = true) : Words (properComponents t) := by
  obtain ⟨parts, hparts, ht⟩ := exists_words_of_isSimple h
  have hcomponents : properComponents t = parts := by
    rw [ht]
    split
    · exact properComponents_join hparts
    · exact properComponents_join hparts
  exact hcomponents ▸ hparts

/-! ## Paths at the end of paths -/

/-- A separator and what follows it are not found inside a word. -/
theorem suffix_of_suffix_append {s : Text} (hw : ':' ∉ w)
    (h : ':' :: ':' :: s <:+ w ++ t) : ':' :: ':' :: s <:+ t := by
  obtain ⟨before, hbefore⟩ := h
  rcases List.append_eq_append_iff.mp hbefore with ⟨rest, hrest, htail⟩ | ⟨rest, hrest, htail⟩
  · cases rest with
    | nil => exact ⟨[], by simpa using htail⟩
    | cons d rest =>
      obtain ⟨rfl, -⟩ := List.cons.inj htail
      exact absurd (by simp [hrest]) hw
  · exact ⟨rest, htail.symm⟩

theorem separated_suffix_iff (hpath : Words path) (hname : Words name) :
    ':' :: ':' :: join name <:+ join path ↔ ∃ outer, outer ≠ [] ∧ path = outer ++ name := by
  constructor
  · intro h
    obtain ⟨hne, hword⟩ := hpath
    induction path with
    | nil => exact absurd rfl hne
    | cons w path ih =>
      obtain ⟨hw, hrest⟩ := List.forall_mem_cons.mp hword
      have hcolon := colon_not_mem hw
      by_cases hpath : path = []
      · subst hpath
        rw [join_singleton] at h
        exact absurd (h.subset List.mem_cons_self) hcolon
      · have hwords : Words path := ⟨hpath, hrest⟩
        rw [join_cons w hpath] at h
        -- The separator that was found is the one after the first word, or it comes later.
        rcases List.suffix_cons_iff.mp (suffix_of_suffix_append hcolon h) with heq | h
        · have hjoin : join name = join path := List.cons.inj (List.cons.inj heq).2 |>.2
          exact ⟨[w], List.cons_ne_nil _ _, by rw [join_injective hname hwords hjoin]; rfl⟩
        · obtain ⟨c, cs, hjoin, hc, -⟩ := pathTailLength_join hwords
          have hstart := not_colon_of_isWordPart (isWordPart_of_isWordStart hc)
          rcases List.suffix_cons_iff.mp h with heq | h
          · rw [hjoin] at heq
            obtain ⟨rfl, -⟩ := List.cons.inj (List.cons.inj heq).2
            exact absurd rfl hstart
          · obtain ⟨outer, -, hsplit⟩ := ih h hpath hrest
            exact ⟨w :: outer, List.cons_ne_nil _ _, by rw [hsplit]; rfl⟩
  · rintro ⟨outer, houter, rfl⟩
    rw [join_append houter hname.ne_nil]
    exact List.suffix_append _ _

/-- **One path ends in another when its words do.** -/
theorem join_suffix_iff (hpath : Words path) (hname : Words name) :
    join path = join name ∨ ':' :: ':' :: join name <:+ join path ↔ name <:+ path := by
  rw [separated_suffix_iff hpath hname]
  constructor
  · rintro (heq | ⟨outer, -, rfl⟩)
    · obtain rfl := join_injective hpath hname heq
      exact List.suffix_refl _
    · exact List.suffix_append _ _
  · rintro ⟨outer, rfl⟩
    by_cases houter : outer = []
    · exact Or.inl (by rw [houter]; rfl)
    · exact Or.inr ⟨outer, houter, rfl⟩

end DocTypes.Name
