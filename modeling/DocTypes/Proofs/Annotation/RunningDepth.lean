import DocTypes.Proofs.Annotation.Depth

/-! # The depth of a text, counted

`Brackets.depth` counts: the openers of a text, less the closers that do not come right after an
equals sign.  It is the depth to which reading the text leads (`Level.depth_after_outside`), so what
is said of levels and what is said by counting are the same.

A text is `WellNested` when no part at its front has a negative depth and the depth of all of it is
zero.  This is less than `Balanced`, which asks for no equals sign at the end either
(`balanced_iff`): a closer behind a well-nested text may be without effect, and any other character
is read there as it is read outside. -/

namespace DocTypes

open Level

namespace Brackets

/-- How many closers of a text count, when `previous` stands in front of it: those that do not come
right after an equals sign. -/
def closings (previous : Char) (t : Text) : Nat :=
  ((previous :: t).zip t).countP fun (before, c) => isCloser c && before != '='

/-- How many more brackets a text opens than it closes.  In front of it stands nothing, or a
blank. -/
def depth (t : Text) : Int := t.countP isOpener - closings ' ' t

end Brackets

/-! ## Counting and reading -/

namespace Level

variable {s : Level} {t : Text}

theorem depthChange_eq (previous c : Char) : Parameters.depthChange (previous == '=') c =
    ((if Brackets.isOpener c then 1 else 0 : Nat) : Int) -
      ((if Brackets.isCloser c && previous != '=' then 1 else 0 : Nat) : Int) := by
  by_cases ho : Brackets.isOpener c = true
  · have hc : Brackets.isCloser c = false := by
      rcases isOpener_iff.mp ho with rfl | rfl | rfl <;> rfl
    rw [Parameters.depthChange, if_pos (isOpener_iff.mp ho), if_pos ho, hc]
    rfl
  · have ho' := fun h => ho (isOpener_iff.mpr h)
    by_cases hc : (Brackets.isCloser c && previous != '=') = true
    · obtain ⟨hcloser, hprevious⟩ := Bool.and_eq_true_iff.mp hc
      rw [Parameters.depthChange, if_neg ho', if_pos ⟨isCloser_iff.mp hcloser, hprevious⟩, if_neg ho,
        if_pos hc]
      rfl
    · rw [if_neg ho, if_neg hc]
      exact depthChange_eq_zero (s := ⟨0, previous == '='⟩) ho hc

/-- Reading a text changes the depth by its openers and those of its closers that count. -/
theorem depth_after (previous : Char) (h : s.afterEquals = (previous == '=')) (t : Text) :
    (s.after t).depth =
      s.depth + (t.countP Brackets.isOpener - Brackets.closings previous t : Int) := by
  induction t generalizing s previous with
  | nil => simp [Brackets.closings]
  | cons c t ih =>
    have hcount : Brackets.closings previous (c :: t) = Brackets.closings c t +
        if Brackets.isCloser c && previous != '=' then 1 else 0 := by
      rw [Brackets.closings, List.zip_cons_cons, List.countP_cons]
      rfl
    have hstep : (s.step c).depth = s.depth + Parameters.depthChange (previous == '=') c := by
      rw [← h]
      rfl
    rw [after_cons, ih c rfl, hstep, depthChange_eq, List.countP_cons, hcount]
    push_cast
    omega

/-- **Reading a text from the outside leads to its depth.** -/
theorem depth_after_outside (t : Text) : (outside.after t).depth = Brackets.depth t := by
  rw [depth_after ' ' rfl, Brackets.depth]
  exact Int.zero_add _

theorem staysAbove_iff {low : Int} :
    StaysAbove low s t ↔ ∀ before, before <+: t → before ≠ [] → low ≤ (s.after before).depth := by
  induction t generalizing s with
  | nil =>
    refine iff_of_true trivial fun before hprefix hne => ?_
    exact absurd (List.prefix_nil.mp hprefix) hne
  | cons c t ih =>
    rw [StaysAbove, ih]
    constructor
    · rintro ⟨hc, ht⟩ before hprefix hne
      rcases List.prefix_cons_iff.mp hprefix with rfl | ⟨before, rfl, hbefore⟩
      · exact absurd rfl hne
      · by_cases hnil : before = []
        · rw [hnil]
          exact hc
        · exact ht before hbefore hnil
    · intro h
      refine ⟨h [c] (by simp) (by simp), fun before hbefore _ => ?_⟩
      exact h (c :: before) (List.prefix_cons_iff.mpr (Or.inr ⟨before, rfl, hbefore⟩)) (by simp)

end Level

/-! ## Well-nested texts -/

/-- Whether a text, read from its front, never closes more than it has opened, and has closed all of
it at the end. -/
structure WellNested (t : Text) : Prop where
  nonneg : ∀ before, before <+: t → 0 ≤ Brackets.depth before
  closed : Brackets.depth t = 0

/-- Whether reading a text from a level on never leads below the outside, and ends there. -/
structure Returns (s : Level) (t : Text) : Prop where
  above : StaysAbove 0 s t
  depth : (s.after t).depth = 0

theorem returns_cons {s : Level} {c : Char} {t : Text} :
    Returns s (c :: t) ↔ 0 ≤ (s.step c).depth ∧ Returns (s.step c) t := by
  constructor
  · exact fun h => ⟨h.above.1, h.above.2, h.depth⟩
  · exact fun h => ⟨⟨h.1, h.2.above⟩, h.2.depth⟩

theorem returns_arrow {s : Level} {t : Text} :
    Returns s ('=' :: '>' :: t) ↔ 0 ≤ s.depth ∧ Returns ⟨s.depth, false⟩ t := by
  rw [returns_cons, returns_cons, step_arrow, step_equals]
  exact and_self_left

namespace Returns

variable {s : Level} {t u : Text}

theorem append (ht : Returns s t) (hu : Returns (s.after t) u) : Returns s (t ++ u) :=
  ⟨staysAbove_append.mpr ⟨ht.above, hu.above⟩, by rw [after_append, hu.depth]⟩

/-- Without brackets a text stays where it starts. -/
theorem of_unbracketed (hs : s.depth = 0)
    (h : ∀ c ∈ t, Brackets.isOpener c = false ∧ Brackets.isCloser c = false) : Returns s t := by
  induction t generalizing s with
  | nil => exact ⟨trivial, hs⟩
  | cons c t ih =>
    obtain ⟨⟨hopener, hcloser⟩, ht⟩ := List.forall_mem_cons.mp h
    have hstep : (s.step c).depth = 0 := by rw [depth_step hopener hcloser, hs]
    exact returns_cons.mpr ⟨Int.le_of_eq hstep.symm, ih hstep ht⟩

theorem of_unmarked (hs : s.depth = 0) (h : ∀ c ∈ t, isMark c = false) : Returns s t := by
  refine of_unbracketed hs fun c hc => ?_
  have hmark := h c hc
  simp only [isMark, Bool.or_eq_false_iff] at hmark
  exact hmark.1.1

end Returns

theorem wellNested_iff {t : Text} : WellNested t ↔ Returns outside t := by
  constructor
  · rintro ⟨hnonneg, hclosed⟩
    refine ⟨staysAbove_iff.mpr fun before hprefix _ => ?_, ?_⟩
    · rw [depth_after_outside]
      exact hnonneg before hprefix
    · rw [depth_after_outside, hclosed]
  · rintro ⟨habove, hdepth⟩
    refine ⟨fun before hprefix => ?_, by rw [← depth_after_outside, hdepth]⟩
    by_cases hnil : before = []
    · rw [hnil]
      decide
    · rw [← depth_after_outside]
      exact staysAbove_iff.mp habove before hprefix hnil

instance : DecidablePred WellNested := fun t =>
  decidable_of_iff
    ((∀ n < t.length + 1, 0 ≤ Brackets.depth (t.take n)) ∧ Brackets.depth t = 0)
    ⟨fun h => ⟨fun before hprefix => by
        have hle := hprefix.length_le
        rw [List.prefix_iff_eq_take.mp hprefix]
        exact h.1 before.length (by omega), h.2⟩,
      fun h => ⟨fun n _ => h.nonneg _ (List.take_prefix n t), h.closed⟩⟩

/-- A text is balanced if it is well nested and does not end in an equals sign. -/
theorem balanced_iff {t : Text} : Balanced t ↔ WellNested t ∧ t.getLast? ≠ some '=' := by
  have hequals := afterEquals_after (s := outside) rfl t
  rw [wellNested_iff]
  constructor
  · rintro ⟨habove, hclosed⟩
    rw [hclosed] at hequals
    refine ⟨⟨habove, by rw [hclosed]; rfl⟩, fun hend => ?_⟩
    rw [hend] at hequals
    cases hequals
  · rintro ⟨⟨habove, hdepth⟩, hend⟩
    refine ⟨habove, ?_⟩
    have hnot : (outside.after t).afterEquals = false := by
      rw [hequals]
      simpa using hend
    cases hafter : outside.after t with
    | mk depth afterEquals =>
      rw [hafter] at hdepth hnot
      exact congr (congrArg Level.mk hdepth) hnot

instance : DecidablePred Balanced := fun _ => decidable_of_iff _ balanced_iff.symm

theorem Balanced.wellNested {t : Text} (h : Balanced t) : WellNested t := (balanced_iff.mp h).1

end DocTypes
