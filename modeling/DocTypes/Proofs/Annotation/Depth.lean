import DocTypes.Annotation.Brackets
import DocTypes.Annotation.Parameters

/-! # Bracket depth

Two readers count brackets: `Parameters.cut` looks for separators outside of all of them, and
`Brackets.untilClosed?` for the end of the outermost one.  Both keep a depth and whether the last
character was an equals sign, which is a `Level`, and both move it in the same way (`Level.step`).

A text is `Balanced` when reading it from the outside never leads below the outside and comes back
to it; then it may be read at any level without a trace (`Balanced.after`, `Balanced.staysAbove`).
Balanced texts are closed under putting them one after another (`Balanced.append`) and under
brackets (`Balanced.enclose`).

Main statements: a reader of brackets runs over a text that stays inside them without finding their
end (`untilClosed?_append`), so brackets around a balanced text enclose it
(`enclosed?_of_balanced`); and cutting runs over a text without a separator of its own
(`cut_append`). -/

namespace DocTypes

/-- Where a reader of brackets stands. -/
structure Level where
  depth : Int
  afterEquals : Bool
  deriving DecidableEq

namespace Level

/-- Outside of all brackets, with nothing read. -/
def outside : Level := ⟨0, false⟩

/-- The level after a character. -/
def step (s : Level) (c : Char) : Level :=
  ⟨s.depth + Parameters.depthChange s.afterEquals c, c == '='⟩

/-- The level after a text. -/
def after (s : Level) (t : Text) : Level := t.foldl step s

/-- The same level with further brackets around it. -/
def raise (s : Level) (k : Int) : Level := ⟨s.depth + k, s.afterEquals⟩

@[simp] theorem after_nil (s : Level) : s.after [] = s := rfl

@[simp] theorem after_cons (s : Level) (c : Char) (t : Text) :
    s.after (c :: t) = (s.step c).after t := rfl

theorem after_append (s : Level) (t u : Text) : s.after (t ++ u) = (s.after t).after u :=
  List.foldl_append

theorem step_raise (s : Level) (k : Int) (c : Char) : (s.raise k).step c = (s.step c).raise k := by
  simp only [step, raise, mk.injEq, and_true]
  omega

theorem after_raise (s : Level) (k : Int) (t : Text) :
    (s.raise k).after t = (s.after t).raise k := by
  induction t generalizing s with
  | nil => rfl
  | cons c t ih => rw [after_cons, after_cons, step_raise, ih]

theorem raise_cancel {s s' : Level} {k : Int} (h : s.raise k = s'.raise k) : s = s' := by
  obtain ⟨depth, afterEquals⟩ := s
  obtain ⟨depth', afterEquals'⟩ := s'
  simp only [raise, mk.injEq] at h ⊢
  exact ⟨by omega, h.2⟩

/-- What a reader remembers of the characters is whether the last one is an equals sign. -/
theorem afterEquals_after {s : Level} (h : s.afterEquals = false) (t : Text) :
    (s.after t).afterEquals = (t.getLast? == some '=') := by
  rcases List.eq_nil_or_concat t with rfl | ⟨t, c, rfl⟩
  · exact h
  · rw [List.concat_eq_append, after_append, List.getLast?_concat]
    rfl

/-- Whether going on with a text does not complete an arrow. -/
def Apart (s : Level) (rest : Text) : Prop := s.afterEquals = true → rest.head? ≠ some '>'

theorem apart_of_not {s : Level} {rest : Text} (h : s.afterEquals = false) : Apart s rest := by
  intro hequals
  rw [h] at hequals
  cases hequals

/-- Whether every level in a text, from `s` on, is at least that deep. -/
def StaysAbove (low : Int) : Level → Text → Prop
  | _, [] => True
  | s, c :: cs => low ≤ (s.step c).depth ∧ StaysAbove low (s.step c) cs

theorem staysAbove_append {low : Int} {s : Level} {t u : Text} :
    StaysAbove low s (t ++ u) ↔ StaysAbove low s t ∧ StaysAbove low (s.after t) u := by
  induction t generalizing s with
  | nil => simp [StaysAbove]
  | cons c t ih => rw [List.cons_append, StaysAbove, StaysAbove, ih, and_assoc, after_cons]

theorem staysAbove_raise {low k : Int} {s : Level} {t : Text} :
    StaysAbove (low + k) (s.raise k) t ↔ StaysAbove low s t := by
  induction t generalizing s with
  | nil => exact Iff.rfl
  | cons c t ih =>
    rw [StaysAbove, StaysAbove, step_raise, ih]
    exact and_congr_left fun _ => by simp only [raise]; omega

theorem StaysAbove.mono {low low' : Int} (hle : low' ≤ low) {s : Level} {t : Text}
    (h : StaysAbove low s t) : StaysAbove low' s t := by
  induction t generalizing s with
  | nil => trivial
  | cons c t ih => exact ⟨by have := h.1; omega, ih h.2⟩

end Level

/-! ## Characters -/

/-- Whether a character opens, closes or separates, or is part of an arrow. -/
def isMark (c : Char) : Bool :=
  Brackets.isOpener c || Brackets.isCloser c || c == ',' || c == '='

open Level

section Characters

variable {c : Char} {s : Level}

theorem isOpener_iff : Brackets.isOpener c = true ↔ c = '<' ∨ c = '\x7b' ∨ c = '(' := by
  simp [Brackets.isOpener, or_assoc]

theorem isCloser_iff : Brackets.isCloser c = true ↔ c = '>' ∨ c = '\x7d' ∨ c = ')' := by
  simp [Brackets.isCloser, or_assoc]

theorem step_opener (h : Brackets.isOpener c = true) : s.step c = ⟨s.depth + 1, false⟩ := by
  rcases isOpener_iff.mp h with rfl | rfl | rfl <;> rfl

theorem step_closer (h : Brackets.isCloser c = true) (hs : s.afterEquals = false) :
    s.step c = ⟨s.depth - 1, false⟩ := by
  rw [step, hs]
  rcases isCloser_iff.mp h with rfl | rfl | rfl <;> rfl

theorem depthChange_eq_zero (ho : ¬ Brackets.isOpener c = true)
    (hc : ¬ (Brackets.isCloser c && !s.afterEquals) = true) :
    Parameters.depthChange s.afterEquals c = 0 := by
  rw [isOpener_iff] at ho
  rw [Bool.and_eq_true, isCloser_iff] at hc
  rw [Parameters.depthChange, if_neg ho, if_neg hc]

theorem depth_step (hopener : Brackets.isOpener c = false) (hcloser : Brackets.isCloser c = false) :
    (s.step c).depth = s.depth := by
  show s.depth + Parameters.depthChange s.afterEquals c = s.depth
  rw [depthChange_eq_zero (by simp [hopener]) (by simp [hcloser]), Int.add_zero]

theorem step_equals (s : Level) : s.step '=' = ⟨s.depth, true⟩ := by
  simp [step, Parameters.depthChange]

/-- Reading an arrow leaves the depth alone. -/
theorem step_arrow (s : Level) : (s.step '=').step '>' = ⟨s.depth, false⟩ := by
  simp [step, Parameters.depthChange]

theorem step_comma (s : Level) : s.step ',' = ⟨s.depth, false⟩ := by
  simp [step, Parameters.depthChange]

theorem step_unmarked (h : isMark c = false) : s.step c = ⟨s.depth, false⟩ := by
  simp only [isMark, Bool.or_eq_false_iff] at h
  obtain ⟨⟨⟨ho, hc⟩, -⟩, he⟩ := h
  rw [step, depthChange_eq_zero (by simp [ho]) (by simp [hc]), he, Int.add_zero]

/-- Without marks a text leaves the depth alone. -/
theorem depth_after_of_unmarked {t : Text} (h : ∀ c ∈ t, isMark c = false) :
    (s.after t).depth = s.depth := by
  induction t generalizing s with
  | nil => rfl
  | cons c t ih =>
    obtain ⟨hc, ht⟩ := List.forall_mem_cons.mp h
    rw [after_cons, ih ht, step_unmarked hc]

end Characters

/-! ## Balanced texts -/

/-- Whether a text closes what it opens, and nothing else. -/
structure Balanced (t : Text) : Prop where
  above : StaysAbove 0 outside t
  closed : outside.after t = outside

namespace Balanced

variable {t u : Text}

/-- Reading a balanced text leads back to where it started. -/
theorem after (h : Balanced t) (d : Int) : Level.after ⟨d, false⟩ t = ⟨d, false⟩ := by
  have hraise : (⟨d, false⟩ : Level) = outside.raise d := by simp [outside, raise]
  rw [hraise, after_raise, h.closed]

theorem staysAbove (h : Balanced t) (d : Int) : StaysAbove d ⟨d, false⟩ t := by
  have hraise := (staysAbove_raise (k := d)).mpr h.above
  simpa [outside, raise] using hraise

theorem nil : Balanced [] := ⟨trivial, rfl⟩

theorem append (ht : Balanced t) (hu : Balanced u) : Balanced (t ++ u) := by
  constructor
  · rw [staysAbove_append, ht.closed]
    exact ⟨ht.above, hu.above⟩
  · rw [after_append, ht.closed, hu.closed]

theorem of_unmarked (h : ∀ c ∈ t, isMark c = false) : Balanced t := by
  induction t with
  | nil => exact nil
  | cons c t ih =>
    have hc : outside.step c = outside := step_unmarked (h c List.mem_cons_self)
    have ht := ih fun d hd => h d (List.mem_cons_of_mem c hd)
    constructor
    · rw [StaysAbove, hc]
      exact ⟨Int.le_refl 0, ht.above⟩
    · rw [after_cons, hc, ht.closed]

theorem comma : Balanced [','] := ⟨⟨by decide, trivial⟩, by decide⟩

theorem arrow : Balanced ['=', '>'] := ⟨⟨by decide, by decide, trivial⟩, by decide⟩

/-- No arrow begins at the end of a balanced text. -/
theorem apart (h : Balanced t) {d : Int} : Apart (Level.after ⟨d, false⟩ t) u :=
  apart_of_not (congrArg afterEquals (h.after d))

/-- Inside brackets a balanced text stays inside. -/
theorem staysAbove_one (h : Balanced t) : StaysAbove 1 ⟨1, false⟩ t := h.staysAbove 1

/-- A balanced text in brackets is balanced. -/
theorem enclose (h : Balanced t) {opener closer : Char} (hopener : Brackets.isOpener opener = true)
    (hcloser : Brackets.isCloser closer = true) : Balanced (opener :: (t ++ [closer])) := by
  have ho : outside.step opener = ⟨1, false⟩ := step_opener hopener
  have hc : (⟨1, false⟩ : Level).step closer = outside := step_closer hcloser rfl
  constructor
  · rw [StaysAbove, ho, staysAbove_append, h.after 1, StaysAbove, hc]
    exact ⟨by decide, h.staysAbove_one.mono (by decide), Int.le_refl 0, trivial⟩
  · rw [after_cons, ho, after_append, h.after 1, after_cons, hc, after_nil]

end Balanced

/-! ## Finding the end of the brackets -/

namespace Brackets

theorem untilClosed?_cons {s : Level} {c : Char} {cs : Text} (hs : 1 ≤ s.depth)
    (hc : 1 ≤ (s.step c).depth) :
    untilClosed? s.depth.toNat s.afterEquals (c :: cs) =
      untilClosed?.consInner c
        (untilClosed? (s.step c).depth.toNat (s.step c).afterEquals cs) := by
  rw [untilClosed?]
  split
  · next ho =>
    rw [step_opener ho]
    show _ = untilClosed?.consInner c (untilClosed? (s.depth + 1).toNat false cs)
    rw [show (s.depth + 1).toNat = s.depth.toNat + 1 by omega]
  · next ho =>
    split
    · next hcloses =>
      obtain ⟨hcloser, hs'⟩ := Bool.and_eq_true_iff.mp hcloses
      have hstep := step_closer hcloser (by simpa using hs')
      rw [hstep] at hc ⊢
      have hdeep : ¬ s.depth.toNat ≤ 1 := by
        simp only at hc
        omega
      rw [if_neg hdeep]
      show _ = untilClosed?.consInner c (untilClosed? (s.depth - 1).toNat false cs)
      rw [show (s.depth - 1).toNat = s.depth.toNat - 1 by omega]
    · next hcloses =>
      simp only [step, depthChange_eq_zero ho hcloses, Int.add_zero]

/-- A text that stays inside the brackets does not end them. -/
theorem untilClosed?_append {s : Level} {t rest : Text} (hs : 1 ≤ s.depth)
    (h : StaysAbove 1 s t) :
    untilClosed? s.depth.toNat s.afterEquals (t ++ rest) =
      t.foldr untilClosed?.consInner
        (untilClosed? (s.after t).depth.toNat (s.after t).afterEquals rest) := by
  induction t generalizing s with
  | nil => rfl
  | cons c t ih =>
    rw [List.cons_append, untilClosed?_cons hs h.1, ih h.1 h.2]
    rfl

theorem foldr_consInner (t inner rest : Text) (closer : Char) :
    t.foldr untilClosed?.consInner (some (inner, closer, rest)) =
      some (t ++ inner, closer, rest) := by
  induction t with
  | nil => rfl
  | cons c t ih => rw [List.foldr_cons, ih]; rfl

/-- What ends the brackets is a closer. -/
theorem isCloser_of_untilClosed? {depth : Nat} {afterEquals : Bool} {t inner rest : Text}
    {closer : Char} (h : untilClosed? depth afterEquals t = some (inner, closer, rest)) :
    isCloser closer = true := by
  fun_induction untilClosed? depth afterEquals t generalizing inner with
  | case1 => cases h
  | case2 depth afterEquals c cs _ ih =>
    obtain ⟨tail, -, hfound⟩ := consInner_eq_some h
    exact ih hfound
  | case3 depth afterEquals c cs _ hcloser =>
    cases h
    exact (Bool.and_eq_true_iff.mp hcloser).1
  | case4 depth afterEquals c cs _ _ _ ih =>
    obtain ⟨tail, -, hfound⟩ := consInner_eq_some h
    exact ih hfound
  | case5 depth afterEquals c cs _ _ ih =>
    obtain ⟨tail, -, hfound⟩ := consInner_eq_some h
    exact ih hfound

/-- Only brackets enclose. -/
theorem isCloser_of_enclosed? {opener closer : Char} {t inner : Text}
    (h : enclosed? opener closer t = some inner) : isCloser closer = true := by
  cases t with
  | nil => cases h
  | cons c cs =>
    rw [enclosed?] at h
    split at h
    · split at h
      · next found hfound =>
        split at h
        · next hcloser => exact hcloser ▸ isCloser_of_untilClosed? hfound
        · cases h
      · cases h
    · cases h

/-- **Brackets around a balanced text enclose it.** -/
theorem enclosed?_of_balanced {t : Text} (h : Balanced t) {opener closer : Char}
    (hcloser : isCloser closer = true) :
    enclosed? opener closer (opener :: (t ++ [closer])) = some t := by
  have hlast : untilClosed? 1 false [closer] = some ([], closer, []) := by
    rcases isCloser_iff.mp hcloser with rfl | rfl | rfl <;> rfl
  have hfound : untilClosed? 1 false (t ++ [closer]) = some (t, closer, []) := by
    refine (untilClosed?_append (s := ⟨1, false⟩) (by decide) h.staysAbove_one).trans ?_
    rw [h.after 1]
    show t.foldr untilClosed?.consInner (untilClosed? 1 false [closer]) = _
    rw [hlast, foldr_consInner, List.append_nil]
  rw [enclosed?, if_pos rfl, hfound]
  exact if_pos rfl

end Brackets

/-! ## Cutting -/

namespace Parameters

/-- Whether a character, with the text after it, begins a separator when read at a level. -/
def SeparatorAt (s : Level) (c : Char) (cs : Text) : Prop :=
  (s.step c).depth = 0 ∧ (c = ',' ∨ c = '=' ∧ cs.head? = some '>')

/-- Whether a text, read from a level on, has no separator of its own. -/
def Unseparated : Level → Text → Prop
  | _, [] => True
  | s, c :: cs => ¬ SeparatorAt s c cs ∧ Unseparated (s.step c) cs

theorem unseparated_of_staysAbove {s : Level} {t : Text} (h : StaysAbove 1 s t) :
    Unseparated s t := by
  induction t generalizing s with
  | nil => trivial
  | cons c t ih =>
    refine ⟨fun hsep => ?_, ih h.2⟩
    have hdepth := h.1
    rw [hsep.1] at hdepth
    exact absurd hdepth (by decide)

theorem unseparated_cons {s : Level} {c : Char} {t : Text} (hcomma : c ≠ ',') (hequals : c ≠ '=')
    (h : Unseparated (s.step c) t) : Unseparated s (c :: t) :=
  ⟨fun hsep => hsep.2.elim hcomma fun harrow => hequals harrow.1, h⟩

theorem unseparated_of_unmarked {s : Level} {t : Text} (h : ∀ c ∈ t, isMark c = false) :
    Unseparated s t := by
  induction t generalizing s with
  | nil => trivial
  | cons c t ih =>
    have hc := h c List.mem_cons_self
    refine unseparated_cons ?_ ?_ (ih fun d hd => h d (List.mem_cons_of_mem c hd))
    · rintro rfl
      exact absurd hc (by decide)
    · rintro rfl
      exact absurd hc (by decide)

/-- Unless they make an arrow, no separator comes about where two texts meet. -/
theorem separatorAt_append {s : Level} {c : Char} {t u : Text}
    (hapart : Apart ((s.step c).after t) u) : SeparatorAt s c (t ++ u) ↔ SeparatorAt s c t := by
  cases t with
  | cons d t => exact Iff.rfl
  | nil =>
    have hnone : ¬ (c = '=' ∧ u.head? = some '>') := by
      rintro ⟨rfl, hhead⟩
      exact hapart rfl hhead
    simp [SeparatorAt, hnone]

theorem unseparated_append {s : Level} {t u : Text} (ht : Unseparated s t)
    (hapart : Apart (s.after t) u) (hu : Unseparated (s.after t) u) :
    Unseparated s (t ++ u) := by
  induction t generalizing s with
  | nil => exact hu
  | cons c t ih =>
    refine ⟨fun hsep => ht.1 ?_, ih ht.2 hapart hu⟩
    exact (separatorAt_append hapart).mp hsep

/-- Brackets hide the separators inside. -/
theorem unseparated_enclose {t : Text} (h : Balanced t) {opener closer : Char}
    (hopener : Brackets.isOpener opener = true) (hcloser : Brackets.isCloser closer = true) :
    Unseparated outside (opener :: (t ++ [closer])) := by
  refine unseparated_cons ?_ ?_ ?_
  · rintro rfl
    exact absurd hopener (by decide)
  · rintro rfl
    exact absurd hopener (by decide)
  rw [show outside.step opener = ⟨1, false⟩ from step_opener hopener]
  refine unseparated_append (unseparated_of_staysAbove h.staysAbove_one) h.apart
    (unseparated_cons ?_ ?_ trivial)
  · rintro rfl
    exact absurd hcloser (by decide)
  · rintro rfl
    exact absurd hcloser (by decide)

theorem cut_cons {s : Level} {c : Char} {cs : Text} (h : ¬ SeparatorAt s c cs) :
    cut s.depth s.afterEquals (c :: cs) =
      (cut (s.step c).depth (s.step c).afterEquals cs).cons c := by
  by_cases harrow : c = '=' ∧ cs.head? = some '>'
  · -- The second character of an arrow closes nothing, whether it is read with the first or alone.
    obtain ⟨rfl, hhead⟩ := harrow
    obtain ⟨rest, rfl⟩ : ∃ rest, cs = '>' :: rest := by
      cases cs with
      | nil => cases hhead
      | cons d rest => exact ⟨rest, by cases hhead; rfl⟩
    have hdepth : s.depth ≠ 0 := fun hzero =>
      h ⟨by rw [step_equals]; exact hzero, Or.inr ⟨rfl, rfl⟩⟩
    rw [cut, if_neg hdepth, step_equals]
    simp [cut, depthChange]
  · have hcomma : ¬ ((s.step c).depth = 0 ∧ c = ',') := fun hsep => h ⟨hsep.1, Or.inl hsep.2⟩
    rw [cut]
    · exact if_neg hcomma
    · rintro rest rfl rfl
      exact harrow ⟨rfl, rfl⟩

/-- Cutting runs over a text without a separator of its own. -/
theorem cut_append {s : Level} {t : Text} (h : Unseparated s t) (rest : Text)
    (hapart : Apart (s.after t) rest) :
    cut s.depth s.afterEquals (t ++ rest) =
      ⟨t ++ (cut (s.after t).depth (s.after t).afterEquals rest).first,
        (cut (s.after t).depth (s.after t).afterEquals rest).others⟩ := by
  induction t generalizing s with
  | nil => rfl
  | cons c t ih =>
    have hc : ¬ SeparatorAt s c (t ++ rest) := fun hsep =>
      h.1 ((separatorAt_append hapart).mp hsep)
    rw [List.cons_append, cut_cons hc, ih h.2 hapart]
    rfl

/-- A balanced text without a separator of its own belongs to the first segment. -/
theorem cut_balanced {t : Text} (h : Balanced t) (hseparated : Unseparated outside t)
    (rest : Text) :
    cut 0 false (t ++ rest) = ⟨t ++ (cut 0 false rest).first, (cut 0 false rest).others⟩ := by
  have hcut := cut_append hseparated rest (h.apart (d := 0))
  rw [h.closed] at hcut
  exact hcut

end Parameters

end DocTypes
