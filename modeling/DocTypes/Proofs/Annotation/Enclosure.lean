import DocTypes.Proofs.Annotation.Recognizers
import DocTypes.Proofs.Annotation.RunningDepth

/-! # What brackets enclose

`Brackets.enclosed?` looks for the end of the brackets at the front of a text, `Parameters.cut` for
separators in what was found between them.  They agree on what is balanced: brackets enclose a text
if and only if it is (`enclosed?_brackets`).

With the recognizers excluding each other this says how any brackets are read, whatever is between
them: as their head says if it is balanced, and as nothing otherwise (`Shape.of_around_eq`).

The other way round the parameters of an annotation are balanced, whichever shape it has
(`Shape.balanced_of_parameters?`).  At a separator the depth is zero, so what stands between two of
them is well nested as well (`nested_of_mem_split`): no closer is in excess anywhere, and none can
hide a separator.  `Shape.parameters_nested` has both directions. -/

namespace DocTypes

open Level

namespace Brackets

variable {t inner rest : Text} {opener closer : Char}

/-- What is read up to the end of the brackets stays inside them. -/
theorem staysAbove_of_untilClosed? {depth : Nat} {afterEquals : Bool} (hdepth : 1 ≤ depth)
    (h : untilClosed? depth afterEquals t = some (inner, closer, rest)) :
    StaysAbove 1 ⟨depth, afterEquals⟩ inner ∧
      Level.after ⟨depth, afterEquals⟩ inner = ⟨1, false⟩ := by
  fun_induction untilClosed? depth afterEquals t generalizing inner with
  | case1 => cases h
  | case2 depth afterEquals c cs hopener ih =>
    obtain ⟨tail, rfl, hfound⟩ := consInner_eq_some h
    have hstep : Level.step ⟨depth, afterEquals⟩ c = ⟨(depth + 1 : Nat), false⟩ :=
      step_opener hopener
    rw [StaysAbove, after_cons, hstep, and_assoc]
    exact ⟨by dsimp only; omega, ih (by omega) hfound⟩
  | case3 depth afterEquals c cs hopener hcloses hlow =>
    cases h
    obtain ⟨-, hequals⟩ := Bool.and_eq_true_iff.mp hcloses
    obtain rfl : depth = 1 := by omega
    obtain rfl : afterEquals = false := by simpa using hequals
    exact ⟨trivial, rfl⟩
  | case4 depth afterEquals c cs hopener hcloses hdeep ih =>
    obtain ⟨tail, rfl, hfound⟩ := consInner_eq_some h
    obtain ⟨hcloser, hequals⟩ := Bool.and_eq_true_iff.mp hcloses
    have hstep : Level.step ⟨depth, afterEquals⟩ c = ⟨(depth - 1 : Nat), false⟩ := by
      rw [step_closer hcloser (by simpa using hequals), Int.ofNat_sub hdepth]
      rfl
    rw [StaysAbove, after_cons, hstep, and_assoc]
    exact ⟨by dsimp only; omega, ih (by omega) hfound⟩
  | case5 depth afterEquals c cs hopener hcloses ih =>
    obtain ⟨tail, rfl, hfound⟩ := consInner_eq_some h
    have hchange : Parameters.depthChange afterEquals c = 0 :=
      depthChange_eq_zero (s := ⟨depth, afterEquals⟩) hopener hcloses
    have hstep : Level.step ⟨depth, afterEquals⟩ c = ⟨depth, c == '='⟩ := by
      rw [step, hchange, Int.add_zero]
    rw [StaysAbove, after_cons, hstep, and_assoc]
    exact ⟨by dsimp only; omega, ih hdepth hfound⟩

/-- **What brackets enclose is balanced.** -/
theorem balanced_of_enclosed? (h : enclosed? opener closer t = some inner) : Balanced inner := by
  cases t with
  | nil => cases h
  | cons c cs =>
    rw [enclosed?] at h
    split at h
    · split at h
      · next found hfound =>
        split at h
        · cases h
          obtain ⟨habove, hclosed⟩ := staysAbove_of_untilClosed? (Nat.le_refl 1) hfound
          have hraise : (outside.after inner).raise 1 = outside.raise 1 :=
            (after_raise outside 1 inner).symm.trans hclosed
          exact ⟨(staysAbove_raise (k := 1) (s := outside)).mp habove, raise_cancel hraise⟩
        · cases h
      · cases h
    · cases h

/-- Brackets enclose what is balanced and nothing else. -/
theorem enclosed?_brackets (hcloser : isCloser closer = true) (t : Text) :
    enclosed? opener closer (opener :: (t ++ [closer])) = if Balanced t then some t else none := by
  split
  · next h => exact enclosed?_of_balanced h hcloser
  · next h =>
    refine Option.eq_none_iff_forall_ne_some.mpr fun inner hinner => h ?_
    have htext := enclosed?_eq_some hinner
    have heq : t = inner := by simpa using htext
    exact heq ▸ balanced_of_enclosed? hinner

end Brackets

/-! ## Cutting what is well nested -/

/-- Blanks at the ends are neither brackets nor closed by any. -/
theorem WellNested.trim {t : Text} (h : WellNested t) : WellNested (Text.trim t) := by
  obtain ⟨before, after, htext, hbefore, hafter⟩ := Text.exists_append_trim_append t
  have hstart : outside.after before = outside :=
    (Balanced.of_unmarked fun c hc => unmarked_of_isBlank (hbefore c hc)).closed
  obtain ⟨habove, hdepth⟩ := wellNested_iff.mp h
  rw [← htext, staysAbove_append, staysAbove_append, hstart] at habove
  rw [← htext, after_append, after_append, hstart,
    depth_after_of_unmarked fun c hc => unmarked_of_isBlank (hafter c hc)] at hdepth
  exact wellNested_iff.mpr ⟨habove.1.2, hdepth⟩

namespace Parameters

variable {p item : Text}

/-- Every segment of a text that returns to the outside does so too: the first one from where the
text starts, and all others from the outside. -/
theorem returns_cut {depth : Int} {afterEquals : Bool} {t : Text}
    (h : Returns ⟨depth, afterEquals⟩ t) :
    Returns ⟨depth, afterEquals⟩ (cut depth afterEquals t).first ∧
      ∀ other ∈ (cut depth afterEquals t).others, Returns outside other.2 := by
  fun_induction cut depth afterEquals t with
  | case1 => exact ⟨h, by simp⟩
  | case2 afterEquals cs ih =>
    obtain ⟨hfirst, hothers⟩ := ih (returns_arrow.mp h).2
    exact ⟨⟨trivial, rfl⟩, List.forall_mem_cons.mpr ⟨hfirst, hothers⟩⟩
  | case3 depth afterEquals cs hdepth ih =>
    obtain ⟨habove, hrest⟩ := returns_arrow.mp h
    exact ⟨returns_arrow.mpr ⟨habove, (ih hrest).1⟩, (ih hrest).2⟩
  | case4 depth afterEquals c cs _ d hcomma ih =>
    obtain ⟨hd, rfl⟩ := hcomma
    have hzero : depth = 0 := by simpa [d, depthChange] using hd
    obtain ⟨-, hrest⟩ := returns_cons.mp h
    rw [step_comma, hzero] at hrest
    obtain ⟨hfirst, hothers⟩ := ih hrest
    exact ⟨⟨trivial, hzero⟩, List.forall_mem_cons.mpr ⟨hfirst, hothers⟩⟩
  | case5 depth afterEquals c cs harrow d hcomma ih =>
    obtain ⟨habove, hrest⟩ := returns_cons.mp h
    exact ⟨returns_cons.mpr ⟨habove, (ih hrest).1⟩, (ih hrest).2⟩

/-- **What is well nested is split into well-nested texts.** -/
theorem nested_of_mem_split (h : WellNested p) (hitem : item ∈ (split p).flatten) :
    WellNested item := by
  rw [flatten_split] at hitem
  obtain ⟨segment, hsegment, rfl⟩ := List.mem_map.mp hitem
  obtain ⟨hfirst, hothers⟩ := returns_cut (wellNested_iff.mp h)
  refine (wellNested_iff.mpr ?_ : WellNested segment).trim
  rcases List.mem_cons.mp hsegment with rfl | hmem
  · exact hfirst
  · obtain ⟨other, hother, rfl⟩ := List.mem_map.mp hmem
    exact hothers other hother

end Parameters

/-! ## Brackets and their heads -/

namespace Head

variable {head : Head} {t : Text}

/-- What recognizes the annotations of a head. -/
def recognizer : Head → Recognizer
  | generic _ _ _ => .generic
  | namedList | list => .orderedList
  | map => .shorthandHash
  | array => .shorthandArray

theorem getLast?_around : (head.around t).getLast? = some head.bracket.closer := by
  rw [around, ← List.cons_append, ← List.append_assoc, List.getLast?_concat]

theorem candidate_around (head : Head) (t : Text) :
    Recognizer.candidate (head.around t) = head.recognizer := by
  cases head with
  | generic name gap braces =>
    let head := generic name gap braces
    have hpath : Name.pathLength (head.around t) ≠ 0 :=
      Shape.pathLength_ne_zero name gap (isMark_of_isOpener head.bracket.isOpener_opener) _
    have hlast : (head.around t).getLast? ≠ some ')' := by
      rw [getLast?_around]
      cases braces <;> simp [head, bracket, Bracket.closer]
    rw [Recognizer.candidate_of_path hpath, Shape.isSimple_around, if_neg Bool.false_ne_true,
      if_neg hlast]
    rfl
  | namedList =>
    have hpath : Name.pathLength (namedList.around t) ≠ 0 :=
      Shape.pathLength_ne_zero arrayName .none (c := '(') rfl _
    have hlast : (namedList.around t).getLast? = some ')' := getLast?_around
    rw [Recognizer.candidate_of_path hpath, Shape.isSimple_around, if_neg Bool.false_ne_true,
      if_pos hlast]
    rfl
  | list | map | array => rfl

/-- What a head's recognizer reads is what the brackets enclose. -/
theorem read?_around (head : Head) (t : Text) :
    head.recognizer.read? (head.around t) =
      (Brackets.enclosed? head.bracket.opener head.bracket.closer
        (head.bracket.opener :: (t ++ [head.bracket.closer]))).map (head.shape ·) := by
  cases head with
  | generic name gap braces =>
    rw [recognizer, Recognizer.read?, Shape.genericParts?_around, Option.map_map]
    rfl
  | namedList | list | map | array => rfl

end Head

namespace Shape

variable {head : Head} {t p : Text}

/-- **Brackets are read as their head says if what is between them is balanced**, and have no shape
otherwise. -/
theorem of_around_eq (head : Head) (t : Text) :
    of (head.around t) = if Balanced t then head.shape t else unrecognized := by
  rw [of_eq_read?, head.candidate_around, head.read?_around,
    Brackets.enclosed?_brackets head.bracket.isCloser_closer]
  split <;> rfl

/-- What stands in brackets around a balanced text is read as its head says. -/
theorem of_around (h : Balanced t) : of (head.around t) = head.shape t := by
  rw [of_around_eq, if_pos h]

/-- An equals sign right before the closing bracket keeps it from closing. -/
theorem of_around_of_equals (hend : t.getLast? = some '=') : of (head.around t) = unrecognized := by
  rw [of_around_eq, if_neg fun h => (balanced_iff.mp h).2 hend]

theorem balanced_of_parameters? (h : (of t).parameters? = some p) : Balanced p := by
  obtain ⟨opener, closer, bracketed, -, henclosed⟩ := encloses_of_parameters? h
  exact Brackets.balanced_of_enclosed? henclosed

/-- **Brackets and separators are read with one idea of balance.**  The parameters of an annotation
are well nested, and so is each of them; and any well-nested text is read as the parameters of the
brackets around it, unless it ends in an equals sign.  Around everything else brackets are no
annotation. -/
theorem parameters_nested (t p : Text) :
    ((of t).parameters? = some p →
      WellNested p ∧ ∀ item ∈ (Parameters.split p).flatten, WellNested item) ∧
    ∀ head : Head, of (head.around p) =
      if WellNested p ∧ p.getLast? ≠ some '=' then head.shape p else unrecognized := by
  constructor
  · intro h
    have hnested := (balanced_of_parameters? h).wellNested
    exact ⟨hnested, fun item => Parameters.nested_of_mem_split hnested⟩
  · intro head
    simp only [of_around_eq, balanced_iff]

/-- The brackets inside need not be closed by their own kind.  An arrow is no closer, but an equals
sign at the end keeps all of it from being an annotation. -/
theorem parameters_nested_mixed :
    let t : Text := "Hash\x7bK => (V, W>\x7d"
    let p : Text := "K => (V, W>"
    (of t).parameters? = some p ∧ WellNested p ∧ of (Head.array.around p) = shorthandArray p ∧
      of (Head.array.around (p ++ "=")) = unrecognized := by
  intro t p
  have h : (of t).parameters? = some p := by decide
  have hnested := (parameters_nested t p).1 h
  refine ⟨h, hnested.1, ?_, ?_⟩
  · exact ((parameters_nested t p).2 .array).trans (if_pos ⟨hnested.1, by decide⟩)
  · exact ((parameters_nested t (p ++ "=")).2 .array).trans (if_neg fun h => h.2 (by decide))

end Shape
end DocTypes
