import DocTypes.Proofs.Annotation.Head
import DocTypes.Proofs.Annotation.Separators

/-! # Parameters joined to a list

What is split can be put together first.  A parameter (`Parameter`) is a trimmed text that is well
nested and has no separator of its own; it may be empty, and it may end in an equals sign.  Such
parameters, with blanks around each, are joined by commas, and two such lists by an arrow; splitting
gives the parameters back (`split_joined`).

Nothing comes about where the texts meet.  What follows a parameter is a blank, a separator or the
end, and none of these closes a bracket or makes an arrow of an equals sign before it. -/

namespace DocTypes

open Level

namespace Parameters

/-! ## Cutting behind a well-nested text -/

section Cutting

variable {t rest : Text}

/-- Only a closer at the front of a text asks for the character before it. -/
theorem cut_congr (h : ∀ c ∈ t.head?, Brackets.isCloser c = false) (depth : Int)
    (afterEquals afterEquals' : Bool) : cut depth afterEquals t = cut depth afterEquals' t := by
  cases t with
  | nil => rfl
  | cons c t =>
    have hcloser := h c rfl
    have hopen : ¬ (c = '>' ∨ c = '\x7d' ∨ c = ')') := fun hc => by
      rw [isCloser_iff.mpr hc] at hcloser
      cases hcloser
    have hchange : depthChange afterEquals c = depthChange afterEquals' c := by
      simp only [depthChange, hopen, false_and]
    by_cases harrow : ∃ cs, c = '=' ∧ t = '>' :: cs
    · obtain ⟨cs, rfl, rfl⟩ := harrow
      rfl
    · have hne : ∀ cs, c = '=' → t = '>' :: cs → False := fun cs hc ht => harrow ⟨cs, hc, ht⟩
      rw [cut, cut, hchange]
      · exact hne
      · exact hne

/-- A well-nested text without a separator of its own belongs to the first segment, if no closer
comes after it. -/
theorem cut_wellNested (h : WellNested t) (hseparated : Unseparated outside t)
    (hrest : ∀ c ∈ rest.head?, Brackets.isCloser c = false) :
    cut 0 false (t ++ rest) = ⟨t ++ (cut 0 false rest).first, (cut 0 false rest).others⟩ := by
  have hapart : Apart (outside.after t) rest := by
    intro _ hhead
    exact absurd (hrest '>' hhead) (by decide)
  have hcut := cut_append hseparated rest hapart
  rw [(wellNested_iff.mp h).depth, cut_congr hrest 0 _ false] at hcut
  exact hcut

end Cutting

/-! ## Parameters -/

/-- A parameter as it may stand in a list. -/
structure Parameter where
  text : Text
  trimmed : Text.trim text = text
  nested : WellNested text
  undivided : ∀ before separator after, ¬ Separates before separator after text

/-- A parameter with blanks around it. -/
structure PaddedParameter where
  before : Blanks
  parameter : Parameter
  after : Blanks

namespace PaddedParameter

/-- The parameter and the blanks as they are written. -/
def text (p : PaddedParameter) : Text := p.before.text ++ p.parameter.text ++ p.after.text

theorem after_before (p : PaddedParameter) : outside.after p.before.text = outside :=
  (Balanced.of_unmarked p.before.unmarked).closed

theorem returns_text (p : PaddedParameter) : Returns outside p.text := by
  have hparameter : Returns (outside.after p.before.text) p.parameter.text := by
    rw [p.after_before]
    exact wellNested_iff.mp p.parameter.nested
  have hinner := (Returns.of_unmarked rfl p.before.unmarked).append hparameter
  exact hinner.append (.of_unmarked hinner.depth p.after.unmarked)

theorem unseparated_text (p : PaddedParameter) : Unseparated outside p.text := by
  have hparameter : Unseparated (outside.after p.before.text) p.parameter.text := by
    rw [p.after_before]
    exact unseparated_iff.mpr p.parameter.undivided
  have hbefore : Apart (outside.after p.before.text) p.parameter.text := by
    rw [p.after_before]
    exact apart_of_not rfl
  have hafter : Apart (outside.after (p.before.text ++ p.parameter.text)) p.after.text := by
    intro _ hhead
    exact absurd (p.after.unmarked '>' (List.mem_of_mem_head? hhead)) (by decide)
  exact unseparated_append
    (unseparated_append (unseparated_of_unmarked p.before.unmarked) hbefore hparameter)
    hafter (unseparated_of_unmarked p.after.unmarked)

theorem cut_text (p : PaddedParameter) {rest : Text}
    (hrest : ∀ c ∈ rest.head?, Brackets.isCloser c = false) :
    cut 0 false (p.text ++ rest) = ⟨p.text ++ (cut 0 false rest).first, (cut 0 false rest).others⟩ :=
  cut_wellNested (wellNested_iff.mpr p.returns_text) p.unseparated_text hrest

theorem trim_text (p : PaddedParameter) : Text.trim p.text = p.parameter.text :=
  (Text.trim_padded p.before.isBlank_of_mem p.after.isBlank_of_mem).trans p.parameter.trimmed

end PaddedParameter

/-- Parameters with commas between them. -/
def commaJoined (ps : List PaddedParameter) : Text := [','].intercalate (ps.map (·.text))

/-- Parameters on both sides of an arrow. -/
def arrowJoined (keys values : List PaddedParameter) : Text :=
  commaJoined keys ++ "=>" ++ commaJoined values

/-! ## Splitting what was joined -/

theorem commaJoined_singleton (p : PaddedParameter) : commaJoined [p] = p.text := by
  simp [commaJoined]

theorem commaJoined_cons (p : PaddedParameter) {ps : List PaddedParameter} (hps : ps ≠ []) :
    commaJoined (p :: ps) = p.text ++ ',' :: commaJoined ps := by
  obtain ⟨q, ps, rfl⟩ := List.exists_cons_of_ne_nil hps
  simp [commaJoined, List.intercalate_cons_cons]

/-- A list of parameters is cut at its commas, if a separator or nothing follows. -/
theorem cut_commaJoined (p : PaddedParameter) (ps : List PaddedParameter) (rest : Text)
    (hrest : ∀ c ∈ rest.head?, Brackets.isCloser c = false)
    (hfirst : (cut 0 false rest).first = []) :
    cut 0 false (commaJoined (p :: ps) ++ rest) =
      ⟨p.text, ps.map (fun q => (.comma, q.text)) ++ (cut 0 false rest).others⟩ := by
  induction ps generalizing p with
  | nil =>
    rw [commaJoined_singleton, p.cut_text hrest, hfirst, List.append_nil]
    rfl
  | cons q ps ih =>
    have hcomma : cut 0 false (',' :: (commaJoined (q :: ps) ++ rest)) =
        (cut 0 false (commaJoined (q :: ps) ++ rest)).separated .comma := rfl
    rw [commaJoined_cons p (List.cons_ne_nil q ps), List.append_assoc, List.cons_append,
      p.cut_text (fun c hc => by cases hc; rfl), hcomma, ih q]
    simp [Cut.separated]

theorem split_commaJoined {ps : List PaddedParameter} (hps : ps ≠ []) :
    split (commaJoined ps) = ps.map ([·.parameter.text]) := by
  obtain ⟨p, ps, rfl⟩ := List.exists_cons_of_ne_nil hps
  have hcut := cut_commaJoined p ps [] (by simp) rfl
  rw [List.append_nil] at hcut
  rw [split, hcut, Cut.groups_commas (by simp [cut])]
  simp [Cut.segments, cut, PaddedParameter.trim_text]

theorem split_arrowJoined {ks vs : List PaddedParameter} (hks : ks ≠ []) (hvs : vs ≠ []) :
    split (arrowJoined ks vs) = [ks.map (·.parameter.text), vs.map (·.parameter.text)] := by
  obtain ⟨k, ks, rfl⟩ := List.exists_cons_of_ne_nil hks
  obtain ⟨v, vs, rfl⟩ := List.exists_cons_of_ne_nil hvs
  have hvalues := cut_commaJoined v vs [] (by simp) rfl
  have harrow : cut 0 false ('=' :: '>' :: commaJoined (v :: vs)) =
      ⟨[], (.arrow, v.text) :: vs.map (fun q => (.comma, q.text))⟩ := by
    rw [List.append_nil] at hvalues
    rw [cut, if_pos rfl, hvalues]
    simp [Cut.separated, cut]
  have hcut := cut_commaJoined k ks ('=' :: '>' :: commaJoined (v :: vs))
    (fun c hc => by cases hc; rfl) (by rw [harrow])
  have htext : arrowJoined (k :: ks) (v :: vs) =
      commaJoined (k :: ks) ++ '=' :: '>' :: commaJoined (v :: vs) := by simp [arrowJoined]
  rw [split, htext, hcut, harrow, Cut.groups_arrow rfl (by simp)]
  simp [PaddedParameter.trim_text]

/-- **Splitting undoes joining.**  One or more parameters with commas between them are split into
just these parameters, and two such lists with an arrow between them into these two groups. -/
theorem split_joined {ks vs : List PaddedParameter} (hks : ks ≠ []) (hvs : vs ≠ []) :
    split (commaJoined ks) = ks.map ([·.parameter.text]) ∧
      split (arrowJoined ks vs) = [ks.map (·.parameter.text), vs.map (·.parameter.text)] :=
  ⟨split_commaJoined hks, split_arrowJoined hks hvs⟩

/-- Parameters may be nested or empty, and they may end in an equals sign, even right in front of
an arrow. -/
theorem split_joined_nested :
    let spaces : Blanks := ⟨"  ", rfl⟩
    let map : Parameter := ⟨"Hash\x7bK => V\x7d", by decide, by decide, undivided_iff.mpr rfl⟩
    let empty : Parameter := ⟨"", by decide, by decide, undivided_iff.mpr rfl⟩
    let setter : Parameter := ⟨"#value=", by decide, by decide, undivided_iff.mpr rfl⟩
    let pair : Parameter := ⟨"A<B, C>", by decide, by decide, undivided_iff.mpr rfl⟩
    let ks : List PaddedParameter :=
      [⟨spaces, map, spaces⟩, ⟨.none, empty, .none⟩, ⟨.none, setter, .none⟩]
    let vs : List PaddedParameter := [⟨.none, pair, spaces⟩, ⟨spaces, setter, .none⟩]
    ks ≠ [] ∧ vs ≠ [] ∧
      arrowJoined ks vs = "  Hash\x7bK => V\x7d  ,,#value==>A<B, C>  ,  #value=" ∧
      split (commaJoined ks) = [[map.text], [empty.text], [setter.text]] ∧
      split (arrowJoined ks vs) =
        [[map.text, empty.text, setter.text], [pair.text, setter.text]] := by
  intro spaces map empty setter pair ks vs
  have hks : ks ≠ [] := List.cons_ne_nil _ _
  have hvs : vs ≠ [] := List.cons_ne_nil _ _
  exact ⟨hks, hvs, rfl, split_joined hks hvs⟩

end Parameters
end DocTypes
