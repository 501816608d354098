import DocTypes.Proofs.Annotation.Parts
import DocTypes.Proofs.Annotation.RunningDepth

/-! # The separators of parameters

A separator of a text is a comma or an arrow in front of which the depth is zero (`Separates`).
Cutting finds all of them and nothing else: the places at which a cut is made are just the
separators (`at_cut_iff`), and as the segments with the separators between them make up the text,
there is only one such cut (`divides_iff`).  No bracket needs to match another one for this; where
the depth is negative there is no separator, and that is all.

`split_exact` says so of the groups: they hold the trimmed segments between the separators, each
its own group, or those before and those after the first arrow. -/

namespace DocTypes

open Level

namespace Parameters

/-- Whether a text has a separator, with `before` and `after` around it, outside of all brackets. -/
structure Separates (before : Text) (separator : Separator) (after t : Text) : Prop where
  text : before ++ separator.text ++ after = t
  outside : Brackets.depth before = 0

/-! ## The places of a cut -/

namespace Cut

/-- Whether a cut is made at a separator, with `before` and `after` around it. -/
def At (cut : Cut) (before : Text) (separator : Separator) (after : Text) : Prop :=
  ∃ left segment right, cut.others = left ++ (separator, segment) :: right ∧
    glue ⟨cut.first, left⟩ = before ∧ glue ⟨segment, right⟩ = after

/-- Whether a cut is made at all separators of a text and nowhere else. -/
structure Divides (cut : Cut) (t : Text) : Prop where
  glue : cut.glue = t
  at_iff : ∀ before separator after, cut.At before separator after ↔
    Separates before separator after t

variable {cut : Cut} {first segment before after : Text} {separator s : Separator}
  {others : List (Separator × Text)}

theorem not_at_nil : ¬ At ⟨first, []⟩ before separator after := by
  rintro ⟨left, segment, right, hothers, -⟩
  cases left <;> cases hothers

theorem glue_more (first segment : Text) (s : Separator) (others : List (Separator × Text)) :
    glue ⟨first, (s, segment) :: others⟩ = first ++ s.text ++ glue ⟨segment, others⟩ := by
  simp [glue]

/-- The places of a cut are the first one and those of the rest. -/
theorem at_more : At ⟨first, (s, segment) :: others⟩ before separator after ↔
    (before = first ∧ separator = s ∧ after = glue ⟨segment, others⟩) ∨
      ∃ rest, before = first ++ s.text ++ rest ∧ At ⟨segment, others⟩ rest separator after := by
  constructor
  · rintro ⟨left, found, right, hothers, rfl, rfl⟩
    cases left with
    | nil =>
      cases hothers
      exact Or.inl ⟨by simp [glue], rfl, rfl⟩
    | cons other left =>
      cases hothers
      exact Or.inr ⟨_, glue_more _ _ _ _, left, found, right, rfl, rfl, rfl⟩
  · rintro (⟨rfl, rfl, rfl⟩ | ⟨rest, rfl, left, found, right, hothers, rfl, rfl⟩)
    · exact ⟨[], segment, others, rfl, by simp [glue], rfl⟩
    · refine ⟨(s, segment) :: left, found, right, congrArg ((s, segment) :: ·) hothers, ?_, rfl⟩
      exact glue_more _ _ _ _

theorem at_separated : (cut.separated s).At before separator after ↔
    (before = [] ∧ separator = s ∧ after = cut.glue) ∨
      ∃ rest, before = s.text ++ rest ∧ cut.At rest separator after := at_more

theorem at_cons {c : Char} : (cut.cons c).At before separator after ↔
    ∃ rest, before = c :: rest ∧ cut.At rest separator after := by
  constructor
  · rintro ⟨left, segment, right, hothers, rfl, rfl⟩
    exact ⟨glue ⟨cut.first, left⟩, rfl, left, segment, right, hothers, rfl, rfl⟩
  · rintro ⟨rest, rfl, left, segment, right, hothers, rfl, rfl⟩
    exact ⟨left, segment, right, hothers, rfl, rfl⟩

theorem at_cons_cons {c d : Char} : ((cut.cons d).cons c).At before separator after ↔
    ∃ rest, before = c :: d :: rest ∧ cut.At rest separator after := by
  simp only [at_cons]
  constructor
  · rintro ⟨_, rfl, rest, rfl, h⟩
    exact ⟨rest, rfl, h⟩
  · rintro ⟨rest, rfl, h⟩
    exact ⟨d :: rest, rfl, rest, rfl, h⟩

end Cut

/-! ## Reading up to a separator -/

/-- Whether a text read from a level on has a separator, with `before` and `after` around it. -/
structure SeparatesFrom (level : Level) (before : Text) (separator : Separator) (after t : Text) :
    Prop where
  text : before ++ separator.text ++ after = t
  outside : (level.after before).depth = 0

section Reading

variable {level : Level} {before after cs t : Text} {separator : Separator} {c : Char}

theorem separates_iff :
    Separates before separator after t ↔ SeparatesFrom outside before separator after t := by
  constructor
  · exact fun h => ⟨h.text, by rw [depth_after_outside, h.outside]⟩
  · exact fun h => ⟨h.text, by rw [← depth_after_outside, h.outside]⟩

theorem Separator.text_append_eq_cons : separator.text ++ after = c :: cs ↔
    (separator = .comma ∧ c = ',' ∧ after = cs) ∨
      (separator = .arrow ∧ c = '=' ∧ cs = '>' :: after) := by
  cases separator with
  | comma => simp [Separator.text, eq_comm]
  | arrow => simp [Separator.text, eq_comm]

theorem Separator.text_ne_nil (separator : Separator) : separator.text ≠ [] := by
  cases separator <;> decide

theorem not_separatesFrom_nil : ¬ SeparatesFrom level before separator after [] := by
  rintro ⟨htext, -⟩
  simp [separator.text_ne_nil] at htext

/-- A separator is at the front of the text or behind its first character. -/
theorem separatesFrom_cons : SeparatesFrom level before separator after (c :: cs) ↔
    (before = [] ∧ level.depth = 0 ∧ separator.text ++ after = c :: cs) ∨
      ∃ rest, before = c :: rest ∧ SeparatesFrom (level.step c) rest separator after cs := by
  constructor
  · rintro ⟨htext, hdepth⟩
    cases before with
    | nil => exact Or.inl ⟨rfl, hdepth, htext⟩
    | cons d rest =>
      cases htext
      exact Or.inr ⟨rest, rfl, rfl, hdepth⟩
  · rintro (⟨rfl, hdepth, htext⟩ | ⟨rest, rfl, htext, hdepth⟩)
    · exact ⟨htext, hdepth⟩
    · exact ⟨congrArg (c :: ·) htext, hdepth⟩

theorem separatorAt_iff : SeparatorAt level c cs ↔ level.depth = 0 ∧
    ∃ (separator : Separator) (after : Text), separator.text ++ after = c :: cs := by
  have hdepth : c = ',' ∨ c = '=' → (level.step c).depth = level.depth := by
    rintro (rfl | rfl)
    · rw [step_comma]
    · rw [step_equals]
  constructor
  · rintro ⟨hzero, rfl | ⟨rfl, hhead⟩⟩
    · exact ⟨hdepth (Or.inl rfl) ▸ hzero, .comma, cs, rfl⟩
    · obtain ⟨after, rfl⟩ := List.head?_eq_some_iff.mp hhead
      exact ⟨hdepth (Or.inr rfl) ▸ hzero, .arrow, after, rfl⟩
  · rintro ⟨hzero, separator, after, htext⟩
    rcases Separator.text_append_eq_cons.mp htext with ⟨-, rfl, -⟩ | ⟨-, rfl, rfl⟩
    · exact ⟨hdepth (Or.inl rfl) ▸ hzero, Or.inl rfl⟩
    · exact ⟨hdepth (Or.inr rfl) ▸ hzero, Or.inr ⟨rfl, rfl⟩⟩

theorem unseparated_iff_from : Unseparated level t ↔
    ∀ before separator after, ¬ SeparatesFrom level before separator after t := by
  induction t generalizing level with
  | nil => exact iff_of_true trivial fun _ _ _ => not_separatesFrom_nil
  | cons c t ih =>
    rw [Unseparated, ih, separatorAt_iff]
    constructor
    · rintro ⟨hfront, hrest⟩ before separator after h
      rcases separatesFrom_cons.mp h with ⟨-, hdepth, htext⟩ | ⟨rest, -, h⟩
      · exact hfront ⟨hdepth, separator, after, htext⟩
      · exact hrest _ _ _ h
    · refine fun h => ⟨?_, fun before separator after hrest => ?_⟩
      · rintro ⟨hdepth, separator, after, htext⟩
        exact h [] separator after (separatesFrom_cons.mpr (Or.inl ⟨rfl, hdepth, htext⟩))
      · exact h (c :: before) separator after
          (separatesFrom_cons.mpr (Or.inr ⟨before, rfl, hrest⟩))

/-- A text that has no separator of its own is read without meeting one. -/
theorem unseparated_iff : Unseparated outside t ↔
    ∀ before separator after, ¬ Separates before separator after t := by
  simp only [unseparated_iff_from, separates_iff]

/-- Nothing but the arrow itself is a separator in it. -/
theorem separatesFrom_arrow : SeparatesFrom level before separator after ('=' :: '>' :: cs) ↔
    (before = [] ∧ level.depth = 0 ∧ separator = .arrow ∧ after = cs) ∨
      ∃ rest, before = '=' :: '>' :: rest ∧
        SeparatesFrom ⟨level.depth, false⟩ rest separator after cs := by
  have hfirst : separator.text ++ after = '=' :: '>' :: cs ↔ separator = .arrow ∧ after = cs := by
    rw [Separator.text_append_eq_cons]
    simp [eq_comm]
  have hsecond : separator.text ++ after ≠ '>' :: cs := by
    simp [Separator.text_append_eq_cons]
  rw [separatesFrom_cons, hfirst]
  refine or_congr_right ?_
  constructor
  · rintro ⟨rest, rfl, h⟩
    rcases separatesFrom_cons.mp h with ⟨-, -, htext⟩ | ⟨rest, rfl, hrest⟩
    · exact absurd htext hsecond
    · exact ⟨rest, rfl, step_arrow level ▸ hrest⟩
  · rintro ⟨rest, rfl, h⟩
    exact ⟨'>' :: rest, rfl, separatesFrom_cons.mpr (Or.inr ⟨rest, rfl, step_arrow level ▸ h⟩)⟩

/-- **A cut is made where there is a separator**, on whatever level the text is read. -/
theorem at_cut_iff (depth : Int) (afterEquals : Bool) (t before : Text) :
    (cut depth afterEquals t).At before separator after ↔
      SeparatesFrom ⟨depth, afterEquals⟩ before separator after t := by
  fun_induction cut depth afterEquals t generalizing before with
  | case1 => exact iff_of_false Cut.not_at_nil not_separatesFrom_nil
  | case2 afterEquals cs ih =>
    rw [Cut.at_separated, separatesFrom_arrow, glue_cut]
    simp [ih, Separator.text]
  | case3 depth afterEquals cs hdepth ih =>
    rw [Cut.at_cons_cons, separatesFrom_arrow]
    simp [ih, hdepth]
  | case4 depth afterEquals c cs _ d hcomma ih =>
    obtain ⟨hdepth, rfl⟩ := hcomma
    have hzero : depth = 0 := by simpa [d, depthChange] using hdepth
    rw [Cut.at_separated, separatesFrom_cons, step_comma, glue_cut, Separator.text_append_eq_cons]
    simp [ih, hzero, Separator.text]
  | case5 depth afterEquals c cs harrow d hcomma ih =>
    -- No separator begins here, so only those after the character are left.
    have hnone : ¬ (before = [] ∧ depth = 0 ∧ separator.text ++ after = c :: cs) := by
      rintro ⟨-, rfl, htext⟩
      rcases Separator.text_append_eq_cons.mp htext with ⟨-, rfl, -⟩ | ⟨-, rfl, rfl⟩
      · exact hcomma ⟨rfl, rfl⟩
      · exact harrow after rfl rfl
    rw [Cut.at_cons, separatesFrom_cons, or_iff_right hnone]
    simp only [ih]
    rfl

end Reading

/-! ## There is one such cut -/

namespace Cut

variable {cut other : Cut} {first segment before after : Text} {separator s : Separator}
  {others : List (Separator × Text)}

theorem prefix_of_at (h : cut.At before separator after) : cut.first <+: before := by
  obtain ⟨left, segment, right, -, rfl, -⟩ := h
  exact List.prefix_append _ _

theorem at_first (first segment : Text) (s : Separator) (others : List (Separator × Text)) :
    At ⟨first, (s, segment) :: others⟩ first s (glue ⟨segment, others⟩) :=
  at_more.mpr (Or.inl ⟨rfl, rfl, rfl⟩)

theorem at_rest : At ⟨first, (s, segment) :: others⟩ (first ++ s.text ++ before) separator after ↔
    At ⟨segment, others⟩ before separator after := by
  rw [at_more]
  constructor
  · rintro (⟨hfirst, -⟩ | ⟨rest, hrest, h⟩)
    · simp [s.text_ne_nil] at hfirst
    · exact List.append_cancel_left hrest ▸ h
  · exact fun h => Or.inr ⟨before, rfl, h⟩

/-- Two cuts of one text at the same places are the same. -/
theorem eq_of_at (hglue : cut.glue = other.glue)
    (h : ∀ before separator after, cut.At before separator after ↔
      other.At before separator after) : cut = other := by
  obtain ⟨first, others⟩ := cut
  obtain ⟨first', others'⟩ := other
  induction others generalizing first first' others' with
  | nil =>
    cases others' with
    | nil => simpa [glue] using hglue
    | cons next' others' => exact absurd ((h _ _ _).mpr (at_first _ _ _ _)) not_at_nil
  | cons next others ih =>
    obtain ⟨s, segment⟩ := next
    have hplace := (h _ _ _).mp (at_first first segment s others)
    cases others' with
    | nil => exact absurd hplace not_at_nil
    | cons next' others' =>
      obtain ⟨s', segment'⟩ := next'
      have hplace' := (h _ _ _).mpr (at_first first' segment' s' others')
      have hle : first.length ≤ first'.length := (prefix_of_at hplace').length_le
      obtain rfl : first' = first := (prefix_of_at hplace).eq_of_length_le hle
      rcases at_more.mp hplace with ⟨-, rfl, hrest⟩ | ⟨rest, hfirst, -⟩
      · have htail := ih segment segment' others' hrest fun before separator after =>
          (at_rest.symm.trans (h _ _ _)).trans at_rest
        rw [Cut.mk.injEq] at htail
        rw [htail.1, htail.2]
      · simp [s'.text_ne_nil] at hfirst

end Cut

theorem divides_cut (t : Text) : (cut 0 false t).Divides t :=
  ⟨glue_cut 0 false t, fun before _ _ => (at_cut_iff 0 false t before).trans separates_iff.symm⟩

/-- **Only cutting divides a text at its separators.** -/
theorem divides_iff {c : Cut} {t : Text} : c.Divides t ↔ c = cut 0 false t := by
  constructor
  · rintro ⟨hglue, hat⟩
    have h := divides_cut t
    refine Cut.eq_of_at (hglue.trans h.glue.symm) fun before separator after => ?_
    exact (hat before separator after).trans (h.at_iff before separator after).symm
  · rintro rfl
    exact divides_cut t

/-- A text has no separator of its own if cutting leaves it in one piece. -/
theorem undivided_iff {t : Text} :
    (∀ before separator after, ¬ Separates before separator after t) ↔
      (cut 0 false t).others = [] := by
  simp only [← (divides_cut t).at_iff]
  cases hcut : cut 0 false t with
  | mk first others =>
    cases others with
    | nil => exact iff_of_true (fun _ _ _ => Cut.not_at_nil) rfl
    | cons next others =>
      refine iff_of_false (fun h => ?_) (List.cons_ne_nil _ _)
      exact h _ _ _ (Cut.at_first first next.2 next.1 others)

/-! ## Groups -/

theorem ne_nil_of_mem_split {t : Text} {group : List Text} (h : group ∈ split t) : group ≠ [] := by
  obtain ⟨segments, hsegments, rfl⟩ := List.mem_map.mp h
  rw [ne_eq, List.map_eq_nil_iff]
  exact Cut.ne_nil_of_mem_groups hsegments

/-- **Splitting loses and invents nothing.**  There is one cut of a text at all its separators
outside of brackets, and the parameters are the trimmed segments of this cut, in order: each in a
group of its own when no separator is an arrow, and otherwise in two groups, those before the first
arrow and all others.  There is always a group, and no group is empty. -/
theorem split_exact (t : Text) : ∃ c : Cut, (∀ other : Cut, other.Divides t ↔ other = c) ∧
    (split t).flatten = c.segments.map Text.trim ∧
    ((∀ before after, ¬ Separates before .arrow after t) ∧
        split t = c.segments.map ([Text.trim ·]) ∨
      ∃ left value right, c.others = left ++ (.arrow, value) :: right ∧
        (∀ other ∈ left, other.1 ≠ .arrow) ∧
        split t = [(c.first :: left.map (·.2)).map Text.trim,
          (value :: right.map (·.2)).map Text.trim]) ∧
    split t ≠ [] ∧ ∀ group ∈ split t, group ≠ [] := by
  have hdivides := divides_cut t
  refine ⟨cut 0 false t, fun other => divides_iff, flatten_split t, ?_, split_ne_nil t,
    fun group => ne_nil_of_mem_split⟩
  rcases (cut 0 false t).commas_or_arrow with hcommas | ⟨left, value, right, hothers, hleft⟩
  · left
    refine ⟨fun before after hseparates => ?_, ?_⟩
    · obtain ⟨left, segment, right, hothers, -⟩ := (hdivides.at_iff _ _ _).mpr hseparates
      exact hcommas (.arrow, segment) (by simp [hothers]) rfl
    · rw [split, Cut.groups_commas hcommas, List.map_map]
      rfl
  · right
    refine ⟨left, value, right, hothers, hleft, ?_⟩
    rw [split, Cut.groups_arrow hothers hleft]
    rfl

/-- A closer in excess hides a separator, and an opener that makes up for it shows the next one. -/
example : split "A>, B<, C" = [[("A>, B<" : Text)], [("C" : Text)]] := by decide

end Parameters
end DocTypes
