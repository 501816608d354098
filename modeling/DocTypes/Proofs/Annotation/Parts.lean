import DocTypes.Annotation.Parameters
import DocTypes.Annotation.Shape
import DocTypes.Proofs.Text.Trim

/-! # The parts of an annotation

Where the parameters of an annotation come from: a bracketed annotation is something in front of a
bracket, and that bracket encloses the parameters up to the very end of the text
(`Shape.encloses_of_parameters?`).  The segments between separators make up the parameters, and
trimming takes away at most blanks.

So a parameter is never as long as the annotation it stands in, for two brackets are missing
(`Shape.length_lt_of_mem_split`).  This is the measure that makes reading an annotation terminate.
-/
namespace DocTypes

namespace Text

theorem dropLead_suffix (t lead : Text) : t.dropLead lead <:+ t := by
  unfold dropLead after?
  split
  · exact List.drop_suffix _ _
  · exact List.suffix_refl t

theorem dropLead_eq_self_or (t lead : Text) :
    t.dropLead lead = t ∨ t = lead ++ t.dropLead lead := by
  unfold dropLead after?
  split
  · next hstart =>
    right
    obtain ⟨rest, rfl⟩ := List.isPrefixOf_iff_prefix.mp hstart
    simp
  · exact Or.inl rfl

end Text

/-! ## Segments -/

namespace Parameters

/-- Whether or not there is an arrow, the groups hold all segments in order. -/
theorem Cut.flatten_groups (cut : Cut) : cut.groups.flatten = cut.segments := by
  unfold Cut.groups
  split
  · simp [Cut.keys, Cut.values, Cut.segments, ← List.map_append, List.takeWhile_append_dropWhile]
  · induction cut.segments with
    | nil => rfl
    | cons s segments ih => rw [List.map_cons, List.flatten_cons, ih]; rfl

/-- Either no separator of a cut is an arrow, or there is a first arrow. -/
theorem Cut.commas_or_arrow (cut : Cut) : (∀ other ∈ cut.others, other.1 ≠ .arrow) ∨
    ∃ left value right, cut.others = left ++ (.arrow, value) :: right ∧
      ∀ other ∈ left, other.1 ≠ .arrow := by
  cases hfind : cut.others.find? (·.1 == .arrow) with
  | none =>
    refine Or.inl fun other hother => ?_
    simpa using List.find?_eq_none.mp hfind other hother
  | some found =>
    obtain ⟨harrow, left, right, hothers, hleft⟩ := List.find?_eq_some_iff_append.mp hfind
    obtain ⟨s, value⟩ := found
    obtain rfl : s = .arrow := by simpa using harrow
    exact Or.inr ⟨left, value, right, hothers, fun other hother => by simpa using hleft other hother⟩

/-- Between commas every segment is a group. -/
theorem Cut.groups_commas {cut : Cut} (h : ∀ other ∈ cut.others, other.1 ≠ .arrow) :
    cut.groups = cut.segments.map ([·]) := by
  have hnone : cut.hasArrow = false := by simpa [hasArrow] using h
  rw [groups, hnone]
  rfl

/-- The first arrow has a group on each side. -/
theorem Cut.groups_arrow {cut : Cut} {left right : List (Separator × Text)} {value : Text}
    (hothers : cut.others = left ++ (.arrow, value) :: right)
    (hleft : ∀ other ∈ left, other.1 ≠ .arrow) :
    cut.groups = [cut.first :: left.map (·.2), value :: right.map (·.2)] := by
  have hcommas : ∀ other ∈ left, (other.1 != .arrow) = true := by simpa using hleft
  rw [groups, if_pos (by simp [hasArrow, hothers]), keys, values, hothers,
    List.takeWhile_append_of_pos hcommas, List.dropWhile_append_of_pos hcommas]
  simp

theorem Cut.groups_ne_nil (cut : Cut) : cut.groups ≠ [] := by
  unfold Cut.groups Cut.segments
  split <;> simp

theorem Cut.ne_nil_of_mem_groups {cut : Cut} {group : List Text} (h : group ∈ cut.groups) :
    group ≠ [] := by
  rcases cut.commas_or_arrow with hcommas | ⟨left, value, right, hothers, hleft⟩
  · rw [groups_commas hcommas] at h
    obtain ⟨segment, -, rfl⟩ := List.mem_map.mp h
    exact List.cons_ne_nil _ _
  · rw [groups_arrow hothers hleft] at h
    simp only [List.mem_cons, List.not_mem_nil, or_false] at h
    rcases h with rfl | rfl
    · exact List.cons_ne_nil _ _
    · exact List.cons_ne_nil _ _

theorem Cut.length_le_glue {cut : Cut} {segment : Text} (h : segment ∈ cut.segments) :
    segment.length ≤ cut.glue.length := by
  unfold Cut.segments at h
  rw [Cut.glue, List.length_append]
  rcases List.mem_cons.mp h with rfl | h
  · exact Nat.le_add_right _ _
  · obtain ⟨⟨s, segment⟩, hmem, rfl⟩ := List.mem_map.mp h
    obtain ⟨before, after, hothers⟩ := List.append_of_mem hmem
    simp only [hothers, List.flatMap_append, List.flatMap_cons, List.length_append]
    omega

/-- There is always a parameter, if only an empty one. -/
theorem split_ne_nil (t : Text) : split t ≠ [] := by
  simpa [split] using Cut.groups_ne_nil (cut 0 false t)

/-- The parameters in order are the trimmed segments, whatever groups they form. -/
theorem flatten_split (t : Text) : (split t).flatten = (cut 0 false t).segments.map Text.trim := by
  rw [split, ← List.map_flatten, Cut.flatten_groups]

theorem length_le_of_mem_split {t part : Text} (h : part ∈ (split t).flatten) :
    part.length ≤ t.length := by
  rw [flatten_split] at h
  obtain ⟨segment, hmem, rfl⟩ := List.mem_map.mp h
  have hle := Cut.length_le_glue hmem
  rw [glue_cut] at hle
  exact Nat.le_trans (Text.length_trim_le segment) hle

end Parameters

/-! ## Bracketed shapes -/

namespace Shape

/-- The parameters of a shape that has brackets. -/
def parameters? : Shape → Option Text
  | generic _ parameters => some parameters
  | orderedList parameters => some parameters
  | shorthandHash parameters => some parameters
  | shorthandArray parameters => some parameters
  | _ => none

/-- Some bracket at the end of a text encloses the parameters. -/
def Encloses (t parameters : Text) : Prop :=
  ∃ opener closer bracketed, bracketed <:+ t ∧
    Brackets.enclosed? opener closer bracketed = some parameters

/-- A generic is a path and what either pair of brackets encloses up to the end. -/
theorem genericParts?_eq_some {t name parameters : Text}
    (h : genericParts? t = some (name, parameters)) :
    Name.pathLength t ≠ 0 ∧ name = t.take (Name.pathLength t) ∧
      ∃ bracketed, bracketed <:+ t ∧ (Brackets.enclosed? '<' '>' bracketed = some parameters ∨
        Brackets.enclosed? '\x7b' '\x7d' bracketed = some parameters) := by
  have hsuffix : Text.trimStart (t.drop (Name.pathLength t)) <:+ t :=
    (Text.trimStart_suffix _).trans (List.drop_suffix _ _)
  unfold genericParts? at h
  dsimp only at h
  split at h
  · cases h
  · next hlength =>
    split at h
    · next inner hinner =>
      cases h
      exact ⟨hlength, rfl, _, hsuffix, Or.inl hinner⟩
    · obtain ⟨inner, hinner, heq⟩ := Option.map_eq_some_iff.mp h
      cases heq
      exact ⟨hlength, rfl, _, hsuffix, Or.inr hinner⟩

theorem encloses_of_genericParts? {t name parameters : Text}
    (h : genericParts? t = some (name, parameters)) : Encloses t parameters := by
  obtain ⟨-, -, bracketed, hsuffix, hangle | hbrace⟩ := genericParts?_eq_some h
  · exact ⟨_, _, _, hsuffix, hangle⟩
  · exact ⟨_, _, _, hsuffix, hbrace⟩

/-- **The parameters of an annotation stand in brackets at its end.** -/
theorem encloses_of_parameters? {t parameters : Text}
    (h : (of t).parameters? = some parameters) : Encloses t parameters := by
  unfold of at h
  split at h
  · cases h
  split at h
  · cases h
  split at h
  · next hgeneric =>
    cases h
    exact encloses_of_genericParts? hgeneric
  split at h
  · next hlist =>
    cases h
    exact ⟨_, _, _, Text.dropLead_suffix t _, hlist⟩
  split at h
  · next hmap =>
    cases h
    exact ⟨_, _, _, List.suffix_refl t, hmap⟩
  split at h
  · next harray =>
    cases h
    exact ⟨_, _, _, List.suffix_refl t, harray⟩
  split at h <;> cases h

theorem length_lt_of_encloses {t parameters : Text} (h : Encloses t parameters) :
    parameters.length < t.length := by
  obtain ⟨opener, closer, bracketed, hsuffix, henclosed⟩ := h
  have hle := hsuffix.length_le
  rw [Brackets.enclosed?_eq_some henclosed] at hle
  simp only [List.length_append, List.length_cons] at hle
  omega

/-- **A parameter is shorter than the annotation it stands in.** -/
theorem length_lt_of_mem_split {t parameters part : Text}
    (h : (of t).parameters? = some parameters)
    (hpart : part ∈ (Parameters.split parameters).flatten) : part.length < t.length :=
  Nat.lt_of_le_of_lt (Parameters.length_le_of_mem_split hpart)
    (length_lt_of_encloses (encloses_of_parameters? h))

end Shape
end DocTypes
