import DocTypes.Proofs.Conversion.NormalForm
import DocTypes.Proofs.UnionAlgebra

/-! # Several alternatives

Several texts are alternatives of one another.  All of them but `nil` are converted (`withoutNil`),
the result is any of their types, and a text `nil` makes it nilable; that the two truth values
together are converted by themselves makes no difference (`convert_many`).

From there on, only the alternatives count that each text offers (`offered`).  They are joined in the
order in which they are first seen, and so neither their order nor their repetition changes which
ones there are.  A text that is repeated offers nothing new, and what is joined is the same with or
without it (`distinct_flatMap_eraseDups`). -/

namespace DocTypes

namespace TypeExpr

variable {t : TypeExpr} {members : List TypeExpr}

/-! ## What a type offers -/

/-- Whether a type is made nilable. -/
def isNilable : TypeExpr → Bool
  | nilable _ => true
  | _ => false

/-- The alternatives of a type, when `nil` is left aside if it is made nilable. -/
def choices : TypeExpr → List TypeExpr
  | nilable inner => inner.alternatives
  | other => other.alternatives

theorem Regular.isNilable_eq (h : t.Regular) : t.isNilable = false := by cases h <;> rfl

theorem Regular.choices_eq (h : t.Regular) : t.choices = t.alternatives := by cases h <;> rfl

theorem Regular.choices_orNil (h : t.Regular) : t.orNil.choices = t.alternatives := by
  by_cases ht : t = .untyped
  · subst ht
    rfl
  · rw [h.orNil_eq ht]
    rfl

theorem Regular.isNilable_orNil (h : t.Regular) : t.orNil.isNilable = true ↔ t ≠ .untyped := by
  by_cases ht : t = .untyped
  · subst ht
    exact iff_of_false Bool.false_ne_true (not_not_intro rfl)
  · rw [h.orNil_eq ht]
    exact iff_of_true rfl ht

/-- Regular types that offer the same alternatives allow anything together. -/
theorem Regular.eq_untyped_of_perm {s : TypeExpr} (h : t.Regular) (hs : s = .untyped)
    (hperm : t.alternatives.Perm s.alternatives) : t = .untyped := by
  have halternatives : t.alternatives = [.untyped] := by
    rw [hs] at hperm
    exact List.perm_singleton.mp hperm
  rw [← h.tidy.ofAlternatives_alternatives, halternatives]
  rfl

end TypeExpr

/-! ## Several texts -/

namespace Conversion
open TypeExpr

variable {settings : Settings} {scope : Option Scope} {texts texts' : List Text}

/-- The texts that are not `nil`. -/
def withoutNil (texts : List Text) : List Text := texts.filter (!isNilEntry ·)

theorem withoutNil_eq_self_iff : withoutNil texts = texts ↔ texts.any isNilEntry = false := by
  simp [withoutNil, List.filter_eq_self]

theorem withoutNil_ne_self_iff : withoutNil texts ≠ texts ↔ texts.any isNilEntry = true := by
  rw [ne_eq, withoutNil_eq_self_iff, Bool.not_eq_false]

theorem withoutNil_withoutNil (texts : List Text) :
    withoutNil (withoutNil texts) = withoutNil texts := by
  simp [withoutNil]

/-- Any of the types of the texts that are not `nil`. -/
def joined (settings : Settings) (scope : Option Scope) (texts : List Text) : TypeExpr :=
  anyOf ((withoutNil texts).map fun text => (convertOne settings scope text).value)

theorem regular_joined : (joined settings scope texts).Regular :=
  regular_anyOf (List.forall_mem_map.mpr fun _ _ => regular_convertOne _)

theorem convertOne_of_isBoolean {text : Text} (h : Keyword.isBoolean (Text.trim text) = true) :
    convertOne settings scope text = pure .boolean := by
  rw [convertOne, convertText, convertTrimmed, if_pos h]

/-- The two truth values are texts like others. -/
theorem of_isBooleanPair (h : isBooleanPair texts = true) :
    withoutNil texts = texts ∧ texts.length = 2 ∧
      ∀ text ∈ texts, convertOne settings scope text = pure .boolean := by
  unfold isBooleanPair at h
  split at h
  · next a b =>
    have hboth : ∀ text ∈ [a, b], Text.trim text = "true" ∨ Text.trim text = "false" := by
      simp only [Bool.or_eq_true, Bool.and_eq_true, beq_iff_eq] at h
      rcases h with ⟨ha, hb⟩ | ⟨ha, hb⟩ <;> simp [ha, hb]
    refine ⟨List.filter_eq_self.mpr fun text htext => ?_, rfl, fun text htext => ?_⟩
    · rcases hboth text htext with heq | heq <;> rw [isNilEntry, heq] <;> rfl
    · refine convertOne_of_isBoolean ?_
      rcases hboth text htext with heq | heq <;> rw [heq] <;> rfl
  · cases h

/-- **Several texts are converted one by one**, joined, and made nilable if one of them is `nil`. -/
theorem convert_many (settings : Settings) (scope : Option Scope) (texts : List Text) :
    convert settings scope (.many texts) =
      ⟨if texts.any isNilEntry then (joined settings scope texts).orNil
        else joined settings scope texts,
        (withoutNil texts).flatMap fun text => (convertOne settings scope text).notes⟩ := by
  rw [convert, convertWith, convertMany]
  split
  · next hpair =>
    obtain ⟨hkept, hlength, hboolean⟩ := @of_isBooleanPair settings scope texts hpair
    rw [joined, withoutNil_eq_self_iff.mp hkept, hkept]
    match texts, hlength with
    | [a, b], _ =>
      simp only [List.map_cons, List.map_nil, List.flatMap_cons, List.flatMap_nil,
        hboolean a (by simp), hboolean b (by simp)]
      rfl
  · have hvalues : ((withoutNil texts).map (convertOne settings scope)).map (·.value) =
        (withoutNil texts).map fun text => (convertOne settings scope text).value := List.map_map
    have hnotes : ((withoutNil texts).map (convertOne settings scope)).flatMap (·.notes) =
        (withoutNil texts).flatMap fun text => (convertOne settings scope text).notes :=
      List.flatMap_map _ _ _
    rw [joined, ← hvalues, ← hnotes]
    exact congrArg (Traced.mk _) (List.append_nil _)

/-! ## Texts in another order, or repeated -/

/-- The alternatives that a text offers.  There are none in `nil`. -/
def offered (settings : Settings) (scope : Option Scope) (text : Text) : List TypeExpr :=
  if isNilEntry text then [] else (convertOne settings scope text).value.alternatives

theorem joined_eq (texts : List Text) :
    joined settings scope texts =
      ofAlternatives (distinct (texts.flatMap (offered settings scope))) := by
  have hoffered : ((withoutNil texts).map fun text => (convertOne settings scope text).value).flatMap
      alternatives = texts.flatMap (offered settings scope) := by
    rw [List.flatMap_map]
    induction texts with
    | nil => rfl
    | cons text texts ih =>
      rw [List.flatMap_cons, ← ih, offered, withoutNil, List.filter_cons]
      cases isNilEntry text <;> rfl
  rw [joined, anyOf_eq, hoffered]

/-- Texts that are repeated change nothing. -/
theorem joined_eq_of_eraseDups (h : texts.eraseDups = texts'.eraseDups) :
    joined settings scope texts = joined settings scope texts' := by
  rw [joined_eq, joined_eq, ← distinct_flatMap_eraseDups, h, distinct_flatMap_eraseDups]

/-- The same texts in any order, and any of them repeated, offer the same alternatives. -/
theorem perm_alternatives_joined (h : ∀ text, text ∈ texts ↔ text ∈ texts') :
    (joined settings scope texts).alternatives.Perm (joined settings scope texts').alternatives := by
  rw [joined_eq, joined_eq]
  refine perm_alternatives_ofAlternatives (perm_distinct_of_mem_iff fun a => ?_)
  simp only [List.mem_flatMap, h]

theorem any_isNilEntry_congr (h : ∀ text, text ∈ texts ↔ text ∈ texts') :
    texts.any isNilEntry = texts'.any isNilEntry := by
  rw [Bool.eq_iff_iff, List.any_eq_true, List.any_eq_true]
  simp only [h]

theorem choices_convert_many :
    (convert settings scope (.many texts)).value.choices =
      (joined settings scope texts).alternatives := by
  rw [convert_many]
  dsimp only
  split
  · exact regular_joined.choices_orNil
  · exact regular_joined.choices_eq

theorem isNilable_convert_many_iff :
    (convert settings scope (.many texts)).value.isNilable = true ↔
      texts.any isNilEntry = true ∧ joined settings scope texts ≠ .untyped := by
  rw [convert_many]
  dsimp only
  split
  · next hany => rw [regular_joined.isNilable_orNil, and_iff_right hany]
  · next hany => rw [regular_joined.isNilable_eq]; simp [hany]

/-- The same texts in any order, and any of them repeated, allow `nil` or do not. -/
theorem isNilable_convert_many_congr (h : ∀ text, text ∈ texts ↔ text ∈ texts') :
    (convert settings scope (.many texts)).value.isNilable =
      (convert settings scope (.many texts')).value.isNilable := by
  have hperm : (joined settings scope texts).alternatives.Perm
      (joined settings scope texts').alternatives := perm_alternatives_joined h
  have huntyped : joined settings scope texts = .untyped ↔ joined settings scope texts' = .untyped :=
    ⟨fun heq => regular_joined.eq_untyped_of_perm heq hperm.symm,
      fun heq => regular_joined.eq_untyped_of_perm heq hperm⟩
  rw [Bool.eq_iff_iff, isNilable_convert_many_iff, isNilable_convert_many_iff,
    any_isNilEntry_congr h]
  exact and_congr_right fun _ => not_congr huntyped

end Conversion
end DocTypes
