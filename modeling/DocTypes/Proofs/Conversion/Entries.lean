import DocTypes.Proofs.ErrorReplacement
import DocTypes.Proofs.Conversion.Reading

/-! # The entries of an annotation

An annotation is converted entry by entry (`entries`): the two truth values together and the entries
that say `nil` are dealt with by themselves, and every other text is an entry.  What an annotation
notes is what its entries note, in order, and it holds a placeholder exactly when one of them does,
for neither the union over them nor `nil` beside it loses one. -/

namespace DocTypes
namespace Conversion
open TypeExpr

/-- The texts of an annotation that are converted. -/
def entries : Annotation → List Text
  | .absent => []
  | .one text => [text]
  | .many texts => if isBooleanPair texts then [] else texts.filter (!isNilEntry ·)

variable {one one' : Text → Traced TypeExpr}

theorem convertWith_congr {tag : Annotation} (h : ∀ text ∈ entries tag, one text = one' text) :
    convertWith one tag = convertWith one' tag := by
  cases tag with
  | absent => rfl
  | one text => exact h text List.mem_cons_self
  | many texts =>
    simp only [convertWith, convertMany]
    split
    · rfl
    · next hpair =>
      rw [entries, if_neg hpair] at h
      rw [List.map_congr_left h]

theorem notes_convertWith (tag : Annotation) :
    (convertWith one tag).notes = (entries tag).flatMap fun text => (one text).notes := by
  cases tag with
  | absent => rfl
  | one text => simp [convertWith, entries]
  | many texts =>
    simp only [convertWith, convertMany, entries]
    split
    · rfl
    · simp [List.flatMap_map]

theorem containsError_convertWith (tag : Annotation) :
    (convertWith one tag).value.containsError =
      (entries tag).any fun text => (one text).value.containsError := by
  cases tag with
  | absent => rfl
  | one text => simp [convertWith, entries]
  | many texts =>
    simp only [convertWith, convertMany, entries]
    split
    · rfl
    · have hany : (anyOf (((texts.filter (!isNilEntry ·)).map one).map (·.value))).containsError =
          (texts.filter (!isNilEntry ·)).any fun text => (one text).value.containsError := by
        rw [containsError_anyOf, List.map_map, List.any_map]
        rfl
      simp only [Traced.value_bind, Traced.value_all, Traced.value_pure]
      split
      · rw [containsError_orNil, hany]
      · exact hany

end Conversion
end DocTypes
