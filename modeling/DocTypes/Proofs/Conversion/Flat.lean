import DocTypes.Conversion.Basic
import DocTypes.Proofs.ErrorReplacement

/-! # Types of texts without brackets

The type of a name or of a duck type is `Flat`: it is `untyped`, a name, or something that takes
parameters over `untyped` only.  What laws of conversions have to say about such texts they say
about flat types, and need not look into how a name was found. -/

namespace DocTypes
namespace TypeExpr

/-- The types that names and duck types have. -/
inductive Flat : TypeExpr → Prop where
  | untyped : Flat untyped
  | raw (name : Text) : Flat (raw name)
  | container {kind : Container} {arguments : List TypeExpr}
      (complete : arguments.length = kind.arity.size) (free : ∀ a ∈ arguments, a = .untyped) :
      Flat (container kind arguments)
  | generic {name : Text} {arguments : List TypeExpr} (some : arguments ≠ [])
      (free : ∀ a ∈ arguments, a = .untyped) : Flat (generic (.raw name) arguments)

theorem Flat.regular {t : TypeExpr} (h : t.Flat) : t.Regular := by
  cases h with
  | untyped => exact .untyped
  | raw name => exact .raw name
  | container complete free => exact .container complete fun a ha => free a ha ▸ .untyped
  | generic some free => exact .generic some fun a ha => free a ha ▸ .untyped

theorem anyContainsError_of_untyped {l : List TypeExpr} (h : ∀ a ∈ l, a = .untyped) :
    anyContainsError l = false := by
  rw [anyContainsError_eq, List.any_eq_false]
  intro a ha
  rw [h a ha]
  exact Bool.false_ne_true

theorem Flat.containsError_eq {t : TypeExpr} (h : t.Flat) : t.containsError = false := by
  cases h with
  | untyped | raw => rfl
  | container _ free => exact anyContainsError_of_untyped free
  | generic _ free => exact anyContainsError_of_untyped free

end TypeExpr

namespace Conversion

variable {settings : Settings}

theorem flat_bareContainer {name : Text} {type : TypeExpr}
    (h : bareContainer? name = some type) : type.Flat := by
  unfold bareContainer? at h
  split at h
  · cases h
  · next kind _ =>
    split at h
    · next harity =>
      cases h
      exact .container (by rw [harity]; rfl) (by simp)
    · cases h
      exact .container rfl (by simp)
    · cases h

theorem flat_lookUp (scope : Scope) (name : Text) : (lookUp settings scope name).value.Flat := by
  unfold lookUp
  split
  · exact .raw name
  · split
    · exact .raw _
    · simp only [Traced.value_bind, Traced.value_pure]
      split
      · exact .untyped
      · exact .raw name

theorem flat_convertName (scope : Option Scope) (name : Text) :
    (convertName settings scope name).value.Flat := by
  unfold convertName
  split
  · next hbare => exact flat_bareContainer hbare
  · cases scope with
    | none => exact .raw name
    | some scope => exact flat_lookUp scope name

theorem flat_convertDuckType (text : Text) (methods : List Text) :
    (convertDuckType settings text methods).value.Flat := by
  unfold convertDuckType
  split
  · next interface _ =>
    show (interfaceType interface).Flat
    unfold interfaceType
    split
    · exact .raw _
    · next hparameters =>
      exact .generic (by simpa using hparameters) fun a => List.eq_of_mem_replicate
  · exact .untyped

end Conversion
end DocTypes
