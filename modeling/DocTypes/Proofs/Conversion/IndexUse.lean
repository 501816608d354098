import DocTypes.Proofs.Conversion.Entries

/-! # When a conversion asks the index

A conversion asks the index of names for just those relative names that do not resolve where they
are written (`asksIndex_lookUp`).  Which names it comes to is decided by the text, and a fault asks
nothing.  So whether it asks at all depends on which names resolve in the scope, and on nothing that
the index might answer (`asksIndex_convert_congr`); without a scope it never asks
(`not_asksIndex_convert_none`). -/

namespace DocTypes

/-- Whether the index was asked on the way to a value. -/
def Traced.AsksIndex {α : Type} (t : Traced α) : Prop := .indexUse ∈ t.notes

/-- Whether the same names resolve in two scopes, or there is none in both cases. -/
def Scope.ResolveAlike (scope scope' : Option Scope) : Prop :=
  scope.map (·.resolves) = scope'.map (·.resolves)

theorem Scope.ResolveAlike.isSome_eq {scope scope' : Option Scope} (h : ResolveAlike scope scope') :
    scope.isSome = scope'.isSome := by
  rw [← Option.isSome_map (f := (·.resolves)), h, Option.isSome_map]

namespace Conversion

variable {settings : Settings} {scope scope' : Option Scope} {inner inner' : Text → Traced TypeExpr}
variable {text name : Text}

/-! ## What asks nothing -/

theorem not_asksIndex_fail (shown : Text) (fault : Finding) :
    ¬(fail settings shown fault).AsksIndex := by
  simp [Traced.AsksIndex, fail]

theorem not_asksIndex_checkConstant (name : Text) : ¬(checkConstant name).AsksIndex := by
  rw [Traced.AsksIndex, checkConstant, Traced.notes_reportIf]
  split <;> simp

theorem not_asksIndex_convertDuckType (methods : List Text) :
    ¬(convertDuckType settings text methods).AsksIndex := by
  unfold convertDuckType
  split <;> simp [Traced.AsksIndex]

theorem not_asksIndex_hashOf (types : List TypeExpr) :
    ¬(hashOf settings text types).AsksIndex := by
  unfold hashOf
  split
  · exact List.not_mem_nil
  · exact not_asksIndex_fail _ _

theorem not_asksIndex_applyContainer (kind : Container) (types : List TypeExpr) :
    ¬(applyContainer settings text kind types).AsksIndex := by
  unfold applyContainer
  split
  · split <;> exact List.not_mem_nil
  · split <;> exact List.not_mem_nil
  · exact not_asksIndex_hashOf types

theorem Frame.not_asksIndex_opening (frame : Frame) : ¬frame.opening.AsksIndex := by
  cases frame with
  | named name => exact not_asksIndex_checkConstant name
  | _ => exact List.not_mem_nil

theorem Frame.not_asksIndex_close (frame : Frame) (types : List TypeExpr) :
    ¬(frame.close settings text types).AsksIndex := by
  cases frame with
  | container kind => exact not_asksIndex_applyContainer kind types
  | _ => exact List.not_mem_nil

/-! ## Names -/

/-- The index is asked for a relative name that does not resolve by itself. -/
theorem asksIndex_lookUp (scope : Scope) (name : Text) :
    (lookUp settings scope name).AsksIndex ↔
      scope.resolves name = false ∧ Name.isAbsolute name = false := by
  unfold lookUp
  by_cases hresolves : scope.resolves name = true
  · rw [if_pos hresolves]
    simp [Traced.AsksIndex, hresolves]
  · rw [if_neg hresolves]
    rw [Traced.AsksIndex, Traced.notes_bind, Traced.notes_askIndexIf, List.mem_append,
      or_iff_left]
    · cases habsolute : Name.isAbsolute name <;> simp [hresolves]
    · -- What follows the question only reports.
      cases scope.pathFor? name with
      | some path =>
        rw [Traced.notes_bind, Traced.notes_reportIf]
        split <;> simp
      | none => simp

/-- Without a scope no name is looked up. -/
theorem not_asksIndex_convertName_none (name : Text) :
    ¬(convertName settings none name).AsksIndex := by
  unfold convertName
  split
  · exact List.not_mem_nil
  · rw [Traced.AsksIndex, Traced.notes_bind, Traced.notes_pure, List.append_nil]
    exact not_asksIndex_checkConstant name

theorem asksIndex_convertName_congr (h : Scope.ResolveAlike scope scope') :
    (convertName settings scope name).AsksIndex ↔ (convertName settings scope' name).AsksIndex := by
  cases scope with
  | none =>
    cases scope' with
    | none => rfl
    | some scope' => cases h
  | some scope =>
    cases scope' with
    | none => cases h
    | some scope' =>
      have hresolves : scope.resolves = scope'.resolves := Option.some.inj h
      unfold convertName
      split
      · rfl
      · simp only [Traced.AsksIndex, Traced.notes_bind, List.mem_append]
        exact or_congr Iff.rfl (by
          rw [← Traced.AsksIndex, ← Traced.AsksIndex, asksIndex_lookUp, asksIndex_lookUp,
            hresolves])

/-! ## Texts -/

/-- What is read as brackets asks what their parts ask. -/
theorem Reading.asksIndex_convert_framed (frame : Frame) (parameters : Text) :
    ((framed frame parameters).convert settings scope inner text).AsksIndex ↔
      ∃ part ∈ (framed frame parameters).parts, (inner part).AsksIndex := by
  have hopening : .indexUse ∉ frame.opening.notes := frame.not_asksIndex_opening
  have hclose : .indexUse ∉
      (frame.close settings text (convertParameters inner parameters).value).notes :=
    frame.not_asksIndex_close _
  rw [Traced.AsksIndex, notes_convert_framed, List.mem_append, or_iff_right hopening,
    List.mem_append, or_iff_left hclose, notes_convertParameters, List.mem_flatMap]
  rfl

theorem Reading.asksIndex_convert_congr (reading : Reading) (h : Scope.ResolveAlike scope scope')
    (hinner : ∀ part, (inner part).AsksIndex ↔ (inner' part).AsksIndex) :
    (reading.convert settings scope inner text).AsksIndex ↔
      (reading.convert settings scope' inner' text).AsksIndex := by
  cases reading with
  | name n => exact asksIndex_convertName_congr h
  | framed frame parameters =>
    simp only [Reading.asksIndex_convert_framed, hinner]
  | _ => rfl

theorem asksIndex_convertText_congr (h : Scope.ResolveAlike scope scope') (allowance : Nat)
    (text : Text) :
    (convertText settings scope allowance text).AsksIndex ↔
      (convertText settings scope' allowance text).AsksIndex := by
  induction allowance generalizing text with
  | zero => rfl
  | succ allowance ih =>
    rw [convertText_succ, convertText_succ, h.isSome_eq]
    exact Reading.asksIndex_convert_congr _ h ih

theorem not_asksIndex_convertText_none (allowance : Nat) (text : Text) :
    ¬(convertText settings none allowance text).AsksIndex := by
  induction allowance generalizing text with
  | zero => exact not_asksIndex_fail _ _
  | succ allowance ih =>
    rw [convertText_succ]
    cases Reading.of (none : Option Scope).isSome (Text.trim text) with
    | name n =>
      show ¬(convertName settings none n).AsksIndex
      exact not_asksIndex_convertName_none n
    | duckType methods => exact not_asksIndex_convertDuckType methods
    | fault shown finding => exact not_asksIndex_fail shown finding
    | framed frame parameters =>
      rw [Reading.asksIndex_convert_framed]
      rintro ⟨part, -, hpart⟩
      exact ih part hpart
    | _ => exact List.not_mem_nil

/-! ## Annotations -/

theorem asksIndex_convertWith (one : Text → Traced TypeExpr) (tag : Annotation) :
    (convertWith one tag).AsksIndex ↔ ∃ text ∈ entries tag, (one text).AsksIndex := by
  rw [Traced.AsksIndex, notes_convertWith, List.mem_flatMap]
  rfl

/-- **Whether a conversion asks the index depends on which names resolve**, and not on what the index
answers. -/
theorem asksIndex_convert_congr (h : Scope.ResolveAlike scope scope') (tag : Annotation) :
    (convert settings scope tag).AsksIndex ↔ (convert settings scope' tag).AsksIndex := by
  simp only [convert, asksIndex_convertWith, convertOne, asksIndex_convertText_congr h]

/-- **Without a scope a conversion does not ask the index.** -/
theorem not_asksIndex_convert_none (tag : Annotation) : ¬(convert settings none tag).AsksIndex := by
  rw [convert, asksIndex_convertWith]
  rintro ⟨text, -, htext⟩
  exact not_asksIndex_convertText_none _ text htext

end Conversion
end DocTypes
