import DocTypes.Proofs.Conversion.NormalForm
import DocTypes.Proofs.ErrorReplacement

/-! # Conversions that replace their placeholders

Two conversions are compared whose settings differ in nothing but whether `untyped` takes the place
of placeholders.  The one that replaces them does what the other does and then drops the
placeholders from the result; both make the same notes (`Replaced`).

The relation goes through a conversion part by part.  A fault is reported before a placeholder is
made, in the same words, and no report shows a converted type.  The number of types that brackets
hold is the same on both sides, so both take the same branch of `applyContainer` and `hashOf`.  What
is built over the parts is a union, a nilable type or something that a replacement goes through
(`withoutErrors_anyOf`, `withoutErrors_orNil`).
-/
namespace DocTypes

/-- The settings with placeholders kept. -/
def Settings.keepingErrors (s : Settings) : Settings := { s with replaceErrors := false }

/-- The settings with placeholders replaced. -/
def Settings.replacingErrors (s : Settings) : Settings := { s with replaceErrors := true }

namespace Conversion
open TypeExpr

/-- One conversion gives what another gives, without its placeholders, and notes the same. -/
structure Replaced (kept replaced : Traced TypeExpr) : Prop where
  value : replaced.value = kept.value.withoutErrors
  notes : replaced.notes = kept.notes

/-- As `Replaced`, for several types at once. -/
structure AllReplaced (kept replaced : Traced (List TypeExpr)) : Prop where
  values : replaced.value = kept.value.map withoutErrors
  notes : replaced.notes = kept.notes

variable {settings : Settings} {scope : Option Scope}

/-- A conversion to a flat type is not affected. -/
theorem Replaced.of_flat {t : Traced TypeExpr} (h : t.value.Flat) : Replaced t t :=
  ⟨(h.regular.withoutErrors_eq h.containsError_eq).symm, rfl⟩

theorem replaced_fail (text : Text) (fault : Finding) :
    Replaced (fail settings.keepingErrors text fault)
      (fail settings.replacingErrors text fault) := ⟨rfl, rfl⟩

/-! ## Brackets -/

theorem replaced_hashOf (text : Text) (types : List TypeExpr) :
    Replaced (hashOf settings.keepingErrors text types)
      (hashOf settings.replacingErrors text (types.map withoutErrors)) := by
  match types with
  | [key, value] => exact ⟨rfl, rfl⟩
  | [] | [_] | _ :: _ :: _ :: _ => exact ⟨rfl, rfl⟩

theorem replaced_applyContainer (text : Text) (kind : Container) {types : List TypeExpr}
    (hsome : types ≠ []) (h : ∀ t ∈ types, t.Regular) :
    Replaced (applyContainer settings.keepingErrors text kind types)
      (applyContainer settings.replacingErrors text kind (types.map withoutErrors)) := by
  have h' : ∀ t ∈ types.map withoutErrors, t.Regular :=
    List.forall_mem_map.mpr fun t ht => regular_withoutErrors (h t ht)
  cases harity : kind.arity with
  | single =>
    rw [applyContainer_single harity hsome h, applyContainer_single harity (by simpa) h']
    refine ⟨?_, rfl⟩
    simp only [Traced.value_pure, withoutErrors, allWithoutErrors, withoutErrors_anyOf h]
  | singleton =>
    rw [applyContainer_singleton harity h, applyContainer_singleton harity h']
    have hclasses : ∀ m ∈ types.map classOf, m.Regular :=
      List.forall_mem_map.mpr fun t ht => regular_classOf (h t ht)
    refine ⟨?_, rfl⟩
    simp only [Traced.value_pure, withoutErrors_anyOf hclasses, List.map_map]
    rfl
  | keyValue =>
    rw [applyContainer_keyValue _ harity, applyContainer_keyValue _ harity]
    exact replaced_hashOf text types

variable (settings) in
theorem Frame.replaced_close (frame : Frame) (text : Text) {types : List TypeExpr}
    (hsome : types ≠ []) (h : ∀ t ∈ types, t.Regular) :
    Replaced (frame.close settings.keepingErrors text types)
      (frame.close settings.replacingErrors text (types.map withoutErrors)) := by
  cases frame with
  | container kind => exact replaced_applyContainer text kind hsome h
  | named name =>
    refine ⟨?_, rfl⟩
    simp only [close, Traced.value_pure, withoutErrors, allWithoutErrors_eq]
  | tuple =>
    refine ⟨?_, rfl⟩
    simp only [close, Traced.value_pure, withoutErrors, allWithoutErrors_eq]
  | array =>
    refine ⟨?_, rfl⟩
    simp only [close, Traced.value_pure, TypeExpr.array, withoutErrors, allWithoutErrors,
      withoutErrors_anyOf h]

/-- Several conversions in a row, each replaced by its counterpart. -/
theorem allReplaced_all {α : Type} {kept replaced : α → Traced TypeExpr} {l : List α}
    (h : ∀ a ∈ l, Replaced (kept a) (replaced a)) :
    AllReplaced (Traced.all (l.map kept)) (Traced.all (l.map replaced)) := by
  constructor
  · simp only [Traced.value_all, List.map_map]
    exact List.map_congr_left fun a ha => (h a ha).value
  · simp only [Traced.notes_all, List.flatMap_def, List.map_map]
    exact congrArg List.flatten (List.map_congr_left fun a ha => (h a ha).notes)

theorem allReplaced_convertParameters {inner inner' : Text → Traced TypeExpr} (parameters : Text)
    (hregular : ∀ part, (inner part).value.Regular)
    (h : ∀ part, Replaced (inner part) (inner' part)) :
    AllReplaced (convertParameters inner parameters) (convertParameters inner' parameters) := by
  refine allReplaced_all fun group _ => ?_
  obtain ⟨hvalues, hnotes⟩ := allReplaced_all (l := group) fun part _ => h part
  have hgroup : ∀ m ∈ (Traced.all (group.map inner)).value, m.Regular :=
    forall_value_all fun part _ => hregular part
  constructor
  · simp only [Traced.value_bind, Traced.value_pure, hvalues, withoutErrors_anyOf hgroup]
  · simp only [Traced.notes_bind, Traced.notes_pure, hnotes]

/-! ## Texts -/

/-- A text whose parts are replaced is replaced, whatever it is read as. -/
theorem Reading.replaced_convert {inner inner' : Text → Traced TypeExpr} (text : Text)
    (reading : Reading) (hregular : ∀ part, (inner part).value.Regular)
    (h : ∀ part, Replaced (inner part) (inner' part)) :
    Replaced (reading.convert settings.keepingErrors scope inner text)
      (reading.convert settings.replacingErrors scope inner' text) := by
  cases reading with
  | boolean | selfType | nilWord | literal => exact ⟨rfl, rfl⟩
  | name n => exact Replaced.of_flat (flat_convertName scope n)
  | duckType methods => exact Replaced.of_flat (flat_convertDuckType text methods)
  | fault shown finding => exact replaced_fail shown finding
  | framed frame parameters =>
    obtain ⟨hvalues, hnotes⟩ := allReplaced_convertParameters parameters hregular h
    obtain ⟨hvalue, hclose⟩ := frame.replaced_close settings text
      (convertParameters_ne_nil inner parameters)
      (regular_convertParameters fun part _ => hregular part)
    constructor
    · rw [value_convert_framed, value_convert_framed, hvalues, hvalue]
    · rw [notes_convert_framed, notes_convert_framed, hvalues, hnotes, hclose]

theorem replaced_convertText (allowance : Nat) (text : Text) :
    Replaced (convertText settings.keepingErrors scope allowance text)
      (convertText settings.replacingErrors scope allowance text) := by
  induction allowance generalizing text with
  | zero => exact replaced_fail _ _
  | succ allowance ih =>
    rw [convertText_succ, convertText_succ]
    exact Reading.replaced_convert _ _ (regular_convertText allowance) ih

theorem replaced_convertOne (text : Text) :
    Replaced (convertOne settings.keepingErrors scope text)
      (convertOne settings.replacingErrors scope text) := replaced_convertText _ text

/-! ## Annotations -/

theorem replaced_convertMany {one one' : Text → Traced TypeExpr} (texts : List Text)
    (hregular : ∀ text, (one text).value.Regular) (h : ∀ text, Replaced (one text) (one' text)) :
    Replaced (convertMany one texts) (convertMany one' texts) := by
  unfold convertMany
  split
  · exact ⟨rfl, rfl⟩
  · obtain ⟨hvalues, hnotes⟩ := allReplaced_all (l := texts.filter (!isNilEntry ·)) fun text _ => h text
    have hall : ∀ m ∈ (Traced.all ((texts.filter (!isNilEntry ·)).map one)).value, m.Regular :=
      forall_value_all fun text _ => hregular text
    constructor
    · simp only [Traced.value_bind, Traced.value_pure, hvalues]
      split
      · rw [withoutErrors_orNil (regular_anyOf hall), withoutErrors_anyOf hall]
      · rw [withoutErrors_anyOf hall]
    · simp only [Traced.notes_bind, Traced.notes_pure, hnotes]

theorem replaced_convertWith {one one' : Text → Traced TypeExpr} (tag : Annotation)
    (hregular : ∀ text, (one text).value.Regular) (h : ∀ text, Replaced (one text) (one' text)) :
    Replaced (convertWith one tag) (convertWith one' tag) := by
  cases tag with
  | absent => exact ⟨rfl, rfl⟩
  | one text => exact h text
  | many texts => exact replaced_convertMany texts hregular h

variable (settings scope) in
theorem replaced_convert (tag : Annotation) :
    Replaced (convert settings.keepingErrors scope tag)
      (convert settings.replacingErrors scope tag) :=
  replaced_convertWith tag regular_convertOne replaced_convertOne

end Conversion

/-- **Replacing placeholders is a substitution in the result.**  The type is what it would be with
its placeholders kept, with `untyped` in their place and its unions and its absence built again; so
it holds none, and what is reported is the same. -/
theorem Resolver.convert_replacingErrors (r : Resolver) (files : FileSystem) (settings : Settings)
    (entity? : Option EntityId) (tag : Annotation) :
    (r.convert files settings.replacingErrors entity? tag).value =
        (r.convert files settings.keepingErrors entity? tag).value.withoutErrors ∧
      (r.convert files settings.replacingErrors entity? tag).value.containsError = false ∧
      (r.convert files settings.replacingErrors entity? tag).diagnostics =
        (r.convert files settings.keepingErrors entity? tag).diagnostics := by
  obtain ⟨hvalue, hnotes⟩ :=
    Conversion.replaced_convert settings (r.scopeFor files entity?) tag
  simp only [Resolver.convert, value_answer, diagnostics_answer]
  rw [hvalue, hnotes]
  exact ⟨rfl, TypeExpr.containsError_withoutErrors _, rfl⟩

end DocTypes
