import DocTypes.Proofs.Annotation.Parts
import DocTypes.Proofs.Conversion.Flat
import DocTypes.Proofs.Conversion.Reading
import DocTypes.Resolver.Conversion

/-! # Conversions give normal types

Whatever the annotation, the scope and the settings, the type of an annotation is in normal form
(`Resolver.convert_normal`).  Inside a text everything is regular: a reading keeps what holds of the
types of its parts (`Reading.regular_convert`), and an allowance of brackets that runs out leaves a
placeholder.  Only the entries of a list bring in `nil`, once and at the root.

That a list of parameters is never empty (`Parameters.split_ne_nil`) is what gives every generic an
argument and every tuple an element.
-/
namespace DocTypes

namespace Conversion
open TypeExpr

variable {settings : Settings} {scope : Option Scope}

/-! ## Parts -/

theorem regular_placeholder (text : Text) : (placeholder settings text).Regular := by
  unfold placeholder
  split
  · exact .untyped
  · exact .error text

theorem regular_fail (text : Text) (fault : Finding) :
    (fail settings text fault).value.Regular := regular_placeholder text

theorem regular_hash {key value : TypeExpr} (hkey : key.Regular) (hvalue : value.Regular) :
    (hash key value).Regular := by
  refine .container rfl fun a ha => ?_
  rcases List.mem_cons.mp ha with rfl | ha
  · exact hkey
  · exact List.mem_singleton.mp ha ▸ hvalue

theorem regular_classOf {inst : TypeExpr} (h : inst.Regular) : (classOf inst).Regular :=
  .container rfl fun _ ha => List.mem_singleton.mp ha ▸ h

/-! ## Brackets -/

theorem regular_hashOf {text : Text} {types : List TypeExpr} (h : ∀ t ∈ types, t.Regular) :
    (hashOf settings text types).value.Regular := by
  unfold hashOf
  split
  · exact regular_hash (h _ (by simp)) (h _ (by simp))
  · exact regular_fail _ _

/-- A container of one element type holds any of its parameters. -/
theorem applyContainer_single {text : Text} {kind : Container} {types : List TypeExpr}
    (harity : kind.arity = .single) (hsome : types ≠ []) (h : ∀ t ∈ types, t.Regular) :
    applyContainer settings text kind types = pure (.container kind [.anyOf types]) := by
  unfold applyContainer
  rw [harity]
  match types, hsome, h with
  | [only], _, h => rw [(h only List.mem_cons_self).tidy.anyOf_singleton]; rfl
  | _ :: _ :: _, _, _ => exact if_pos (by simp)

/-- The class object of several parameters is any of their class objects. -/
theorem applyContainer_singleton {text : Text} {kind : Container} {types : List TypeExpr}
    (harity : kind.arity = .singleton) (h : ∀ t ∈ types, t.Regular) :
    applyContainer settings text kind types = pure (.anyOf (types.map .classOf)) := by
  unfold applyContainer
  rw [harity]
  match types, h with
  | [], _ => rfl
  | [only], h =>
    rw [List.map_singleton, (regular_classOf (h only List.mem_cons_self)).tidy.anyOf_singleton]
  | _ :: _ :: _, _ => rfl

theorem applyContainer_keyValue {text : Text} {kind : Container} (types : List TypeExpr)
    (harity : kind.arity = .keyValue) :
    applyContainer settings text kind types = hashOf settings text types := by
  unfold applyContainer
  rw [harity]

theorem regular_applyContainer {text : Text} {kind : Container} {types : List TypeExpr}
    (hsome : types ≠ []) (h : ∀ t ∈ types, t.Regular) :
    (applyContainer settings text kind types).value.Regular := by
  cases harity : kind.arity with
  | single =>
    rw [applyContainer_single harity hsome h]
    refine .container (by rw [harity]; rfl) fun a ha => ?_
    exact List.mem_singleton.mp ha ▸ regular_anyOf h
  | singleton =>
    rw [applyContainer_singleton harity h]
    exact regular_anyOf (List.forall_mem_map.mpr fun t ht => regular_classOf (h t ht))
  | keyValue =>
    rw [applyContainer_keyValue types harity]
    exact regular_hashOf h

/-- Brackets around regular types make a regular type of them. -/
theorem Frame.regular_close {text : Text} (frame : Frame) {types : List TypeExpr}
    (hsome : types ≠ []) (h : ∀ t ∈ types, t.Regular) :
    (frame.close settings text types).value.Regular := by
  cases frame with
  | container kind => exact regular_applyContainer hsome h
  | named name => exact .generic hsome h
  | tuple => exact .tuple hsome h
  | array => exact .container rfl fun a ha => List.mem_singleton.mp ha ▸ regular_anyOf h

theorem convertParameters_ne_nil (inner : Text → Traced TypeExpr) (parameters : Text) :
    (convertParameters inner parameters).value ≠ [] := by
  rw [value_convertParameters]
  exact fun h => Parameters.split_ne_nil parameters (List.map_eq_nil_iff.mp h)

theorem regular_convertParameters {inner : Text → Traced TypeExpr} {parameters : Text}
    (h : ∀ part ∈ (Parameters.split parameters).flatten, (inner part).value.Regular) :
    ∀ t ∈ (convertParameters inner parameters).value, t.Regular :=
  forall_convertParameters (fun _ => regular_anyOf) h

/-! ## Texts -/

/-- A text whose parts are regular is regular, whatever it is read as. -/
theorem Reading.regular_convert {inner : Text → Traced TypeExpr} {text : Text}
    {reading : Reading} (h : ∀ part ∈ reading.parts, (inner part).value.Regular) :
    (reading.convert settings scope inner text).value.Regular := by
  cases reading with
  | boolean => exact .boolean
  | selfType => exact .selfType
  | nilWord => exact .raw _
  | name n => exact (flat_convertName scope n).regular
  | duckType methods => exact (flat_convertDuckType text methods).regular
  | literal kind => exact .raw _
  | fault shown finding => exact regular_fail shown finding
  | framed frame parameters =>
    exact frame.regular_close (convertParameters_ne_nil inner parameters)
      (regular_convertParameters h)

theorem regular_convertText (allowance : Nat) (text : Text) :
    (convertText settings scope allowance text).value.Regular := by
  induction allowance generalizing text with
  | zero => exact regular_fail _ _
  | succ allowance ih =>
    rw [convertText_succ]
    exact Reading.regular_convert fun part _ => ih part

theorem regular_convertOne (text : Text) : (convertOne settings scope text).value.Regular :=
  regular_convertText _ text

/-! ## Annotations -/

theorem normal_convertMany {one : Text → Traced TypeExpr} (h : ∀ text, (one text).value.Regular)
    (texts : List Text) : (convertMany one texts).value.Normal := by
  unfold convertMany
  split
  · exact .regular .boolean
  · have hany : (anyOf (((texts.filter (!isNilEntry ·)).map one).map (·.value))).Regular :=
      regular_anyOf (forall_value_all fun text _ => h text)
    simp only [Traced.value_bind, Traced.value_all, Traced.value_pure]
    split
    · exact normal_orNil hany
    · exact .regular hany

theorem normal_convertWith {one : Text → Traced TypeExpr} (h : ∀ text, (one text).value.Regular)
    (tag : Annotation) : (convertWith one tag).value.Normal := by
  cases tag with
  | absent => exact .regular .untyped
  | one text => exact .regular (h text)
  | many texts => exact normal_convertMany h texts

theorem normal_convert (tag : Annotation) : (convert settings scope tag).value.Normal :=
  normal_convertWith regular_convertOne tag

end Conversion

/-- **Every conversion gives a normal type**, whatever the resolver knows and whether or not the
annotation belongs to an entity. -/
theorem Resolver.convert_normal (r : Resolver) (files : FileSystem) (settings : Settings)
    (entity? : Option EntityId) (tag : Annotation) :
    (r.convert files settings entity? tag).value.Normal := Conversion.normal_convert tag

end DocTypes
