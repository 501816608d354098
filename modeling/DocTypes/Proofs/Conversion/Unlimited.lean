import DocTypes.Proofs.Annotation.Parts
import DocTypes.Proofs.Conversion.Reading

/-! # Conversions without an allowance

`convertText` looks into brackets as far as an allowance goes.  Here is the same conversion without
one (`convertUnlimited`).  It comes to an end on every text, because each part that it converts in
its turn is shorter than the text around it (`Reading.length_lt_of_mem_parts`); the definition
guards its recursion by that fact, and `convertUnlimited_eq` says that the guard never fails.

`Reaches scope text depth` says that converting a text comes to some text `depth` levels of brackets
further in.  An allowance above all of these depths changes nothing (`convertText_eq_unlimited`).
-/
namespace DocTypes
namespace Conversion

/-! ## Parts are shorter -/

namespace Reading

theorem framed_of_shape {text : Text} {shape : Shape} {frame : Frame} {parameters : Text}
    (h : ofShape text shape = framed frame parameters) : shape.parameters? = some parameters := by
  cases shape with
  | generic name p =>
    simp only [ofShape, ofGeneric] at h
    split at h
    · cases h
      rfl
    · split at h <;> cases h
      rfl
  | orderedList | shorthandHash | shorthandArray => cases h; rfl
  | _ => cases h

theorem framed_of {inScope : Bool} {text : Text} {frame : Frame} {parameters : Text}
    (h : of inScope text = framed frame parameters) :
    (Shape.of text).parameters? = some parameters := by
  unfold of at h
  split at h
  · cases h
  split at h
  · cases h
  split at h
  · cases h
  exact framed_of_shape h

theorem length_lt_of_mem_parts_of {inScope : Bool} {text part : Text}
    (h : part ∈ (of inScope text).parts) : part.length < text.length := by
  cases hreading : of inScope text with
  | framed frame parameters =>
    rw [hreading] at h
    exact Shape.length_lt_of_mem_split (framed_of hreading) h
  | _ => simp [hreading, parts] at h

/-- **What is converted inside a text is shorter than the text.** -/
theorem length_lt_of_mem_parts {inScope : Bool} {text part : Text}
    (h : part ∈ (of inScope (Text.trim text)).parts) : part.length < text.length :=
  Nat.lt_of_lt_of_le (length_lt_of_mem_parts_of h) (Text.length_trim_le text)

end Reading

/-! ## The conversion -/

variable (settings : Settings) (scope : Option Scope)

/-- The type of a text, however deep its brackets are nested. -/
def convertUnlimited (text : Text) : Traced TypeExpr :=
  convertTrimmed settings scope
    (fun part => if part.length < text.length then convertUnlimited part else pure .untyped)
    (Text.trim text)
termination_by text.length

/-- **Every part is converted in its turn**, with nothing left out. -/
theorem convertUnlimited_eq (text : Text) :
    convertUnlimited settings scope text =
      convertTrimmed settings scope (convertUnlimited settings scope) (Text.trim text) := by
  rw [convertUnlimited, convertTrimmed_eq, convertTrimmed_eq]
  exact Reading.convert_congr fun part hpart => if_pos (Reading.length_lt_of_mem_parts hpart)

/-! ## How deep a conversion goes -/

/-- Converting a text comes to a text that many levels of brackets further in. -/
inductive Reaches : Text → Nat → Prop where
  | here (text : Text) : Reaches text 0
  | inside {text part : Text} {depth : Nat}
      (mem : part ∈ (Reading.of scope.isSome (Text.trim text)).parts) (h : Reaches part depth) :
      Reaches text (depth + 1)

variable {settings scope}

/-- An allowance above everything that a conversion comes to is as good as none. -/
theorem convertText_eq_unlimited {allowance : Nat} {text : Text}
    (h : ∀ depth, Reaches scope text depth → depth < allowance) :
    convertText settings scope allowance text = convertUnlimited settings scope text := by
  induction allowance generalizing text with
  | zero => exact absurd (h 0 (.here text)) (Nat.not_lt_zero 0)
  | succ allowance ih =>
    rw [convertText, convertUnlimited_eq, convertTrimmed_eq, convertTrimmed_eq]
    refine Reading.convert_congr fun part hpart => ih fun depth hdepth => ?_
    exact Nat.lt_of_succ_lt_succ (h (depth + 1) (.inside hpart hdepth))

end Conversion
end DocTypes
