import DocTypes.Conversion.Basic

/-! # What a text is read as

A conversion decides from a trimmed text alone, and from whether there is a scope, what to do with
it.  `Reading.of` is that decision and `Reading.convert` what follows from it, so that every law of
conversions is proved by one case for each reading (`convertTrimmed_eq`).

All bracketed annotations have one reading, `framed`: they differ in the `Frame` around their
parameters, which reports something before the parameters are converted, or makes a type of them
afterwards.  The texts between the separators of the parameters are the only ones that are converted
further (`parts`), and nothing but their conversions matters (`Reading.convert_congr`).
-/
namespace DocTypes
namespace Conversion

/-- What stands around parameters. -/
inductive Frame where
  /-- The name of a container of the vocabulary, or the braces that stand for a map. -/
  | container (kind : Container)
  /-- Any other name. -/
  | named (name : Text)
  /-- Parentheses. -/
  | tuple
  /-- Angle brackets without a name. -/
  | array

namespace Frame

/-- What is reported before the parameters are converted. -/
def opening : Frame → Traced Unit
  | named name => checkConstant name
  | _ => pure ()

/-- The type over converted parameters. -/
def close (settings : Settings) (text : Text) : Frame → List TypeExpr → Traced TypeExpr
  | container kind, types => applyContainer settings text kind types
  | named name, types => pure (.generic (.raw name) types)
  | tuple, types => pure (.tuple types)
  | array, types => pure (.array (.anyOf types))

end Frame

/-- What a trimmed text is read as. -/
inductive Reading where
  | boolean
  | selfType
  | nilWord
  | name (name : Text)
  | duckType (methods : List Text)
  | literal (kind : LiteralKind)
  /-- No type; `shown` stands in its place. -/
  | fault (shown : Text) (finding : Finding)
  | framed (frame : Frame) (parameters : Text)

namespace Reading

/-- A name with parameters.  The words that are no names take none. -/
def ofGeneric (text name parameters : Text) : Reading :=
  match Container.named? name with
  | some kind => framed (.container kind) parameters
  | none =>
    if Keyword.isBoolean name || Keyword.isNil name || Keyword.isSelf name then
      fault name (.unsupportedGeneric name text)
    else framed (.named name) parameters

/-- The reading of a text by its shape. -/
def ofShape (text : Text) : Shape → Reading
  | .identifier n => name n
  | .duckType methods => duckType methods
  | .generic n parameters => ofGeneric text n parameters
  | .orderedList parameters => framed .tuple parameters
  | .shorthandHash parameters => framed (.container .hash) parameters
  | .shorthandArray parameters => framed .array parameters
  | .literal kind => literal kind
  | .unrecognized => fault text (.notAType text)

/-- The reading of a trimmed text. -/
def of (inScope : Bool) (text : Text) : Reading :=
  if Keyword.isBoolean text then boolean
  else if Keyword.isSelf text && inScope then selfType
  else if Keyword.isNil text then nilWord
  else ofShape text (Shape.of text)

/-- The type of a text with a given reading. -/
def convert (settings : Settings) (scope : Option Scope) (inner : Text → Traced TypeExpr)
    (text : Text) : Reading → Traced TypeExpr
  | boolean => pure .boolean
  | selfType => pure .selfType
  | nilWord => pure (.raw settings.dialect.nilName)
  | name n => convertName settings scope n
  | duckType methods => convertDuckType settings text methods
  | literal kind => pure (.raw kind.className)
  | fault shown finding => fail settings shown finding
  | framed frame parameters => do
    frame.opening
    frame.close settings text (← convertParameters inner parameters)

/-- The texts inside a text that are converted in their turn. -/
def parts : Reading → List Text
  | framed _ parameters => (Parameters.split parameters).flatten
  | _ => []

end Reading

variable {settings : Settings} {scope : Option Scope} {inner inner' : Text → Traced TypeExpr}
variable {text : Text}

/-! ## Converting is following the reading -/

theorem convertGeneric_eq (name parameters : Text) :
    convertGeneric settings inner text name parameters =
      (Reading.ofGeneric text name parameters).convert settings scope inner text := by
  unfold convertGeneric Reading.ofGeneric
  cases Container.named? name with
  | some kind => rfl
  | none =>
    dsimp only
    split <;> rfl

/-- **A conversion does what the reading of the text says.** -/
theorem convertTrimmed_eq :
    convertTrimmed settings scope inner text =
      (Reading.of scope.isSome text).convert settings scope inner text := by
  unfold convertTrimmed Reading.of
  split
  · rfl
  split
  · rfl
  split
  · rfl
  cases Shape.of text with
  | generic name parameters => exact convertGeneric_eq name parameters
  | _ => rfl

/-! ## Several texts -/

/-- What holds of the type of each text holds of the types of several. -/
theorem forall_value_all {p : TypeExpr → Prop} {texts : List Text}
    (h : ∀ part ∈ texts, p (inner part).value) :
    ∀ t ∈ (Traced.all (texts.map inner)).value, p t := by
  rw [Traced.value_all, List.map_map]
  exact List.forall_mem_map.mpr h

/-! ## Parameters -/

theorem value_convertParameters (parameters : Text) :
    (convertParameters inner parameters).value =
      (Parameters.split parameters).map fun group =>
        .anyOf (group.map fun part => (inner part).value) := by
  simp [convertParameters, Function.comp_def]

/-- What unions keep holds of parameters if it holds of the texts in them. -/
theorem forall_convertParameters {p : TypeExpr → Prop} {parameters : Text}
    (hunion : ∀ members, (∀ m ∈ members, p m) → p (.anyOf members))
    (h : ∀ part ∈ (Parameters.split parameters).flatten, p (inner part).value) :
    ∀ t ∈ (convertParameters inner parameters).value, p t := by
  rw [value_convertParameters]
  refine List.forall_mem_map.mpr fun group hgroup => hunion _ (List.forall_mem_map.mpr ?_)
  exact fun part hpart => h part (List.mem_flatten_of_mem hgroup hpart)

theorem notes_convertParameters (parameters : Text) :
    (convertParameters inner parameters).notes =
      (Parameters.split parameters).flatten.flatMap fun part => (inner part).notes := by
  rw [List.flatten_eq_flatMap, List.flatMap_assoc]
  simp [convertParameters, Function.comp_def, List.flatMap_map]

theorem convertParameters_congr {parameters : Text}
    (h : ∀ part ∈ (Parameters.split parameters).flatten, inner part = inner' part) :
    convertParameters inner parameters = convertParameters inner' parameters := by
  refine congrArg Traced.all (List.map_congr_left fun group hgroup => ?_)
  rw [List.map_congr_left fun part hpart => h part (List.mem_flatten_of_mem hgroup hpart)]

namespace Reading

/-- Two ways to convert that agree on the parts of a text give it the same conversion. -/
theorem convert_congr {reading : Reading} (h : ∀ part ∈ reading.parts, inner part = inner' part) :
    reading.convert settings scope inner text = reading.convert settings scope inner' text := by
  cases reading with
  | framed frame parameters => simp only [convert, convertParameters_congr h]
  | _ => rfl

@[simp] theorem value_convert_framed (frame : Frame) (parameters : Text) :
    ((framed frame parameters).convert settings scope inner text).value =
      (frame.close settings text (convertParameters inner parameters).value).value := rfl

@[simp] theorem notes_convert_framed (frame : Frame) (parameters : Text) :
    ((framed frame parameters).convert settings scope inner text).notes =
      frame.opening.notes ++ ((convertParameters inner parameters).notes ++
        (frame.close settings text (convertParameters inner parameters).value).notes) := rfl

end Reading

/-! ## Texts with an allowance -/

theorem convertText_zero :
    convertText settings scope 0 text =
      fail settings (Text.trim text) (.nestedTooDeep maxNesting) := rfl

theorem convertText_succ (allowance : Nat) :
    convertText settings scope (allowance + 1) text =
      (Reading.of scope.isSome (Text.trim text)).convert settings scope
        (convertText settings scope allowance) (Text.trim text) := convertTrimmed_eq

end Conversion
end DocTypes
