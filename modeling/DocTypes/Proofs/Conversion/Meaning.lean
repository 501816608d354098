import DocTypes.Proofs.Annotation.Expression
import DocTypes.Proofs.Conversion.NormalForm

/-! # What an expression means

An expression of the grammar has a meaning that is told from its structure alone: a leaf means what
it means by itself, a list the meanings of its members, an arrow any of what is on either side of it,
and a head says what to make of them (`Head.over`).  No depth of brackets is counted for that and no
text is cut.

Main statement: converting the text of an expression gives its meaning, whatever blanks are around
it and inside of it, if it does not nest deeper than allowed (`Resolver.convert_expression`).  The
proof goes down the expression.  At a head the text is read as the head says (`Reading.of_around`) and
split into just the texts below it (`ParameterList.split_text`), and at a leaf nothing depends on the
allowance of brackets that is left (`convertText_leaf`).
-/
namespace DocTypes

/-! ## Meanings -/

section Meaning

variable (settings : Settings)

namespace Conversion

/-- A map of a key and a value.  A placeholder that shows them stands for any other number of
types. -/
def mapOver : List TypeExpr → TypeExpr
  | [key, value] => .hash key value
  | types => placeholder settings (types.flatMap (·.describe))

/-- A container of the vocabulary. -/
def containerOver (types : List TypeExpr) : Container → TypeExpr
  | .hash => mapOver settings types
  | .classObject => .anyOf (types.map .classOf)
  | kind => .container kind [.anyOf types]

/-- A name with parameters. -/
def nameOver (name : Text) (types : List TypeExpr) : TypeExpr :=
  match Container.named? name with
  | some kind => containerOver settings types kind
  | none =>
    if Keyword.isBoolean name || Keyword.isNil name || Keyword.isSelf name then
      placeholder settings name
    else .generic (.raw name) types

end Conversion

open Conversion

/-- What a head makes of the meanings of its parameters. -/
def Head.over (types : List TypeExpr) : Head → TypeExpr
  | .generic name _ _ => nameOver settings name.text types
  | .namedList | .list => .tuple types
  | .map => mapOver settings types
  | .array => .array (.anyOf types)

variable (alone : Text → TypeExpr)

mutual

/-- What an expression means, when `alone` says what the leaves mean by themselves. -/
def Expression.meaning : Expression → TypeExpr
  | .leaf leaf => alone leaf.text
  | .bracketed head parameters => head.over settings parameters.meanings

def ParameterList.meanings : ParameterList → List TypeExpr
  | .separate items => items.meanings
  | .arrow keys values => [.anyOf keys.meanings, .anyOf values.meanings]

def Items.meanings : Items → List TypeExpr
  | .last _ item _ => [item.meaning]
  | .more _ item _ others => item.meaning :: others.meanings

end

end Meaning

namespace Conversion
open TypeExpr

variable {settings : Settings} {scope : Option Scope} {inner : Text → Traced TypeExpr}
variable {text : Text} {types : List TypeExpr}

/-! ## Reading the head -/

/-- The words that are not read by their shape hold no marks. -/
theorem Reading.of_marked {c : Char} (inScope : Bool) (hc : c ∈ text) (hmark : isMark c = true) :
    of inScope text = ofShape text (Shape.of text) := by
  have hwords : (Keyword.selfWord :: Keyword.nilWord :: Keyword.booleans).all
      (fun word => !word.any isMark) = true := rfl
  have hother : text ∉ Keyword.selfWord :: Keyword.nilWord :: Keyword.booleans := by
    intro hmem
    have hnone : (!text.any isMark) = true := List.all_eq_true.mp hwords text hmem
    rw [List.any_eq_true.mpr ⟨c, hc, hmark⟩] at hnone
    cases hnone
  simp only [List.mem_cons, not_or] at hother
  obtain ⟨hself, hnil, hboolean⟩ := hother
  unfold of
  rw [if_neg (by simpa [Keyword.isBoolean] using hboolean),
    if_neg (by simp [Keyword.isSelf, hself]), if_neg (by simpa [Keyword.isNil] using hnil)]

theorem Reading.of_around (inScope : Bool) (head : Head) {t : Text} (h : Balanced t) :
    of inScope (head.around t) = ofShape (head.around t) (head.shape t) := by
  rw [of_marked inScope head.closer_mem_around (isMark_of_isCloser head.bracket.isCloser_closer),
    Shape.of_around h]

/-! ## Making a type of parameters -/

theorem value_hashOf : (hashOf settings text types).value = mapOver settings types := by
  match types with
  | [] | [_] | [_, _] | _ :: _ :: _ :: _ => rfl

theorem value_applyContainer (kind : Container) (hsome : types ≠ [])
    (h : ∀ t ∈ types, t.Regular) :
    (applyContainer settings text kind types).value = containerOver settings types kind := by
  cases kind with
  | hash => rw [applyContainer_keyValue types rfl, value_hashOf]; rfl
  | classObject => rw [applyContainer_singleton rfl h]; rfl
  | _ => rw [applyContainer_single rfl hsome h]; rfl

/-- What is read as a head says is converted as the head says. -/
theorem Reading.value_convert_shape (head : Head) {parameters : Text}
    (h : ∀ t ∈ (convertParameters inner parameters).value, t.Regular) :
    ((ofShape text (head.shape parameters)).convert settings scope inner text).value =
      head.over settings (convertParameters inner parameters).value := by
  have hsome := convertParameters_ne_nil inner parameters
  cases head with
  | generic name gap braces =>
    show ((ofGeneric text name.text parameters).convert settings scope inner text).value =
      nameOver settings name.text _
    unfold ofGeneric nameOver
    cases Container.named? name.text with
    | some kind => exact value_applyContainer kind hsome h
    | none =>
      dsimp only
      split <;> rfl
  | namedList | list => rfl
  | map => exact value_applyContainer .hash hsome h
  | array => rfl

/-! ## Going down an expression -/

theorem Reading.parts_leaf (leaf : Leaf) (inScope : Bool) : (of inScope leaf.text).parts = [] := by
  unfold of
  split
  · rfl
  split
  · rfl
  split
  · rfl
  · have hplain := leaf.plain
    cases hshape : Shape.of leaf.text with
    | identifier | duckType | literal => rfl
    | _ =>
      rw [hshape] at hplain
      cases hplain

/-- Where a text has no parts, it does not matter how deep it is. -/
theorem convertText_of_parts {allowance : Nat} (h : 0 < allowance)
    (hparts : (Reading.of scope.isSome (Text.trim text)).parts = []) :
    convertText settings scope allowance text = convertOne settings scope text := by
  match allowance, h with
  | allowance + 1, _ =>
    rw [convertOne, convertText_succ, convertText_succ]
    refine Reading.convert_congr fun part hpart => ?_
    rw [hparts] at hpart
    cases hpart

theorem convertText_leaf (leaf : Leaf) {allowance : Nat} (h : 0 < allowance) :
    convertText settings scope allowance leaf.text = convertOne settings scope leaf.text :=
  convertText_of_parts h (by rw [leaf.trimmed, Reading.parts_leaf])

/-- Brackets around a balanced text are converted as the head in front of them says. -/
theorem value_convertText_around (head : Head) {parameters : Text} (h : Balanced parameters)
    (allowance : Nat) :
    (convertText settings scope (allowance + 1) (head.around parameters)).value =
      head.over settings
        (convertParameters (convertText settings scope allowance) parameters).value := by
  have hregular : ∀ t ∈ (convertParameters (convertText settings scope allowance)
      parameters).value, t.Regular :=
    regular_convertParameters fun part _ => regular_convertText allowance part
  rw [convertText_succ, Head.trim_around, Reading.of_around _ _ h,
    Reading.value_convert_shape head hregular]

/-- A group of one text is a union of one type, which is that type because it is regular. -/
theorem value_convertParameters_separate {parameters : Text} {texts : List Text}
    (hsplit : Parameters.split parameters = texts.map ([·])) (allowance : Nat) :
    (convertParameters (convertText settings scope allowance) parameters).value =
      texts.map fun text => (convertText settings scope allowance text).value := by
  rw [value_convertParameters, hsplit, List.map_map]
  exact List.map_congr_left fun text _ => (regular_convertText allowance text).tidy.anyOf_singleton

variable (settings scope) in
/-- What a text means by itself. -/
def alone (text : Text) : TypeExpr := (convertOne settings scope text).value

-- The induction is on the expression, for all allowances above its nesting at once: a head takes one
-- level from each.
mutual

theorem value_convertText (e : Expression) {allowance : Nat} (h : e.nesting < allowance) :
    (convertText settings scope allowance e.text).value =
      e.meaning settings (alone settings scope) := by
  match e, allowance, h with
  | .leaf leaf, allowance, h => exact congrArg Traced.value (convertText_leaf leaf h)
  | .bracketed head parameters, allowance + 1, h =>
    have hinner := value_convertParameters_text parameters (Nat.lt_of_succ_lt_succ h)
    rw [Expression.text, value_convertText_around head parameters.balanced_text, hinner,
      Expression.meaning]

theorem value_convertParameters_text (parameters : ParameterList) {allowance : Nat}
    (h : parameters.nesting < allowance) :
    (convertParameters (convertText settings scope allowance) parameters.text).value =
      parameters.meanings settings (alone settings scope) := by
  have hsplit := parameters.split_text
  match parameters with
  | .separate items =>
    rw [value_convertParameters_separate hsplit, ParameterList.meanings,
      map_value_convertText items h]
  | .arrow keys values =>
    obtain ⟨hkeys, hvalues⟩ := Nat.max_lt.mp h
    rw [value_convertParameters, hsplit, ParameterList.groups, ParameterList.meanings,
      ← map_value_convertText keys hkeys, ← map_value_convertText values hvalues]
    rfl

theorem map_value_convertText (items : Items) {allowance : Nat} (h : items.nesting < allowance) :
    items.texts.map (fun text => (convertText settings scope allowance text).value) =
      items.meanings settings (alone settings scope) := by
  match items with
  | .last _ item _ =>
    rw [Items.texts, Items.meanings, List.map_singleton, value_convertText item h]
  | .more _ item _ others =>
    obtain ⟨hitem, hothers⟩ := Nat.max_lt.mp h
    rw [Items.texts, Items.meanings, List.map_cons, value_convertText item hitem,
      map_value_convertText others hothers]

end

theorem convertText_trim {allowance : Nat} {a b : Text} (h : Text.trim a = Text.trim b) :
    convertText settings scope allowance a = convertText settings scope allowance b := by
  cases allowance with
  | zero => rw [convertText_zero, convertText_zero, h]
  | succ allowance => rw [convertText_succ, convertText_succ, h]

end Conversion

open Conversion in
/-- **Converting the text of an expression gives its meaning**, whatever the expression and wherever
blanks stand in it or around it, as long as it does not nest deeper than allowed. -/
theorem Resolver.convert_expression (r : Resolver) (files : FileSystem) (settings : Settings)
    (entity? : Option EntityId) (e : Expression) (before after : Blanks)
    (h : e.nesting ≤ maxNesting) :
    (r.convert files settings entity? (.one (e.padded before after))).value =
      e.meaning settings fun text => (r.convert files settings entity? (.one text)).value := by
  have htrim : Text.trim (e.padded before after) = Text.trim e.text := by
    rw [e.trim_padded, e.trim_text]
  show (convertText settings (r.scopeFor files entity?) (maxNesting + 1) _).value = _
  rw [convertText_trim htrim]
  exact value_convertText e (Nat.lt_succ_of_le h)

/-- A map from symbols and a number to lists of one element, with blanks here and there. -/
def Expression.sample : Expression :=
  let tight : Blanks := .none
  let space : Blanks := ⟨[' '], rfl⟩
  let symbol : Leaf := ⟨"Symbol", rfl, rfl, rfl⟩
  let number : Leaf := ⟨"1.5", rfl, rfl, rfl⟩
  let absent : Leaf := ⟨"nil", rfl, rfl, rfl⟩
  .bracketed (.generic ⟨"Hash", rfl⟩ space true)
    (.arrow (.more tight (.leaf symbol) space (.last space (.leaf number) tight))
      (.last tight (.bracketed .list (.separate (.last tight (.leaf absent) space))) tight))

theorem Resolver.convert_sample :
    Expression.sample.nesting ≤ Conversion.maxNesting ∧
      ((fresh .empty .default ⟨none, []⟩).convert ⟨[], []⟩ ⟨false, false, .rbi⟩ none
        (.one "\tHash {Symbol , 1.5=>(nil )} ")).value =
          .hash (.union [.raw "Symbol", .raw "Float"]) (.tuple [.raw "NilClass"]) := by
  have hnesting : Expression.sample.nesting ≤ Conversion.maxNesting := by decide
  refine ⟨hnesting, ?_⟩
  exact (fresh .empty .default ⟨none, []⟩).convert_expression ⟨[], []⟩ ⟨false, false, .rbi⟩ none
    .sample ⟨['\t'], rfl⟩ ⟨[' '], rfl⟩ hnesting

end DocTypes
