import DocTypes.Proofs.Annotation.Enclosure
import DocTypes.Proofs.Annotation.Joining

/-! # Expressions

The grammar of annotations without a fault (`Expression`): a leaf without any mark, or a head around
parameters, which are a list of expressions with commas between them or two such lists with an arrow
in between.  Blanks may stand around every expression, and lists are never empty.  Whatever is
asked of names, blanks and leaves is part of their types, so that every expression can be written
down (`Expression.text`).

What is written can be read back one level at a time: the annotation is read as its head says
(`Shape.of_around`, for every expression is balanced), and its parameters are split into the texts of
the expressions in them (`ParameterList.split_text`). -/

namespace DocTypes

/-- Whether a shape has no parameters but is that of an annotation. -/
def Shape.isPlain : Shape → Bool
  | identifier _ | duckType _ | literal _ => true
  | _ => false

/-- An annotation without brackets, commas and equals signs: a constant path, a duck type or a
literal.  None of these is empty. -/
structure Leaf where
  text : Text
  trimmed : Text.trim text = text
  plain : (Shape.of text).isPlain = true
  unmarked : text.any isMark = false

mutual

/-- An annotation without a fault. -/
inductive Expression where
  | leaf (leaf : Leaf)
  | bracketed (head : Head) (parameters : ParameterList)

/-- What stands between brackets. -/
inductive ParameterList where
  /-- Expressions with commas between them. -/
  | separate (items : Items)
  /-- Expressions on both sides of an arrow. -/
  | arrow (keys values : Items)

/-- One or more expressions, each with blanks around it. -/
inductive Items where
  | last (before : Blanks) (item : Expression) (after : Blanks)
  | more (before : Blanks) (item : Expression) (after : Blanks) (others : Items)

end

/-! ## Writing -/

mutual

/-- An expression as it is written. -/
def Expression.text : Expression → Text
  | .leaf leaf => leaf.text
  | .bracketed head parameters => head.around parameters.text

def ParameterList.text : ParameterList → Text
  | .separate items => items.text
  | .arrow keys values => keys.text ++ '=' :: '>' :: values.text

def Items.text : Items → Text
  | .last before item after => before.text ++ item.text ++ after.text
  | .more before item after others =>
    before.text ++ item.text ++ after.text ++ ',' :: others.text

end

mutual

/-- How many levels of brackets an expression has. -/
def Expression.nesting : Expression → Nat
  | .leaf _ => 0
  | .bracketed _ parameters => parameters.nesting + 1

def ParameterList.nesting : ParameterList → Nat
  | .separate items => items.nesting
  | .arrow keys values => max keys.nesting values.nesting

def Items.nesting : Items → Nat
  | .last _ item _ => item.nesting
  | .more _ item _ others => max item.nesting others.nesting

end

/-! ## Expressions are balanced -/

theorem Leaf.unmarked_of_mem (leaf : Leaf) : ∀ c ∈ leaf.text, isMark c = false := by
  simpa using leaf.unmarked

theorem Blanks.balanced (blanks : Blanks) : Balanced blanks.text := .of_unmarked blanks.unmarked

mutual

theorem Expression.balanced_text : ∀ e : Expression, Balanced e.text
  | .leaf leaf => .of_unmarked leaf.unmarked_of_mem
  | .bracketed _ parameters => Head.balanced_around parameters.balanced_text

theorem ParameterList.balanced_text : ∀ parameters : ParameterList, Balanced parameters.text
  | .separate items => items.balanced_text
  | .arrow keys values => by
    rw [ParameterList.text]
    exact keys.balanced_text.append (Balanced.arrow.append values.balanced_text)

theorem Items.balanced_text : ∀ items : Items, Balanced items.text
  | .last before item after => (before.balanced.append item.balanced_text).append after.balanced
  | .more before item after others =>
    ((before.balanced.append item.balanced_text).append after.balanced).append
      (Balanced.comma.append others.balanced_text)

end

namespace Expression

theorem trim_text (e : Expression) : Text.trim e.text = e.text := by
  cases e with
  | leaf leaf => exact leaf.trimmed
  | bracketed head parameters => exact Head.trim_around

theorem unseparated_text (e : Expression) :
    Parameters.Unseparated Level.outside e.text := by
  cases e with
  | leaf leaf => exact Parameters.unseparated_of_unmarked leaf.unmarked_of_mem
  | bracketed head parameters => exact Head.unseparated_around parameters.balanced_text

end Expression

/-- An expression with blanks around it. -/
def Expression.padded (e : Expression) (before after : Blanks) : Text :=
  before.text ++ e.text ++ after.text

theorem Expression.trim_padded (e : Expression) (before after : Blanks) :
    Text.trim (e.padded before after) = e.text :=
  (Text.trim_padded before.isBlank_of_mem after.isBlank_of_mem).trans e.trim_text

/-! ## Splitting parameters -/

/-- An expression as a parameter. -/
def Expression.parameter (e : Expression) : Parameters.Parameter where
  text := e.text
  trimmed := e.trim_text
  nested := e.balanced_text.wellNested
  undivided := Parameters.unseparated_iff.mp e.unseparated_text

namespace Items

/-- The texts of the expressions in a list. -/
def texts : Items → List Text
  | last _ item _ => [item.text]
  | more _ item _ others => item.text :: others.texts

/-- The expressions of a list, with the blanks around them. -/
def parameters : Items → List Parameters.PaddedParameter
  | last before item after => [⟨before, item.parameter, after⟩]
  | more before item after others => ⟨before, item.parameter, after⟩ :: others.parameters

theorem parameters_ne_nil (items : Items) : items.parameters ≠ [] := by
  cases items <;> exact List.cons_ne_nil _ _

theorem map_parameters : ∀ items : Items, items.parameters.map (·.parameter.text) = items.texts
  | last _ _ _ => rfl
  | more _ item _ others => congrArg (item.text :: ·) others.map_parameters

theorem text_eq : ∀ items : Items, items.text = Parameters.commaJoined items.parameters
  | last before item after => by
    rw [parameters, Parameters.commaJoined_singleton]
    rfl
  | more before item after others => by
    rw [text, others.text_eq, parameters, Parameters.commaJoined_cons _ others.parameters_ne_nil]
    rfl

end Items

/-- The texts of the expressions in parameters, by groups. -/
def ParameterList.groups : ParameterList → List (List Text)
  | separate items => items.texts.map ([·])
  | arrow keys values => [keys.texts, values.texts]

/-- **Parameters are split into the expressions in them.** -/
theorem ParameterList.split_text (parameters : ParameterList) :
    Parameters.split parameters.text = parameters.groups := by
  cases parameters with
  | separate items =>
    rw [text, items.text_eq, Parameters.split_commaJoined items.parameters_ne_nil, groups,
      ← items.map_parameters, List.map_map]
    rfl
  | arrow keys values =>
    have htext : (arrow keys values).text =
        Parameters.arrowJoined keys.parameters values.parameters := by
      rw [text, keys.text_eq, values.text_eq]
      simp [Parameters.arrowJoined]
    rw [htext, Parameters.split_arrowJoined keys.parameters_ne_nil values.parameters_ne_nil, groups,
      keys.map_parameters, values.map_parameters]

end DocTypes
