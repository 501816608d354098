import DocTypes.Proofs.Conversion.Entries
import DocTypes.Proofs.Conversion.Meaning
import DocTypes.Proofs.Conversion.Unlimited

/-! # The nesting limit

A conversion looks into `maxNesting` levels of brackets and no further.  If an annotation is nested
no deeper, the limit is not noticed: the type, the diagnostics and the resolver afterwards are those
of the conversion without a limit.  If it is nested deeper, that is reported, and unless placeholders
are replaced the type shows one (`Resolver.convert_nesting`).

The second half is the harder one.  The placeholder is made at the bottom, and everything above it
might drop it: a union drops repetitions, a container folds its parameters into one, a map of the
wrong size forgets them all.  None does: a union contains a placeholder exactly when a member does
(`containsError_anyOf`), and a map that forgets its parameters is a placeholder itself.

Either way the type itself is nested no deeper than the allowance (`nesting_convertText_le`): each
level of brackets makes one container, generic or tuple, and so may the innermost name.

The limit is met exactly: a name in that many pairs of brackets does not exceed it, and one more pair
does (`exceeds_nested_iff`).
-/
namespace DocTypes

/-! ## The nesting of a type -/

namespace TypeExpr

mutual

/-- The largest number of containers, generics and tuples that are inside one another. -/
def nesting : TypeExpr → Nat
  | nilable inner => inner.nesting
  | union members => largestNesting members
  | container _ arguments => largestNesting arguments + 1
  | generic base arguments => max base.nesting (largestNesting arguments) + 1
  | tuple elements => largestNesting elements + 1
  | untyped | boolean | selfType | raw _ | error _ => 0

/-- The largest nesting of several types. -/
def largestNesting : List TypeExpr → Nat
  | [] => 0
  | x :: xs => max x.nesting (largestNesting xs)

end

variable {n : Nat}

theorem largestNesting_le {l : List TypeExpr} :
    largestNesting l ≤ n ↔ ∀ t ∈ l, t.nesting ≤ n := by
  induction l with
  | nil => simp [largestNesting]
  | cons x l ih => rw [largestNesting, Nat.max_le, ih, List.forall_mem_cons]

theorem nesting_alternatives_le {t a : TypeExpr} (ha : a ∈ t.alternatives) :
    a.nesting ≤ t.nesting := by
  cases t with
  | union members =>
    rw [nesting]
    exact largestNesting_le.mp (Nat.le_refl _) a ha
  | _ => exact List.mem_singleton.mp ha ▸ Nat.le_refl _

theorem nesting_ofAlternatives_le {l : List TypeExpr} (h : ∀ a ∈ l, a.nesting ≤ n) :
    (ofAlternatives l).nesting ≤ n := by
  match l with
  | [] => exact Nat.zero_le n
  | [only] => exact h only List.mem_cons_self
  | _ :: _ :: _ => exact largestNesting_le.mpr h

/-- A union is nested no deeper than its members. -/
theorem nesting_anyOf_le {members : List TypeExpr} (h : ∀ m ∈ members, m.nesting ≤ n) :
    (anyOf members).nesting ≤ n := by
  refine nesting_ofAlternatives_le fun a ha => ?_
  obtain ⟨m, hm, ham⟩ := List.mem_flatMap.mp (mem_distinct.mp ha)
  exact Nat.le_trans (nesting_alternatives_le ham) (h m hm)

theorem nesting_orNil (t : TypeExpr) : t.orNil.nesting = t.nesting := by
  cases t <;> rfl

theorem nesting_container_le {kind : Container} {arguments : List TypeExpr}
    (h : ∀ a ∈ arguments, a.nesting ≤ n) : (container kind arguments).nesting ≤ n + 1 :=
  Nat.succ_le_succ (largestNesting_le.mpr h)

theorem nesting_generic_le {name : Text} {arguments : List TypeExpr}
    (h : ∀ a ∈ arguments, a.nesting ≤ n) : (generic (.raw name) arguments).nesting ≤ n + 1 := by
  rw [nesting]
  exact Nat.succ_le_succ (Nat.max_le.mpr ⟨Nat.zero_le n, largestNesting_le.mpr h⟩)

theorem Flat.nesting_le {t : TypeExpr} (h : t.Flat) : t.nesting ≤ 1 := by
  cases h with
  | untyped | raw => exact Nat.zero_le 1
  | container _ free => exact nesting_container_le fun a ha => free a ha ▸ Nat.le_refl 0
  | generic _ free => exact nesting_generic_le fun a ha => free a ha ▸ Nat.le_refl 0

end TypeExpr

namespace Conversion
open TypeExpr

variable {settings : Settings} {scope : Option Scope} {inner : Text → Traced TypeExpr}
variable {text : Text} {n : Nat}

/-! ## The type is nested no deeper than the allowance -/

theorem nesting_fail (shown : Text) (fault : Finding) :
    (fail settings shown fault).value.nesting = 0 := by
  show (placeholder settings shown).nesting = 0
  unfold placeholder
  split <;> rfl

theorem nesting_hashOf_le {types : List TypeExpr} (h : ∀ t ∈ types, t.nesting ≤ n) :
    (hashOf settings text types).value.nesting ≤ n + 1 := by
  unfold hashOf
  split
  · exact nesting_container_le h
  · rw [nesting_fail]
    exact Nat.zero_le _

theorem nesting_applyContainer_le {kind : Container} {types : List TypeExpr}
    (hsome : types ≠ []) (hregular : ∀ t ∈ types, t.Regular) (h : ∀ t ∈ types, t.nesting ≤ n) :
    (applyContainer settings text kind types).value.nesting ≤ n + 1 := by
  cases harity : kind.arity with
  | single =>
    rw [applyContainer_single harity hsome hregular]
    exact nesting_container_le fun a ha => List.mem_singleton.mp ha ▸ nesting_anyOf_le h
  | singleton =>
    rw [applyContainer_singleton harity hregular]
    refine nesting_anyOf_le (List.forall_mem_map.mpr fun t ht => ?_)
    exact nesting_container_le fun a ha => List.mem_singleton.mp ha ▸ h t ht
  | keyValue =>
    rw [applyContainer_keyValue types harity]
    exact nesting_hashOf_le h

/-- Brackets add one level. -/
theorem Frame.nesting_close_le (frame : Frame) {types : List TypeExpr} (hsome : types ≠ [])
    (hregular : ∀ t ∈ types, t.Regular) (h : ∀ t ∈ types, t.nesting ≤ n) :
    (frame.close settings text types).value.nesting ≤ n + 1 := by
  cases frame with
  | container kind => exact nesting_applyContainer_le hsome hregular h
  | named name => exact nesting_generic_le h
  | tuple => exact Nat.succ_le_succ (largestNesting_le.mpr h)
  | array =>
    exact nesting_container_le fun a ha => List.mem_singleton.mp ha ▸ nesting_anyOf_le h

theorem nesting_convertParameters_le {parameters : Text}
    (h : ∀ part, (inner part).value.nesting ≤ n) :
    ∀ t ∈ (convertParameters inner parameters).value, t.nesting ≤ n :=
  forall_convertParameters (fun _ => nesting_anyOf_le) fun part _ => h part

theorem Reading.nesting_convert_le (reading : Reading)
    (hregular : ∀ part, (inner part).value.Regular) (h : ∀ part, (inner part).value.nesting ≤ n) :
    (reading.convert settings scope inner text).value.nesting ≤ n + 1 := by
  have hflat : 1 ≤ n + 1 := Nat.succ_le_succ (Nat.zero_le n)
  cases reading with
  | boolean | selfType | nilWord | literal => exact Nat.zero_le _
  | name m => exact Nat.le_trans (flat_convertName scope m).nesting_le hflat
  | duckType methods => exact Nat.le_trans (flat_convertDuckType text methods).nesting_le hflat
  | fault shown finding =>
    show (fail settings shown finding).value.nesting ≤ n + 1
    rw [nesting_fail]
    exact Nat.zero_le _
  | framed frame parameters =>
    exact frame.nesting_close_le (convertParameters_ne_nil inner parameters)
      (regular_convertParameters fun part _ => hregular part) (nesting_convertParameters_le h)

theorem nesting_convertText_le (allowance : Nat) (text : Text) :
    (convertText settings scope allowance text).value.nesting ≤ allowance := by
  induction allowance generalizing text with
  | zero => exact Nat.le_of_eq (nesting_fail _ _)
  | succ allowance ih =>
    rw [convertText_succ]
    exact Reading.nesting_convert_le _ (regular_convertText allowance) ih

theorem nesting_convertWith_le {one : Text → Traced TypeExpr} (tag : Annotation)
    (h : ∀ text, (one text).value.nesting ≤ n) : (convertWith one tag).value.nesting ≤ n := by
  cases tag with
  | absent => exact Nat.zero_le n
  | one text => exact h text
  | many texts =>
    simp only [convertWith, convertMany]
    split
    · exact Nat.zero_le n
    · have hany : (anyOf (((texts.filter (!isNilEntry ·)).map one).map (·.value))).nesting ≤ n :=
        nesting_anyOf_le (forall_value_all fun text _ => h text)
      simp only [Traced.value_bind, Traced.value_all, Traced.value_pure]
      split
      · rwa [nesting_orNil]
      · exact hany

/-! ## A placeholder inside is not lost -/

section Kept

variable (hkeep : settings.replaceErrors = false)
include hkeep

theorem containsError_fail (shown : Text) (fault : Finding) :
    (fail settings shown fault).value.containsError = true := by
  show (placeholder settings shown).containsError = true
  rw [placeholder, hkeep]
  rfl

theorem containsError_hashOf {types : List TypeExpr} (h : types.any containsError = true) :
    (hashOf settings text types).value.containsError = true := by
  unfold hashOf
  split
  · exact (anyContainsError_eq _).trans h
  · exact containsError_fail hkeep _ _

theorem containsError_applyContainer {kind : Container} {types : List TypeExpr}
    (hsome : types ≠ []) (hregular : ∀ t ∈ types, t.Regular)
    (h : types.any containsError = true) :
    (applyContainer settings text kind types).value.containsError = true := by
  cases harity : kind.arity with
  | single =>
    rw [applyContainer_single harity hsome hregular]
    show ((anyOf types).containsError || false) = true
    rw [Bool.or_false, containsError_anyOf, h]
  | singleton =>
    rw [applyContainer_singleton harity hregular]
    show (anyOf (types.map classOf)).containsError = true
    have hclass : containsError ∘ classOf = containsError := funext fun t => Bool.or_false _
    rw [containsError_anyOf, List.any_map, hclass, h]
  | keyValue =>
    rw [applyContainer_keyValue types harity]
    exact containsError_hashOf hkeep h

/-- Brackets lose no placeholder. -/
theorem Frame.containsError_close (frame : Frame) {types : List TypeExpr} (hsome : types ≠ [])
    (hregular : ∀ t ∈ types, t.Regular) (h : types.any containsError = true) :
    (frame.close settings text types).value.containsError = true := by
  cases frame with
  | container kind => exact containsError_applyContainer hkeep hsome hregular h
  | named name => exact (anyContainsError_eq types).trans h
  | tuple => exact (anyContainsError_eq types).trans h
  | array =>
    show ((anyOf types).containsError || false) = true
    rw [Bool.or_false, containsError_anyOf, h]

omit hkeep in
theorem containsError_convertParameters {parameters part : Text}
    (hpart : part ∈ (Parameters.split parameters).flatten)
    (h : (inner part).value.containsError = true) :
    (convertParameters inner parameters).value.any containsError = true := by
  obtain ⟨group, hgroup, hmem⟩ := List.mem_flatten.mp hpart
  rw [value_convertParameters, List.any_map, List.any_eq_true]
  refine ⟨group, hgroup, ?_⟩
  rw [Function.comp_apply, containsError_anyOf, List.any_map, List.any_eq_true]
  exact ⟨part, hmem, h⟩

/-- What holds a placeholder inside holds one. -/
theorem Reading.containsError_convert {reading : Reading} {part : Text}
    (hpart : part ∈ reading.parts) (hregular : ∀ part, (inner part).value.Regular)
    (h : (inner part).value.containsError = true) :
    (reading.convert settings scope inner text).value.containsError = true := by
  cases reading with
  | framed frame parameters =>
    exact frame.containsError_close hkeep (convertParameters_ne_nil inner parameters)
      (regular_convertParameters fun part _ => hregular part)
      (containsError_convertParameters hpart h)
  | _ => cases hpart

/-- A text that is nested deeper than the allowance holds a placeholder. -/
theorem containsError_convertText {allowance depth : Nat} (h : Reaches scope text depth)
    (hdeep : allowance ≤ depth) :
    (convertText settings scope allowance text).value.containsError = true := by
  -- The allowance and the depth go down together, and the allowance runs out first.
  induction allowance generalizing text depth with
  | zero => exact containsError_fail hkeep _ _
  | succ allowance ih =>
    cases h with
    | here => exact absurd hdeep (Nat.not_succ_le_zero allowance)
    | inside hpart h =>
      rw [convertText_succ]
      exact Reading.containsError_convert hkeep hpart (regular_convertText allowance)
        (ih h (Nat.le_of_succ_le_succ hdeep))

end Kept

/-! ## Running out of the allowance is reported -/

theorem Reading.mem_notes_convert {reading : Reading} {part : Text} {note : Note}
    (hpart : part ∈ reading.parts) (h : note ∈ (inner part).notes) :
    note ∈ (reading.convert settings scope inner text).notes := by
  cases reading with
  | framed frame parameters =>
    rw [notes_convert_framed, notes_convertParameters]
    refine List.mem_append_right _ (List.mem_append_left _ ?_)
    exact List.mem_flatMap.mpr ⟨part, hpart, h⟩
  | _ => cases hpart

theorem nestedTooDeep_mem_convertText {allowance depth : Nat} (h : Reaches scope text depth)
    (hdeep : allowance ≤ depth) :
    .finding (.nestedTooDeep maxNesting) ∈ (convertText settings scope allowance text).notes := by
  induction allowance generalizing text depth with
  | zero => exact List.mem_singleton.mpr rfl
  | succ allowance ih =>
    cases h with
    | here => exact absurd hdeep (Nat.not_succ_le_zero allowance)
    | inside hpart h =>
      rw [convertText_succ]
      exact Reading.mem_notes_convert hpart (ih h (Nat.le_of_succ_le_succ hdeep))

/-! ## Annotations -/

/-- Converting an annotation without a limit comes to a text deeper than `limit` levels. -/
def Exceeds (scope : Option Scope) (limit : Nat) (tag : Annotation) : Prop :=
  ∃ text ∈ entries tag, ∃ depth, limit < depth ∧ Reaches scope text depth

theorem convert_eq_unlimited {tag : Annotation} (h : ¬ Exceeds scope maxNesting tag) :
    convert settings scope tag = convertWith (convertUnlimited settings scope) tag := by
  refine convertWith_congr fun text htext => convertText_eq_unlimited fun depth hdepth => ?_
  refine Nat.lt_succ_of_le (Nat.le_of_not_lt fun hlt => h ?_)
  exact ⟨text, htext, depth, hlt, hdepth⟩

theorem nestedTooDeep_mem_convert {tag : Annotation} (h : Exceeds scope maxNesting tag) :
    .finding (.nestedTooDeep maxNesting) ∈ (convert settings scope tag).notes := by
  obtain ⟨text, htext, depth, hlt, hdepth⟩ := h
  rw [convert, notes_convertWith]
  exact List.mem_flatMap.mpr ⟨text, htext, nestedTooDeep_mem_convertText hdepth hlt⟩

theorem containsError_convert {tag : Annotation} (hkeep : settings.replaceErrors = false)
    (h : Exceeds scope maxNesting tag) :
    (convert settings scope tag).value.containsError = true := by
  obtain ⟨text, htext, depth, hlt, hdepth⟩ := h
  rw [convert, containsError_convertWith, List.any_eq_true]
  exact ⟨text, htext, containsError_convertText hkeep hdepth hlt⟩

end Conversion

/-- The type of an annotation that belongs to an entity, or to none, however deep its brackets are
nested. -/
def Resolver.convertUnlimited (r : Resolver) (files : FileSystem) (settings : Settings)
    (entity? : Option EntityId) (tag : Annotation) : Answer TypeExpr :=
  r.answer files entity? fun scope =>
    Conversion.convertWith (Conversion.convertUnlimited settings scope) tag

open Conversion in
/-- **The nesting limit is invisible below it and always reported above it.**  The conversion
without a limit goes on to the parts of a text, all of them, and they are shorter than the text.  If
it goes no deeper than the limit, the limit makes no difference at all.  If it goes deeper, that is
reported, and a placeholder that is not replaced is left in the type.  No type is nested deeper than
the limit allows. -/
theorem Resolver.convert_nesting (r : Resolver) (files : FileSystem) (settings : Settings)
    (entity? : Option EntityId) (tag : Annotation) :
    let scope := r.scopeFor files entity?
    let limited := r.convert files settings entity? tag
    (∀ text, Conversion.convertUnlimited settings scope text =
        convertTrimmed settings scope (Conversion.convertUnlimited settings scope)
          (Text.trim text)) ∧
      (∀ text, ∀ part ∈ (Reading.of scope.isSome (Text.trim text)).parts,
        part.length < text.length) ∧
      (¬ Exceeds scope maxNesting tag → limited = r.convertUnlimited files settings entity? tag) ∧
      (Exceeds scope maxNesting tag →
        (Finding.nestedTooDeep maxNesting).diagnostic (scope.map (·.path)) ∈ limited.diagnostics ∧
          (settings.replaceErrors = false → limited.value.containsError = true)) ∧
      limited.value.nesting ≤ maxNesting + 1 := by
  intro scope limited
  refine ⟨Conversion.convertUnlimited_eq settings scope,
    fun text part => Reading.length_lt_of_mem_parts, ?_, ?_, ?_⟩
  · exact fun hwithin => answer_congr (convert_eq_unlimited hwithin)
  · intro hexceeds
    constructor
    · exact mem_settle (nestedTooDeep_mem_convert hexceeds)
    · exact fun hkeep => containsError_convert hkeep hexceeds
  · exact nesting_convertWith_le tag fun text => nesting_convertText_le (maxNesting + 1) text

/-! ## Annotations at the limit -/

/-- A name in so many pairs of angle brackets. -/
def Expression.nested : Nat → Expression
  | 0 => .leaf ⟨"A", rfl, rfl, rfl⟩
  | n + 1 => .bracketed .array (.separate (.last .none (nested n) .none))

namespace Conversion

variable {scope : Option Scope}

theorem parts_nested (inScope : Bool) (n : Nat) :
    (Reading.of inScope (Expression.nested (n + 1)).text).parts = [(Expression.nested n).text] := by
  let parameters : ParameterList := .separate (.last .none (.nested n) .none)
  show (Reading.of inScope (Head.array.around parameters.text)).parts = _
  rw [Reading.of_around inScope .array parameters.balanced_text]
  show (Parameters.split parameters.text).flatten = _
  rw [parameters.split_text]
  rfl

/-- Each pair of brackets is a level, and there are no further ones. -/
theorem reaches_nested_iff {n depth : Nat} :
    Reaches scope (Expression.nested n).text depth ↔ depth ≤ n := by
  induction n generalizing depth with
  | zero =>
    constructor
    · intro h
      cases h with
      | here => exact Nat.le_refl 0
      | inside hpart _ =>
        rw [Expression.trim_text, Expression.nested, Expression.text, Reading.parts_leaf] at hpart
        cases hpart
    · intro hle
      obtain rfl := Nat.le_zero.mp hle
      exact .here _
  | succ n ih =>
    constructor
    · intro h
      cases h with
      | here => exact Nat.zero_le _
      | inside hpart h =>
        rw [Expression.trim_text, parts_nested, List.mem_singleton] at hpart
        exact Nat.succ_le_succ (ih.mp (hpart ▸ h))
    · intro hle
      cases depth with
      | zero => exact .here _
      | succ depth =>
        refine .inside ?_ (ih.mpr (Nat.le_of_succ_le_succ hle))
        rw [Expression.trim_text, parts_nested]
        exact List.mem_singleton.mpr rfl

theorem exceeds_nested_iff {n limit : Nat} :
    Exceeds scope limit (.one (Expression.nested n).text) ↔ limit < n := by
  constructor
  · rintro ⟨text, htext, depth, hlt, hdepth⟩
    obtain rfl := List.mem_singleton.mp htext
    exact Nat.lt_of_lt_of_le hlt (reaches_nested_iff.mp hdepth)
  · intro hlt
    exact ⟨_, List.mem_singleton.mpr rfl, n, hlt, reaches_nested_iff.mpr (Nat.le_refl n)⟩

end Conversion

open Conversion in
theorem Resolver.convert_nested :
    let r := fresh .empty .default ⟨none, []⟩
    let convert n := r.convert ⟨[], []⟩ ⟨false, false, .rbi⟩ none (.one (Expression.nested n).text)
    let unlimited n :=
      r.convertUnlimited ⟨[], []⟩ ⟨false, false, .rbi⟩ none (.one (Expression.nested n).text)
    convert maxNesting = unlimited maxNesting ∧
      (Finding.nestedTooDeep maxNesting).diagnostic none ∈ (convert (maxNesting + 1)).diagnostics ∧
        (convert (maxNesting + 1)).value.containsError = true := by
  intro r convert unlimited
  obtain ⟨-, -, hwithin, -, -⟩ := r.convert_nesting ⟨[], []⟩ ⟨false, false, .rbi⟩ none
    (.one (Expression.nested maxNesting).text)
  obtain ⟨-, -, -, hbeyond, -⟩ := r.convert_nesting ⟨[], []⟩ ⟨false, false, .rbi⟩ none
    (.one (Expression.nested (maxNesting + 1)).text)
  have hexceeds := hbeyond (exceeds_nested_iff.mpr (Nat.lt_succ_self maxNesting))
  refine ⟨hwithin ?_, hexceeds.1, hexceeds.2 rfl⟩
  exact fun h => Nat.lt_irrefl _ (exceeds_nested_iff.mp h)

end DocTypes
