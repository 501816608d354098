import DocTypes.Proofs.Annotation.Unbracketed
import DocTypes.Proofs.Conversion.Meaning
import DocTypes.Proofs.Conversion.Unlimited

/-! # Types of texts in brackets

A text without brackets and commas has the same type wherever it stands: in parentheses it is the
one member of a tuple (`value_convertOne_list`), and on a side of an arrow in braces it is the key
or the value of a map (`value_convertOne_map`).  Nothing else is asked of the text, not even that it
is an annotation.

Texts that end in an equals sign, such as the duck type of a setter, are the exception.  A closer
right after them closes nothing, so that the whole annotation is a fault
(`value_convertOne_of_equals`); a blank in between helps.  Both cases together are
`Resolver.convert_bracketed`. -/

namespace DocTypes
namespace Conversion
open TypeExpr

variable {settings : Settings} {scope : Option Scope} {t key value : Text}

/-! ## The text inside -/

/-- What has parameters ends in a bracket. -/
theorem Reading.parts_unbracketed (inScope : Bool) (h : Unbracketed t) :
    (of inScope t).parts = [] := by
  cases hreading : of inScope t with
  | framed frame parameters =>
    obtain ⟨opener, closer, bracketed, hsuffix, henclosed⟩ :=
      Shape.encloses_of_parameters? (framed_of hreading)
    have hcloser : closer ∈ bracketed := by
      rw [Brackets.enclosed?_eq_some henclosed]
      exact List.mem_append_right _ List.mem_cons_self
    have hnone := (h closer (hsuffix.mem hcloser)).2.1
    rw [Brackets.isCloser_of_enclosed? henclosed] at hnone
    cases hnone
  | _ => rfl

/-- It does not matter how deep a text without brackets is, nor which blanks are around it. -/
theorem convertText_unbracketed (h : Unbracketed t) {allowance : Nat} (hallowance : 0 < allowance) :
    convertText settings scope allowance (Text.trim t) = convertOne settings scope t :=
  calc convertText settings scope allowance (Text.trim t)
      = convertText settings scope allowance t := convertText_trim (Text.trim_trim t)
    _ = convertOne settings scope t :=
      convertText_of_parts hallowance (Reading.parts_unbracketed _ h.trim)

/-! ## Brackets that are closed -/

theorem value_convertOne_list (h : Unbracketed t) (hend : t.getLast? ≠ some '=') :
    (convertOne settings scope (Head.list.around t)).value =
      tuple [(convertOne settings scope t).value] := by
  have hsplit : Parameters.split t = [Text.trim t].map ([·]) :=
    Parameters.split_unbracketed h hend
  rw [convertOne, value_convertText_around .list (h.balanced hend),
    value_convertParameters_separate hsplit, List.map_singleton,
    convertText_unbracketed h (by decide)]
  rfl

theorem value_convertOne_map (hkey : Unbracketed key) (hkeyEnd : key.getLast? ≠ some '=')
    (hvalue : Unbracketed value) (hvalueEnd : value.getLast? ≠ some '=') :
    (convertOne settings scope (Head.map.around (key ++ '=' :: '>' :: value))).value =
      hash (convertOne settings scope key).value (convertOne settings scope value).value := by
  have hsplit : Parameters.split (key ++ '=' :: '>' :: value) =
      [Text.trim key, Text.trim value].map ([·]) :=
    Parameters.split_arrow hkey hkeyEnd hvalue hvalueEnd
  have hbalanced : Balanced (key ++ '=' :: '>' :: value) :=
    (hkey.balanced hkeyEnd).append (Balanced.arrow.append (hvalue.balanced hvalueEnd))
  rw [convertOne, value_convertText_around .map hbalanced,
    value_convertParameters_separate hsplit, List.map_cons, List.map_singleton,
    convertText_unbracketed hkey (by decide), convertText_unbracketed hvalue (by decide)]
  rfl

/-- Blanks around the arrow make no difference. -/
theorem value_convertOne_entry (hkey : Unbracketed key) (hvalue : Unbracketed value)
    (hend : value.getLast? ≠ some '=') :
    (convertOne settings scope (Head.map.around (key ++ " => " ++ value))).value =
      hash (convertOne settings scope key).value (convertOne settings scope value).value := by
  obtain ⟨hspaced, hspacedEnd⟩ := hkey.spaced
  have hindented : Unbracketed (' ' :: value) := List.forall_mem_cons.mpr ⟨by decide, hvalue⟩
  have hindentedEnd : (' ' :: value).getLast? ≠ some '=' := by
    rw [List.getLast?_cons]
    cases hlast : value.getLast? with
    | none => decide
    | some c => rwa [hlast] at hend
  have hblank : ∀ c ∈ [' '], Text.isBlank c = true := Blanks.isBlank_of_mem ⟨[' '], rfl⟩
  have hkeyType : convertOne settings scope (key ++ [' ']) = convertOne settings scope key :=
    convertText_trim (Text.trim_append hblank)
  have hvalueType : convertOne settings scope (' ' :: value) = convertOne settings scope value := by
    refine convertText_trim ?_
    show Text.trim ([' '] ++ value) = Text.trim value
    rw [Text.trim, Text.trimStart_append hblank, Text.trim]
  have hentry : key ++ " => " ++ value = key ++ [' '] ++ '=' :: '>' :: ' ' :: value := by simp
  rw [hentry, value_convertOne_map hspaced hspacedEnd hindented hindentedEnd, hkeyType, hvalueType]

/-! ## Brackets that are not closed -/

/-- A text that ends in an equals sign keeps the brackets around it from being closed. -/
theorem value_convertOne_of_equals (head : Head) (hend : t.getLast? = some '=') :
    (convertOne settings scope (head.around t)).value = placeholder settings (head.around t) := by
  have hmark := isMark_of_isCloser head.bracket.isCloser_closer
  rw [convertOne, convertText_succ, Head.trim_around,
    Reading.of_marked _ head.closer_mem_around hmark, Shape.of_around_of_equals hend]
  rfl

end Conversion

open Conversion

/-- **A text without brackets and commas keeps its type inside brackets**, alone in parentheses and
as the value of a map, in every scope and with all settings, unless an equals sign stands right
before the closing bracket.  Then the annotation is a fault as a whole. -/
theorem Resolver.convert_bracketed (r : Resolver) (files : FileSystem) (settings : Settings)
    (entity? : Option EntityId) {t : Text} (h : Unbracketed t) :
    let typeOf := fun text => (r.convert files settings entity? (.one text)).value
    let listed : Text := "(" ++ t ++ ")"
    let mapped : Text := "\x7bString => " ++ t ++ "\x7d"
    (t.getLast? ≠ some '=' →
      typeOf listed = .tuple [typeOf t] ∧ typeOf mapped = .hash (typeOf "String") (typeOf t)) ∧
    (t.getLast? = some '=' →
      typeOf listed = placeholder settings listed ∧
        typeOf mapped = placeholder settings mapped) := by
  intro typeOf listed mapped
  have hmapped : mapped = Head.map.around (("String" : Text) ++ " => " ++ t) := rfl
  have hname : Unbracketed ("String" : Text) := by decide
  constructor
  · intro hend
    rw [hmapped]
    exact ⟨value_convertOne_list h hend, value_convertOne_entry hname h hend⟩
  · intro hend
    have hlast : (("String" : Text) ++ " => " ++ t).getLast? = some '=' := by
      rw [List.getLast?_append, hend]
      rfl
    rw [hmapped]
    exact ⟨value_convertOne_of_equals .list hend, value_convertOne_of_equals .map hlast⟩

/-- Equals signs elsewhere than at the end do no harm. -/
theorem Resolver.convert_bracketed_methods :
    let t : Text := "#value= & #each"
    let typeOf := fun text =>
      ((fresh .empty .default ⟨none, []⟩).convert ⟨[], []⟩ ⟨false, false, .rbi⟩ none
        (.one text)).value
    Unbracketed t ∧ t.getLast? ≠ some '=' ∧ typeOf t = .untyped ∧
      typeOf "(#value= & #each)" = .tuple [typeOf t] ∧
      typeOf "\x7bString => #value= & #each\x7d" = .hash (typeOf "String") (typeOf t) := by
  intro t typeOf
  have h : Unbracketed t := by decide
  have hend : t.getLast? ≠ some '=' := by decide
  let r := fresh .empty .default ⟨none, []⟩
  obtain ⟨hlist, hmap⟩ := (r.convert_bracketed ⟨[], []⟩ ⟨false, false, .rbi⟩ none h).1 hend
  exact ⟨h, hend, rfl, hlist, hmap⟩

/-- The duck type of a setter has a type, but it has none in brackets. -/
theorem Resolver.convert_bracketed_setter :
    let t : Text := "#value="
    let typeOf := fun text =>
      ((fresh .empty .default ⟨none, []⟩).convert ⟨[], []⟩ ⟨false, false, .rbi⟩ none
        (.one text)).value
    Unbracketed t ∧ (typeOf t).containsError = false ∧ typeOf "(#value=)" ≠ .tuple [typeOf t] ∧
      typeOf "\x7bString => #value=\x7d" ≠ .hash (typeOf "String") (typeOf t) := by
  decide

end DocTypes
