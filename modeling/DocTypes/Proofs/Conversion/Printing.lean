import DocTypes.Proofs.Conversion.NormalForm
import DocTypes.Proofs.Printing

/-! # Names in converted types

The names in a converted type are identifiers of the annotation, words of the vocabulary, or paths
that the scope knows (`namesAre_convert`).  No other part of an annotation gets into its type but
as the text of a placeholder. -/

namespace DocTypes

/-- The paths that a scope knows for identifiers have a property. -/
def Scope.PathsAre (P : Text → Prop) (scope : Scope) : Prop :=
  ∀ name path, Name.isSimple name = true → scope.pathFor? name = some path → P path

/-! ## Names that are read off a text -/

namespace Shape

variable {t name parameters : Text}

/-- What takes parameters is an identifier. -/
theorem isSimple_of_genericParts? (h : genericParts? t = some (name, parameters)) :
    Name.isSimple name = true := by
  obtain ⟨hlength, rfl, -⟩ := genericParts?_eq_some h
  exact Name.isSimple_take hlength

theorem isSimple_of_identifier (h : of t = identifier name) : Name.isSimple name = true := by
  unfold of at h
  split at h
  · next hsimple =>
    cases h
    exact hsimple
  all_goals repeat' split at h
  all_goals cases h

theorem isSimple_of_generic (h : of t = generic name parameters) : Name.isSimple name = true := by
  unfold of at h
  split at h
  · cases h
  · split at h
    · cases h
    · split at h
      · next hparts =>
        cases h
        exact isSimple_of_genericParts? hparts
      · repeat' split at h
        all_goals cases h

end Shape

namespace Conversion
open TypeExpr

variable {settings : Settings} {scope : Option Scope} {inner : Text → Traced TypeExpr}
variable {text : Text} {P : Text → Prop}

/-! ## Faults and containers -/

theorem namesAre_placeholder (text : Text) : (placeholder settings text).NamesAre P := by
  unfold placeholder
  split
  · exact .of_names_eq_nil rfl
  · exact .of_names_eq_nil rfl

theorem namesAre_hashOf {types : List TypeExpr} (h : ∀ t ∈ types, t.NamesAre P) :
    (hashOf settings text types).value.NamesAre P := by
  unfold hashOf
  split
  · exact .container h
  · exact namesAre_placeholder _

theorem namesAre_classOf {inst : TypeExpr} (h : inst.NamesAre P) : (classOf inst).NamesAre P :=
  .container fun _ ht => List.mem_singleton.mp ht ▸ h

theorem namesAre_applyContainer {kind : Container} {types : List TypeExpr}
    (h : ∀ t ∈ types, t.NamesAre P) :
    (applyContainer settings text kind types).value.NamesAre P := by
  unfold applyContainer
  split
  · split
    · exact .container fun _ ht => List.mem_singleton.mp ht ▸ .anyOf h
    · exact .container h
  · split
    · exact namesAre_classOf (h _ List.mem_cons_self)
    · exact .anyOf (List.forall_mem_map.mpr fun t ht => namesAre_classOf (h t ht))
  · exact namesAre_hashOf h

/-! ## Names that are looked up -/

theorem namesAre_bareContainer {name : Text} {type : TypeExpr}
    (h : bareContainer? name = some type) : type.NamesAre P := by
  unfold bareContainer? at h
  split at h
  · cases h
  · split at h
    · cases h
      exact .of_names_eq_nil rfl
    · cases h
      exact .of_names_eq_nil rfl
    · cases h

section Names
variable (hsimple : ∀ name, Name.isSimple name = true → P name)
include hsimple

theorem namesAre_lookUp {scope : Scope} (hscope : scope.PathsAre P) {name : Text}
    (hname : Name.isSimple name = true) : (lookUp settings scope name).value.NamesAre P := by
  unfold lookUp
  split
  · exact .raw (hsimple name hname)
  · split
    · next path hpath => exact .raw (hscope name path hname hpath)
    · simp only [Traced.value_bind, Traced.value_pure]
      split
      · exact .of_names_eq_nil rfl
      · exact .raw (hsimple name hname)

theorem namesAre_convertName (hscope : ∀ s ∈ scope, s.PathsAre P) {name : Text}
    (hname : Name.isSimple name = true) : (convertName settings scope name).value.NamesAre P := by
  unfold convertName
  split
  · next hbare => exact namesAre_bareContainer hbare
  · cases scope with
    | none => exact .raw (hsimple name hname)
    | some s => exact namesAre_lookUp hsimple (hscope s rfl) hname

theorem namesAre_convertDuckType (methods : List Text) :
    (convertDuckType settings text methods).value.NamesAre P := by
  have hinterfaces : ∀ interface ∈ Interface.all, Name.isSimple interface.name = true := by decide
  unfold convertDuckType
  split
  · next interface hfound =>
    have hmem : interface ∈ Interface.all := by
      unfold interfaceFor? at hfound
      split at hfound
      · exact List.mem_of_find?_eq_some hfound
      · cases hfound
    have hname : P interface.name := hsimple _ (hinterfaces interface hmem)
    show (interfaceType interface).NamesAre P
    unfold interfaceType
    split
    · exact .raw hname
    · exact .generic hname fun t ht => List.eq_of_mem_replicate ht ▸ .of_names_eq_nil rfl
  · exact .of_names_eq_nil rfl

/-! ## Texts -/

/-- What a text is read as holds no name but identifiers. -/
theorem Reading.namesAre_convert (hscope : ∀ s ∈ scope, s.PathsAre P)
    (hinner : ∀ part, (inner part).value.NamesAre P) (text : Text) :
    ((Reading.of scope.isSome text).convert settings scope inner text).value.NamesAre P := by
  have hparameters : ∀ parameters, ∀ t ∈ (convertParameters inner parameters).value,
      t.NamesAre P :=
    fun _ => forall_convertParameters (fun _ => NamesAre.anyOf) fun part _ => hinner part
  unfold Reading.of
  split
  · exact .of_names_eq_nil rfl
  split
  · exact .of_names_eq_nil rfl
  split
  · refine .raw (hsimple _ ?_)
    cases settings.dialect <;> decide
  cases hshape : Shape.of text with
  | identifier name =>
    exact namesAre_convertName hsimple hscope (Shape.isSimple_of_identifier hshape)
  | duckType methods => exact namesAre_convertDuckType hsimple methods
  | generic name parameters =>
    unfold Reading.ofShape Reading.ofGeneric
    dsimp only
    split
    · exact namesAre_applyContainer (hparameters parameters)
    · split
      · exact namesAre_placeholder _
      · exact .generic (hsimple _ (Shape.isSimple_of_generic hshape)) (hparameters parameters)
  | orderedList parameters => exact .tuple (hparameters parameters)
  | shorthandHash parameters => exact namesAre_applyContainer (hparameters parameters)
  | shorthandArray parameters =>
    exact .container fun _ ht => List.mem_singleton.mp ht ▸ .anyOf (hparameters parameters)
  | literal kind =>
    refine .raw (hsimple _ ?_)
    cases kind <;> decide
  | unrecognized => exact namesAre_placeholder _

theorem namesAre_convertText (hscope : ∀ s ∈ scope, s.PathsAre P) (allowance : Nat) (text : Text) :
    (convertText settings scope allowance text).value.NamesAre P := by
  induction allowance generalizing text with
  | zero => exact namesAre_placeholder _
  | succ allowance ih =>
    rw [convertText_succ]
    exact Reading.namesAre_convert hsimple hscope ih _

/-! ## Annotations -/

/-- **The names in a converted type are identifiers or paths that the scope knows**: what all of
these have in common, every name in the type has. -/
theorem namesAre_convert (hscope : ∀ s ∈ scope, s.PathsAre P) (tag : Annotation) :
    (convert settings scope tag).value.NamesAre P := by
  have hone : ∀ text, (convertOne settings scope text).value.NamesAre P :=
    namesAre_convertText hsimple hscope _
  cases tag with
  | absent => exact .of_names_eq_nil rfl
  | one text => exact hone text
  | many texts =>
    unfold convert convertWith convertMany
    dsimp only
    split
    · exact .of_names_eq_nil rfl
    · have hany : (anyOf (((texts.filter (!isNilEntry ·)).map (convertOne settings scope)).map
          (·.value))).NamesAre P := .anyOf (forall_value_all fun text _ => hone text)
      simp only [Traced.value_bind, Traced.value_all, Traced.value_pure]
      split
      · exact hany.orNil
      · exact hany

end Names
end Conversion
end DocTypes
