import DocTypes.Proofs.Annotation.DuckType
import DocTypes.Proofs.Conversion.Flat
import DocTypes.Proofs.Conversion.Names
import DocTypes.Resolver.Conversion

/-! # Duck types are converted everywhere

Atoms that are joined are read back as just these atoms, and whatever the surroundings and the
settings are, they are converted to a type without a placeholder, with one diagnostic and no warning
(`IsDuckType`, `isDuckType_joined`).  No keyword is asked first, for none holds a number sign, and a
duck type never looks a name up, so that nothing about the index can come in between. -/

namespace DocTypes

open PaddedAtom

/-- What is a duck type of some atoms to every reader. -/
structure IsDuckType (t : Text) (atoms : List Text) : Prop where
  recognized : Shape.duckAtoms? t = some atoms
  shape : Shape.of t = .duckType atoms
  typed : ∀ (settings : Settings) (scope : Option Scope),
    (Conversion.convert settings scope (.one t)).value.containsError = false
  noted : ∀ (settings : Settings) (scope : Option Scope), ∃ f : Finding, f.kind = .duckType ∧
    (Conversion.convert settings scope (.one t)).notes = [.finding f]
  /-- The only thing that is reported, with a resolver in any state and for any entity. -/
  reported : ∀ (r : Resolver) (files : FileSystem) (settings : Settings)
    (entity? : Option EntityId), ∃ d, d.kind = .duckType ∧
      (r.convert files settings entity? (.one t)).diagnostics = [d]

namespace Conversion

variable {settings : Settings} {scope : Option Scope} {ps : List PaddedAtom}

/-- Converting a duck type is noted once, whether or not there is an interface for it. -/
theorem notes_convertDuckType (settings : Settings) (text : Text) (methods : List Text) :
    ∃ f : Finding, f.kind = .duckType ∧
      (convertDuckType settings text methods).notes = [.finding f] := by
  unfold convertDuckType
  split
  · exact ⟨_, rfl, rfl⟩
  · exact ⟨_, rfl, rfl⟩

/-- No keyword begins as a duck type does. -/
theorem not_isKeyword_of_duckAtoms? {t : Text} {atoms : List Text}
    (h : Shape.duckAtoms? t = some atoms) : Keyword.isKeyword t = false := by
  obtain ⟨c, cs, rfl, hstart⟩ := Shape.exists_of_duckAtoms? h
  have hpart : Name.isWordPart c = false := by
    rcases hstart with hblank | rfl
    · exact (Bool.or_eq_false_iff.mp (not_isPathPart_of_isBlank hblank)).1
    · decide
  exact Keyword.isKeyword_of_mem List.mem_cons_self hpart

/-- **Joined atoms are converted as the duck type of these atoms**, in any scope. -/
theorem convertOne_joined (hps : ps ≠ []) :
    convertOne settings scope (ampersandJoined ps) =
      convertDuckType settings (Text.trim (ampersandJoined ps)) (ps.map atom) := by
  have hatoms := Shape.duckAtoms?_trim_joined hps
  rw [convertOne, convertText_succ, Reading.of_eq_ofShape (not_isKeyword_of_duckAtoms? hatoms),
    Shape.of_eq_duckType hatoms]
  rfl

end Conversion

theorem isDuckType_of_ne_nil {ps : List PaddedAtom} (hps : ps ≠ []) :
    IsDuckType (ampersandJoined ps) (ps.map atom) where
  recognized := Shape.duckAtoms?_joined hps
  shape := Shape.of_eq_duckType (Shape.duckAtoms?_joined hps)
  typed := fun settings scope => by
    show (Conversion.convertOne settings scope (ampersandJoined ps)).value.containsError = false
    rw [Conversion.convertOne_joined hps]
    exact (Conversion.flat_convertDuckType _ _).containsError_eq
  noted := fun settings scope => by
    show ∃ f : Finding, _ ∧ (Conversion.convertOne settings scope (ampersandJoined ps)).notes = _
    rw [Conversion.convertOne_joined hps]
    exact Conversion.notes_convertDuckType _ _ _
  reported := fun r files settings entity? => by
    obtain ⟨f, hkind, hnotes⟩ :=
      Conversion.notes_convertDuckType settings (Text.trim (ampersandJoined ps)) (ps.map atom)
    refine ⟨f.diagnostic ((r.scopeFor files entity?).map (·.path)), hkind, ?_⟩
    rw [Resolver.convert, Resolver.diagnostics_answer]
    show Resolver.settle _ _ (Conversion.convertOne settings _ (ampersandJoined ps)).notes = _
    rw [Conversion.convertOne_joined hps, hnotes]
    rfl

/-- **Duck types are taken apart in one way.**  Atoms that are joined, with any blanks around each, are
a duck type of just these atoms to every reader, and a text that is cut apart into atoms is these
atoms joined, unless it is the ampersand alone. -/
theorem isDuckType_joined :
    (∀ ps : List PaddedAtom, ps ≠ [] → IsDuckType (ampersandJoined ps) (ps.map atom)) ∧
      ∀ (t : Text) (atoms : List Text), Shape.duckAtoms? t = some atoms → t ≠ "#&" →
        ∃ ps : List PaddedAtom, ps ≠ [] ∧ ampersandJoined ps = t ∧ ps.map atom = atoms :=
  ⟨fun _ hps => isDuckType_of_ne_nil hps,
    fun _ _ hatoms hne => (Shape.duckAtoms?_eq_some_iff hne).mp hatoms⟩

/-- Operators of brackets and of equals signs, and a text with blanks of several kinds. -/
theorem isDuckType_joined_operators :
    let tab : Blanks := ⟨"\t ", rfl⟩
    let ps : List PaddedAtom :=
      [⟨tab, "#<=>", mem_duckAtomLanguage.mpr (by decide), .none⟩,
        ⟨.none, "#<<", mem_duckAtomLanguage.mpr (by decide), tab⟩,
        ⟨.none, "#value=", mem_duckAtomLanguage.mpr (by decide), .none⟩]
    ampersandJoined ps = "\t #<=>&#<<\t &#value=" ∧
      IsDuckType (ampersandJoined ps) ["#<=>", "#<<", "#value="] ∧
      ∃ qs : List PaddedAtom, qs ≠ [] ∧ ampersandJoined qs = "#[] & #empty?" ∧
        qs.map atom = ["#[]", "#empty?"] := by
  intro tab ps
  have hother : Shape.duckAtoms? "#[] & #empty?" = some (["#[]", "#empty?"] : List Text) := by
    decide
  exact ⟨rfl, isDuckType_joined.1 ps (List.cons_ne_nil _ _),
    isDuckType_joined.2 _ _ hother (by decide)⟩

end DocTypes
