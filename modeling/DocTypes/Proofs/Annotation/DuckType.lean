import DocTypes.Proofs.Annotation.MethodName
import DocTypes.Proofs.Annotation.Recognizers
import DocTypes.Proofs.Text.Rows

/-! # Duck types and their atoms

A duck type asks for methods.  Each of them is an atom, a number sign and the name of a method, and
atoms are joined by ampersands with blanks around each (`ampersandJoined`).

Cutting such a text apart gives the atoms back, because no atom holds an ampersand or a blank, and
every text that is cut apart into atoms was joined in this way (`duckAtoms?_eq_some_iff`).  The one
exception is the ampersand itself, which is a method only when nothing else is asked for.

Operators hold brackets that need not be closed, as those of `#<=>` and `#<<`; no other recognizer
accepts such a text (`Shape.of_eq_duckType`). -/

namespace DocTypes

open Text

/-- A number sign and the name of a method. -/
def duckAtomLanguage : Language Char := among ["#"] * methodLanguage

/-- An atom with blanks around it. -/
structure PaddedAtom where
  before : Blanks
  atom : Text
  asks : atom ∈ duckAtomLanguage
  after : Blanks

namespace PaddedAtom

/-- The atom and the blanks as they are written. -/
def text (p : PaddedAtom) : Text := p.before.text ++ p.atom ++ p.after.text

/-- Atoms with ampersands between them. -/
def ampersandJoined (ps : List PaddedAtom) : Text := ['&'].intercalate (ps.map text)

end PaddedAtom

/-! ## Atoms -/

section Atoms

variable {t : Text}

theorem mem_duckAtomLanguage : t ∈ duckAtomLanguage ↔ Shape.isDuckAtom t = true := by
  rw [duckAtomLanguage, mem_among_singleton_mul]
  constructor
  · rintro ⟨method, hmethod, rfl⟩
    exact mem_methodLanguage.mp hmethod
  · intro h
    unfold Shape.isDuckAtom at h
    split at h
    · next method => exact ⟨method, mem_methodLanguage.mpr h, rfl⟩
    · cases h

/-- No atom is empty, and none holds a blank or an ampersand. -/
theorem plain_of_mem_atom (h : t ∈ duckAtomLanguage) :
    t ≠ [] ∧ ∀ c ∈ t, isBlank c = false ∧ c ≠ '&' := by
  obtain ⟨method, hmethod, rfl⟩ := mem_among_singleton_mul.mp h
  refine ⟨List.cons_ne_nil _ _, List.forall_mem_append.mpr ⟨?_, ?_⟩⟩
  · exact List.forall_mem_singleton.mpr (by decide)
  · exact (plain_of_mem_method hmethod).2

end Atoms

namespace PaddedAtom

/-- Blanks around an atom are trimmed, and the atom stays. -/
theorem trim_text (p : PaddedAtom) : trim p.text = p.atom := by
  rw [text, trim_padded p.before.isBlank_of_mem p.after.isBlank_of_mem]
  exact trim_of_forall fun c hc => ((plain_of_mem_atom p.asks).2 c hc).1

theorem ampersand_not_mem_text (p : PaddedAtom) : '&' ∉ p.text := by
  have hblanks : ∀ blanks : Blanks, '&' ∉ blanks.text := fun blanks hmem =>
    absurd (blanks.isBlank_of_mem '&' hmem) (by decide)
  intro hmem
  rcases List.mem_append.mp hmem with hmem | hafter
  · rcases List.mem_append.mp hmem with hbefore | hatom
    · exact hblanks p.before hbefore
    · exact ((plain_of_mem_atom p.asks).2 '&' hatom).2 rfl
  · exact hblanks p.after hafter

/-- Texts that are atoms once they are trimmed are atoms with blanks around them. -/
theorem exists_map_text {texts : List Text} (h : ∀ t ∈ texts, trim t ∈ duckAtomLanguage) :
    ∃ ps : List PaddedAtom, ps.map text = texts ∧ ps.map atom = texts.map trim := by
  induction texts with
  | nil => exact ⟨[], rfl, rfl⟩
  | cons t texts ih =>
    obtain ⟨ht, htexts⟩ := List.forall_mem_cons.mp h
    obtain ⟨ps, hps, hatoms⟩ := ih htexts
    obtain ⟨before, after, heq, hbefore, hafter⟩ := exists_append_trim_append t
    refine ⟨⟨⟨before, List.all_eq_true.mpr hbefore⟩, trim t, ht,
      ⟨after, List.all_eq_true.mpr hafter⟩⟩ :: ps, ?_, ?_⟩
    · rw [List.map_cons, hps]
      exact congrArg (· :: texts) heq
    · rw [List.map_cons, hatoms, List.map_cons]

/-! ## Cutting what was joined -/

variable {ps : List PaddedAtom}

theorem pieces_joined (hps : ps ≠ []) : pieces (· == '&') (ampersandJoined ps) = ps.map text := by
  have hplain : ∀ t ∈ ps.map text, '&' ∉ t :=
    List.forall_mem_map.mpr fun p _ => p.ampersand_not_mem_text
  rw [pieces_eq_splitOnP]
  exact List.splitOn_intercalate '&' hplain (by simpa using hps)

/-- What is cut where joined atoms are, blanks aside, is a duck type of the same atoms. -/
theorem duckAtoms?_of_pieces {t : Text} (h : (pieces (· == '&') t).map trim = ps.map atom) :
    Shape.duckAtoms? t = some (ps.map atom) := by
  have hatoms : (ps.map atom).all Shape.isDuckAtom = true := by
    rw [List.all_eq_true]
    exact List.forall_mem_map.mpr fun p _ => mem_duckAtomLanguage.mp p.asks
  have hne : t ≠ "#&" := by
    rintro rfl
    -- Nothing stands behind the ampersand, and that is no atom.
    have hnil : [] ∈ ps.map atom := h ▸ by decide
    obtain ⟨p, -, hp⟩ := List.mem_map.mp hnil
    exact (plain_of_mem_atom p.asks).1 hp
  rw [Shape.duckAtoms?, if_neg hne]
  dsimp only
  rw [h, if_pos hatoms]

theorem map_trim_pieces_joined (hps : ps ≠ []) :
    (pieces (· == '&') (ampersandJoined ps)).map trim = ps.map atom := by
  rw [pieces_joined hps, List.map_map]
  exact List.map_congr_left fun p _ => p.trim_text

end PaddedAtom

/-! ## Blanks at the ends -/

namespace Text

variable {cuts : Char → Bool}

/-- Blanks at the ends of a text are at the ends of its first and its last piece, where they make no
difference once the pieces are trimmed. -/
theorem map_trim_pieces_trim (h : ∀ c, isBlank c = true → cuts c = false) (t : Text) :
    (pieces cuts (trim t)).map trim = (pieces cuts t).map trim := by
  obtain ⟨before, after, heq, hbefore, hafter⟩ := exists_append_trim_append t
  have hone : ∀ blanks, (∀ c ∈ blanks, isBlank c = true) → pieces cuts blanks = [] ++ [blanks] :=
    fun blanks hblanks => pieces_of_forall fun c hc => h c (hblanks c hc)
  have hfront : (pieces cuts (before ++ trim t)).map trim = (pieces cuts (trim t)).map trim := by
    obtain ⟨first, rest, hpieces⟩ := List.exists_cons_of_ne_nil (pieces_ne_nil cuts (trim t))
    have hfirst : trim (before ++ first) = trim first := by
      rw [trim, trimStart_append hbefore, trim]
    rw [pieces_append_of_eq (hone before hbefore) hpieces, hpieces, List.nil_append, List.map_cons,
      List.map_cons, hfirst]
  have hback : (pieces cuts (before ++ trim t ++ after)).map trim =
      (pieces cuts (before ++ trim t)).map trim := by
    obtain ⟨front, last, hpieces⟩ :=
      (List.eq_nil_or_concat' _).resolve_left (pieces_ne_nil cuts (before ++ trim t))
    rw [pieces_append_of_eq hpieces (hone after hafter), hpieces, List.map_append, List.map_append,
      List.map_cons, List.map_cons, trim_append hafter]
  rw [← hfront, ← hback, heq]

end Text

/-! ## Joined texts are the duck types -/

namespace Shape

open PaddedAtom

variable {t : Text} {atoms : List Text} {ps : List PaddedAtom}

theorem duckAtoms?_joined (hps : ps ≠ []) : duckAtoms? (ampersandJoined ps) = some (ps.map atom) :=
  duckAtoms?_of_pieces (map_trim_pieces_joined hps)

/-- Trimming does not get a duck type down to the ampersand itself. -/
theorem duckAtoms?_trim_joined (hps : ps ≠ []) :
    duckAtoms? (trim (ampersandJoined ps)) = some (ps.map atom) := by
  refine duckAtoms?_of_pieces ?_
  rw [map_trim_pieces_trim, map_trim_pieces_joined hps]
  intro c hblank
  rw [beq_eq_false_iff_ne]
  rintro rfl
  exact absurd hblank (by decide)

/-- **A text is a duck type of some atoms exactly when it is these atoms joined**, whatever blanks
are around them. -/
theorem duckAtoms?_eq_some_iff (hne : t ≠ "#&") :
    duckAtoms? t = some atoms ↔ ∃ ps, ps ≠ [] ∧ ampersandJoined ps = t ∧ ps.map atom = atoms := by
  constructor
  · intro h
    rw [duckAtoms?, if_neg hne] at h
    dsimp only at h
    split at h
    · next hall =>
      rw [List.all_map, List.all_eq_true] at hall
      obtain ⟨ps, htexts, hatoms⟩ :=
        exists_map_text fun piece hpiece => mem_duckAtomLanguage.mpr (hall piece hpiece)
      refine ⟨ps, ?_, ?_, hatoms.trans (Option.some.inj h)⟩
      · rintro rfl
        exact pieces_ne_nil _ _ htexts.symm
      · rw [ampersandJoined, htexts, pieces_eq_splitOnP]
        exact List.intercalate_splitOn '&'
    · cases h
  · rintro ⟨ps, hps, rfl, rfl⟩
    exact duckAtoms?_joined hps

/-- **No other recognizer takes a duck type**, whatever brackets are in its atoms. -/
theorem of_eq_duckType (h : duckAtoms? t = some atoms) : of t = .duckType atoms := by
  have hread : Recognizer.duckType.read? t = some (.duckType atoms) := by
    rw [Recognizer.read?, h]
    rfl
  rw [of_eq]
  exact Recognizer.firstOf_of_mem (Recognizer.mem_all .duckType) hread

end Shape

end DocTypes
