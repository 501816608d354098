import DocTypes.Proofs.Annotation.Expression
import DocTypes.Proofs.Annotation.Parts

/-! # Brackets around a text without any

A text without brackets and commas may still hold equals signs, as the names of setters and of some
operators do.  Reading it leaves the depth alone, so it is well nested (`Unbracketed.wellNested`) and
brackets around it should enclose it.  They do if the closer does not follow an equals sign directly:
then the text is balanced (`Unbracketed.balanced`), the bracketed annotation is read as its head
says, and its parameters are cut only at the arrow between two such texts
(`Parameters.split_arrow`).

If the text ends in an equals sign, the closer right after it closes nothing, and what the brackets
make has no shape at all (`Shape.of_around_of_equals`). -/

namespace DocTypes

open Level

/-- Whether a text holds neither brackets nor commas. -/
def Unbracketed (t : Text) : Prop :=
  ∀ c ∈ t, Brackets.isOpener c = false ∧ Brackets.isCloser c = false ∧ c ≠ ','

instance : DecidablePred Unbracketed := fun t => List.decidableBAll _ t

namespace Unbracketed

variable {t u : Text} {s : Level}

theorem append (ht : Unbracketed t) (hu : Unbracketed u) : Unbracketed (t ++ u) := by
  intro c hc
  rcases List.mem_append.mp hc with hc | hc
  · exact ht c hc
  · exact hu c hc

theorem trim (h : Unbracketed t) : Unbracketed (Text.trim t) :=
  fun c hc => h c (Text.mem_of_mem_trim hc)

/-- With a space at its end a text ends in no equals sign. -/
theorem spaced (h : Unbracketed t) :
    Unbracketed (t ++ [' ']) ∧ (t ++ [' ']).getLast? ≠ some '=' := by
  refine ⟨h.append (by decide), ?_⟩
  rw [List.getLast?_concat]
  decide

/-! ## Reading -/

theorem wellNested (h : Unbracketed t) : WellNested t :=
  wellNested_iff.mpr (.of_unbracketed rfl fun c hc => ⟨(h c hc).1, (h c hc).2.1⟩)

/-- There are no separators: a comma is none, and an arrow would hold a closer. -/
theorem unseparated (h : Unbracketed t) : Parameters.Unseparated s t := by
  induction t generalizing s with
  | nil => trivial
  | cons c t ih =>
    obtain ⟨⟨-, -, hcomma⟩, ht⟩ := List.forall_mem_cons.mp h
    refine ⟨fun hsep => ?_, ih ht⟩
    rcases hsep.2 with heq | ⟨-, hhead⟩
    · exact hcomma heq
    · have harrow := (ht '>' (List.mem_of_mem_head? hhead)).2.1
      cases harrow

/-- Unless it ends in an equals sign, a text without brackets is balanced. -/
theorem balanced (h : Unbracketed t) (hend : t.getLast? ≠ some '=') : Balanced t :=
  balanced_iff.mpr ⟨h.wellNested, hend⟩

end Unbracketed

/-! ## Cutting -/

namespace Parameters

variable {t key value : Text}

/-- A text without brackets is cut where the text after it is. -/
theorem cut_unbracketed (h : Unbracketed t) (hend : t.getLast? ≠ some '=') (rest : Text) :
    cut 0 false (t ++ rest) = ⟨t ++ (cut 0 false rest).first, (cut 0 false rest).others⟩ :=
  cut_balanced (h.balanced hend) h.unseparated rest

theorem cut_unbracketed_self (h : Unbracketed t) (hend : t.getLast? ≠ some '=') :
    cut 0 false t = ⟨t, []⟩ := by
  simpa [cut] using cut_unbracketed h hend []

/-- A text without brackets is a parameter as a whole. -/
theorem split_unbracketed (h : Unbracketed t) (hend : t.getLast? ≠ some '=') :
    split t = [[Text.trim t]] := by
  rw [split, cut_unbracketed_self h hend]
  rfl

/-- What an arrow stands between are the parameters on either side of it. -/
theorem split_arrow (hkey : Unbracketed key) (hkeyEnd : key.getLast? ≠ some '=')
    (hvalue : Unbracketed value) (hvalueEnd : value.getLast? ≠ some '=') :
    split (key ++ '=' :: '>' :: value) = [[Text.trim key], [Text.trim value]] := by
  have harrow : cut 0 false ('=' :: '>' :: value) = ⟨[], [(.arrow, value)]⟩ := by
    rw [cut, if_pos rfl, cut_unbracketed_self hvalue hvalueEnd]
    rfl
  have hcut : cut 0 false (key ++ '=' :: '>' :: value) = ⟨key, [(.arrow, value)]⟩ := by
    rw [cut_unbracketed hkey hkeyEnd, harrow, List.append_nil]
  have hgroups : Cut.groups ⟨key, [(.arrow, value)]⟩ = [[key], [value]] := rfl
  rw [split, hcut, hgroups]
  rfl

end Parameters

end DocTypes
