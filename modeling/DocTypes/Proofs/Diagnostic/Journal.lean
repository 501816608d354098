import DocTypes.Diagnostic.Journal

/-! # What a journal holds after a run

A journal is filled one diagnostic after the other (`Journal.add`).  After a run it holds all that
was reported, in order, and beside it what is left of that when the kinds that were not selected are
taken out (`Journal.addAll_eq`).  So the counts of a run do not depend on the selection, and its log
is the log of everything, less the rows of the other kinds (`Journal.log_addAll`). -/

namespace DocTypes
namespace Journal

variable {selected : List DiagnosticKind} {ds : List Diagnostic}

/-- A diagnostic is kept if its kind is selected. -/
theorem kept_add (j : Journal) (d : Diagnostic) :
    (j.add d).kept = j.kept ++ [d].filter fun d => d.kind ∈ j.selected := by
  by_cases h : d.kind ∈ j.selected <;> simp [add, h]

/-- **What a journal holds after diagnostics were entered**: they follow what was there, and of
those that are kept only the selected ones. -/
theorem addAll_eq (j : Journal) (ds : List Diagnostic) :
    j.addAll ds =
      ⟨j.selected, j.all ++ ds, j.kept ++ ds.filter fun d => d.kind ∈ j.selected⟩ := by
  induction ds generalizing j with
  | nil => simp [addAll]
  | cons d ds ih =>
    -- The first diagnostic goes in alone, and the rest into what it leaves.
    have hstep : j.addAll (d :: ds) = (j.add d).addAll ds := rfl
    have hselected : (j.add d).selected = j.selected := rfl
    have hall : (j.add d).all = j.all ++ [d] := rfl
    rw [hstep, ih, hselected, hall, kept_add, List.append_assoc, List.append_assoc,
      ← List.filter_append]
    rfl

/-- Everything is counted, selected or not. -/
theorem count_addAll (kind : DiagnosticKind) :
    ((opening selected).addAll ds).count kind = (ofKind kind ds).length := by
  rw [addAll_eq]
  rfl

/-- The log of a run shows what was reported of the selected kinds. -/
theorem log_addAll :
    ((opening selected).addAll ds).log =
      (ds.map (·.logRow)).filter fun row => row.kind ∈ selected := by
  rw [addAll_eq, log, List.filter_map]
  rfl

end Journal
end DocTypes
