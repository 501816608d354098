import DocTypes.Diagnostic

/-! # Journals

A journal keeps every diagnostic of a run, in order, and beside them those of the kinds that a
user selected.  Counts are taken over all of them; the log shows the selected ones only. -/

namespace DocTypes

/-- The diagnostics of a run. -/
structure Journal where
  /-- The kinds that the user wants to see. -/
  selected : List DiagnosticKind
  /-- Everything that was reported, in order. -/
  all : List Diagnostic
  /-- What was reported of the selected kinds, in order. -/
  kept : List Diagnostic

namespace Journal

/-- A journal without entries. -/
def opening (selected : List DiagnosticKind) : Journal := ⟨selected, [], []⟩

/-- Enters a diagnostic. -/
def add (j : Journal) (d : Diagnostic) : Journal :=
  ⟨j.selected, j.all ++ [d], if d.kind ∈ j.selected then j.kept ++ [d] else j.kept⟩

/-- Enters several diagnostics, in order. -/
def addAll (j : Journal) (ds : List Diagnostic) : Journal := ds.foldl add j

/-- Forgets the diagnostics of the selected kinds. -/
def clearKept (j : Journal) : Journal := { j with kept := [] }

/-- The diagnostics of one kind among several. -/
def ofKind (kind : DiagnosticKind) (ds : List Diagnostic) : List Diagnostic :=
  ds.filter (·.kind == kind)

/-- How many diagnostics of a kind were reported. -/
def count (j : Journal) (kind : DiagnosticKind) : Nat := (ofKind kind j.all).length

/-- The log of a run. -/
def log (j : Journal) : List LogRow := j.kept.map (·.logRow)

end Journal
end DocTypes
