import DocTypes.Proofs.Signature.Run
import DocTypes.Proofs.Signature.Written

/-! # Scanning undoes writing

A scan over lines that were written gives the declarations that were written
(`Signature.scan_written`).  The argument goes along the nesting.  Rows are said to add declarations
(`Scan.State.Adds`) when a scan over their lines adds these wherever it stands, and leaves all frames
that are open as they were.  Rows of this kind can stand one after another (`Adds.append`) and in a
frame (`Adds.nested`), and so the rows of a declaration add it. -/

namespace DocTypes

namespace Scan.State

variable {format : SignatureFormat}

/-! ## Rows that add declarations -/

/-- Whether a scan over lines that are read as the given rows adds the given declarations. -/
def Adds (format : SignatureFormat) (rows : List Row) (signatures : List Signature) : Prop :=
  ∀ (s : State) (number : Nat) (lines : List Text),
    lines.map (LineEvent.of format) = rows.map (fun row => [row.event]) →
      s.run format number lines = .ok (s.addAll signatures)

variable {rows rows' : List Row} {signatures signatures' : List Signature}

theorem Adds.nil : Adds format [] [] := by
  intro s number lines h
  rw [List.map_eq_nil_iff.mp h]
  rfl

theorem Adds.append (h : Adds format rows signatures) (h' : Adds format rows' signatures') :
    Adds format (rows ++ rows') (signatures ++ signatures') := by
  intro s number lines hlines
  rw [List.map_append] at hlines
  obtain ⟨front, back, rfl, hfront, hback⟩ := List.map_eq_append_iff.mp hlines
  have hfirst : Contributes format front signatures := fun s number => h s number front hfront
  exact hfirst.append (fun s number => h' s number back hback) s number

theorem Adds.constant (name : Text) :
    Adds format [.constant name] [.leaf .constantDef name] := by
  intro s number lines hlines
  obtain ⟨line, rest, rfl, hline, hrest⟩ := List.map_eq_cons_iff.mp hlines
  rw [List.map_eq_nil_iff.mp hrest, run, hline]
  rfl

/-- **Rows between a heading and an ending add their declarations to that of the heading.** -/
theorem Adds.nested (h : Adds format rows signatures) (kind : SignatureKind) (name : Text) :
    Adds format (.heading kind name :: (rows ++ [.ending])) [.node kind name signatures] := by
  intro s number lines hlines
  rw [List.map_cons, List.map_append] at hlines
  -- The lines are one for the heading, those in between, and one for the ending.
  obtain ⟨opening, rest, rfl, hopening, hrest⟩ := List.map_eq_cons_iff.mp hlines
  obtain ⟨inner, closing, rfl, hinner, hclosing⟩ := List.map_eq_append_iff.mp hrest
  obtain ⟨last, none, rfl, hlast, hnone⟩ := List.map_eq_cons_iff.mp hclosing
  obtain rfl := List.map_eq_nil_iff.mp hnone
  have hinside : Contributes format inner signatures := fun s number => h s number inner hinner
  have hopens : Opens format opening [] (.declaration kind name) := by
    intro s number text
    rw [hopening]
    rfl
  exact hinside.frame hopens hlast s number

theorem Adds.rowsOf {forest : List Signature} (h : ∀ m ∈ forest, Adds format m.rows [m]) :
    Adds format (rowsOf forest) forest := by
  induction forest with
  | nil => exact .nil
  | cons m forest ih =>
    obtain ⟨hm, hforest⟩ := List.forall_mem_cons.mp h
    exact hm.append (ih hforest)

/-- **The rows of a declaration that can be written add it.** -/
theorem adds_rows {signature : Signature} (h : signature.Writable format) :
    Adds format signature.rows [signature] := by
  induction h with
  | @node kind name members allowed leaf members_writable ih =>
    rw [Signature.rows]
    split
    · next hconstant =>
      subst hconstant
      rw [leaf rfl]
      exact .constant name
    · exact (Adds.rowsOf ih).nested kind name

end Scan.State

/-! ## The rows of what can be written -/

variable {format : SignatureFormat} {forest : List Signature}

theorem mem_rowsOf {row : Row} : row ∈ rowsOf forest ↔ ∃ m ∈ forest, row ∈ m.rows := by
  induction forest with
  | nil => simp [rowsOf]
  | cons m forest ih => simp [rowsOf, ih]

namespace Signature

theorem writable_of_mem_rows {signature : Signature} (h : signature.Writable format) :
    ∀ row ∈ signature.rows, row.Writable format := by
  induction h with
  | @node kind name members allowed leaf members_writable ih =>
    rw [rows]
    split
    · next hconstant =>
      subst hconstant
      exact List.forall_mem_singleton.mpr allowed
    · next hkind =>
      refine List.forall_mem_cons.mpr ⟨⟨hkind, allowed⟩, ?_⟩
      refine List.forall_mem_append.mpr ⟨fun row hrow => ?_, List.forall_mem_singleton.mpr trivial⟩
      obtain ⟨m, hm, hrow⟩ := mem_rowsOf.mp hrow
      exact ih m hm row hrow

theorem writable_of_mem_rowsOf (h : ∀ m ∈ forest, m.Writable format) :
    ∀ row ∈ rowsOf forest, row.Writable format := by
  intro row hrow
  obtain ⟨m, hm, hrow⟩ := mem_rowsOf.mp hrow
  exact writable_of_mem_rows (h m hm) row hrow

/-- Each line that is written is read as its row. -/
theorem map_writtenLines (layout : Nat → Layout format) (h : ∀ m ∈ forest, m.Writable format) :
    (writtenLines layout forest).map (LineEvent.of format) =
      (rowsOf forest).map fun row => [row.event] := by
  refine List.ext_getElem (by simp [writtenLines]) fun number hnumber hrow => ?_
  have hwritable := writable_of_mem_rowsOf h _ (List.getElem_mem (List.length_map _ ▸ hrow))
  simp only [writtenLines, List.getElem_map, List.getElem_mapIdx]
  exact (layout number).of_line hwritable

/-- What is written has just the lines that were written. -/
theorem lines_written (layout : Nat → Layout format) (h : ∀ m ∈ forest, m.Writable format) :
    (written layout forest).lines = writtenLines layout forest := by
  refine Text.lines_unlines fun line hline => ?_
  obtain ⟨number, hnumber, rfl⟩ := List.mem_mapIdx.mp hline
  exact (layout number).not_isLineEnd_of_mem (writable_of_mem_rowsOf h _ (List.getElem_mem hnumber))

/-- **Scanning undoes writing.**  In either format, scanning the lines of modules, classes,
interfaces and constants gives these with their names, kinds, order and nesting, whatever the layout
of each line, and whether each line ends in a line feed or the lines are put together otherwise. -/
theorem scan_written (h : ∀ m ∈ forest, m.Writable format) (layout : Nat → Layout format) :
    scan format (written layout forest) = .ok forest ∧
      ∀ source : Text, source.lines = writtenLines layout forest → scan format source = .ok forest := by
  have hscan : ∀ source : Text, source.lines = writtenLines layout forest →
      scan format source = .ok forest := by
    intro source hsource
    have hadds := Scan.State.Adds.rowsOf fun m hm => Scan.State.adds_rows (h m hm)
    have hrun := hadds .start 1 (writtenLines layout forest) (map_writtenLines layout h)
    rw [scan, hsource, hrun, Scan.State.start, Scan.State.addAll_topLevel]
    rfl
  exact ⟨hscan _ (lines_written layout h), hscan⟩

/-- An interface and a class with an absolute name, and in the class a constant in a module and a
constant after it, with other line ends and none after the last line. -/
theorem scan_written_nested :
    scan .rbs ("interface _Each\r\n end\n  class ::A::B\nmodule C\r\n D: Integer\n  end\n" ++
        "E: Integer\n end") =
      .ok [.node .interfaceDef "_Each" [],
        .node .classDef "::A::B" [.node .moduleDef "C" [.leaf .constantDef "D"],
          .leaf .constantDef "E"]] := by
  have hconstant : ∀ {c : Char}, Name.isSimple [c] = true → c.isUpper = true →
      (leaf .constantDef [c]).Writable .rbs := fun hsimple hupper =>
    .node ⟨hsimple, _, [], hupper, .inl rfl⟩ (fun _ => rfl) fun m hm => by cases hm
  have hinterface : (leaf .interfaceDef "_Each").Writable .rbs :=
    .node ⟨rfl, "Each", rfl, List.all_eq_true.mp rfl⟩ (fun _ => rfl) fun m hm => by cases hm
  have hmodule : (node .moduleDef "C" [leaf .constantDef "D"]).Writable .rbs :=
    .node rfl (fun heq => by cases heq) (List.forall_mem_singleton.mpr (hconstant rfl rfl))
  have hclass : (node .classDef "::A::B"
      [.node .moduleDef "C" [.leaf .constantDef "D"], .leaf .constantDef "E"]).Writable .rbs :=
    .node rfl (fun heq => by cases heq)
      (List.forall_mem_cons.mpr ⟨hmodule, List.forall_mem_singleton.mpr (hconstant rfl rfl)⟩)
  have hwritten := scan_written
    (List.forall_mem_cons.mpr ⟨hinterface, List.forall_mem_singleton.mpr hclass⟩)
    fun number => .spaced (number % 3) "Integer" (Text.forall_of_any rfl) (by decide)
  exact hwritten.2 _ (by decide +kernel)

end Signature
end DocTypes
