import DocTypes.Proofs.Signature.Line
import DocTypes.Proofs.Signature.Pruning
import DocTypes.Proofs.Text.Rows

/-! # Layout and comments

Of a signature file only what its lines hold counts, blanks at their ends and comments aside.  So a
file may be laid out anew, and comments may be put behind its lines, and a scan gives just what it
gave before (`Retouched`).  Where lines that hold nothing are added as well (`Interspersed`), the
declarations are the same, and so is the fault, though it may be on a line of another number
(`Signature.scan_retouched`).

A file is scanned here by its rows, which give the same result as its lines
(`Signature.scan_eq_rows`). -/

namespace DocTypes

/-! ## Changes of a source -/

/-- Whether a line is blank, or the first of its characters that is not blank is a number sign. -/
def SignatureLine.IsIdle (line : Text) : Prop :=
  '\n' ∉ line ∧ ∃ blanks rest, line = blanks ++ rest ∧ (∀ c ∈ blanks, Text.isBlank c = true) ∧
    (rest = [] ∨ ∃ comment, rest = '#' :: comment)

/-- Whether a source is another one with one of its lines laid out anew: it has other blanks in front
or at its end, ends in a carriage return as well, or has a comment behind it. -/
inductive Retouched : Text → Text → Prop where
  | leading {before blanks blanks' line : Text} (start : before.LineStart)
      (spacing : blanks.IsSpacing) (spacing' : blanks'.IsSpacing) :
      Retouched (before ++ (blanks ++ line)) (before ++ (blanks' ++ line))
  | trailing {line blanks blanks' after : Text} (spacing : blanks.IsSpacing)
      (spacing' : blanks'.IsSpacing) (ends : after.LineEnd) :
      Retouched (line ++ blanks ++ after) (line ++ blanks' ++ after)
  | carriageReturn (line below : Text) :
      Retouched (line ++ '\n' :: below) (line ++ '\r' :: '\n' :: below)
  | comment {line comment after : Text} (oneLine : '\n' ∉ comment) (ends : after.LineEnd) :
      Retouched (line ++ after) (line ++ ' ' :: '#' :: comment ++ after)

/-- Whether a source is another one with one line more, which is blank or a comment. -/
inductive Interspersed : Text → Text → Prop where
  | above {before line after : Text} (start : before.LineStart) (idle : SignatureLine.IsIdle line) :
      Interspersed (before ++ after) (before ++ line ++ '\n' :: after)
  | atEnd {before line : Text} (idle : SignatureLine.IsIdle line) :
      Interspersed before (before ++ '\n' :: line)

/-- Whether a source is another one with one of its lines laid out anew, or with one line more that
holds nothing. -/
def Relaid (source source' : Text) : Prop := Retouched source source' ∨ Interspersed source source'

/-! ## What a line holds -/

namespace SignatureLine

variable {line t before after : Text} {c : Char}

/-- Blanks around a line do not count. -/
theorem strip_padded (hbefore : ∀ c ∈ before, Text.isBlank c = true)
    (hafter : ∀ c ∈ after, Text.isBlank c = true) : strip (before ++ line ++ after) = strip line := by
  rw [strip, strip, Text.trim_padded hbefore hafter]

theorem strip_append (hafter : ∀ c ∈ after, Text.isBlank c = true) (line : Text) :
    strip (line ++ after) = strip line := strip_padded (fun _ hc => absurd hc List.not_mem_nil) hafter

theorem strip_blank (h : ∀ c ∈ t, Text.isBlank c = true) : strip t = [] := strip_append h []

/-- What begins with a number sign is a comment. -/
theorem strip_of_sign (hbefore : ∀ c ∈ before, Text.isBlank c = true) (t : Text) :
    strip (before ++ '#' :: t) = [] := by
  have htrim : Text.trim (before ++ '#' :: t) = '#' :: Text.trimEnd t := by
    rw [Text.trim, Text.trimStart_append hbefore, ← Text.trim, Text.trim_cons rfl]
  rw [strip, htrim]
  exact if_pos rfl

/-- A line that is blank or a comment holds nothing. -/
theorem IsIdle.strip_eq (h : IsIdle line) : strip line = [] := by
  obtain ⟨-, blanks, rest, rfl, hblanks, rfl | ⟨comment, rfl⟩⟩ := h
  · rw [List.append_nil, strip_blank hblanks]
  · exact strip_of_sign hblanks comment

/-- What begins with anything else is cut off where a comment begins. -/
theorem strip_of_ne_sign (hbefore : ∀ c ∈ before, Text.isBlank c = true)
    (hc : Text.isBlank c = false) (hsign : c ≠ '#') (t : Text) :
    strip (before ++ c :: t) = Text.trimEnd (Text.before " #" (c :: Text.trimEnd t)) := by
  have htrim : Text.trim (before ++ c :: t) = c :: Text.trimEnd t := by
    rw [Text.trim, Text.trimStart_append hbefore, ← Text.trim, Text.trim_cons hc]
  have hstart : Text.startsWith (c :: Text.trimEnd t) "#" = false :=
    Text.startsWith_cons_of_ne hsign
  unfold strip
  rw [htrim]
  dsimp only
  rw [hstart, if_neg Bool.false_ne_true]

/-- Whether a comment begins at a character does not depend on what follows, unless that begins with
a number sign. -/
theorem startsWith_comment_append (h : after.head? ≠ some '#') (c : Char) (t : Text) :
    Text.startsWith (c :: (t ++ after)) " #" = Text.startsWith (c :: t) " #" := by
  cases t with
  | cons d t => simp [Text.startsWith, List.isPrefixOf]
  | nil =>
    cases after with
    | nil => rfl
    | cons d after =>
      have hd : d ≠ '#' := fun hd => h (congrArg some hd)
      simp [Text.startsWith, List.isPrefixOf, Ne.symm hd]

theorem before_append_comment (t comment : Text) :
    Text.before " #" (t ++ ' ' :: '#' :: comment) = Text.before " #" t := by
  induction t with
  | nil => rfl
  | cons c t ih =>
    have hspace : (' ' :: '#' :: comment).head? ≠ some '#' := by simp
    rw [List.cons_append, Text.before, Text.before, startsWith_comment_append hspace, ih]

/-- Blanks at the end are kept up to where a comment begins. -/
theorem exists_before_append (h : ∀ c ∈ after, Text.isBlank c = true) (t : Text) :
    ∃ blanks, (∀ c ∈ blanks, Text.isBlank c = true) ∧
      Text.before " #" (t ++ after) = Text.before " #" t ++ blanks := by
  have hnone : after.head? ≠ some '#' := by
    intro hsome
    cases h _ (List.mem_of_mem_head? hsome)
  induction t with
  | nil =>
    obtain ⟨rest, hrest, -⟩ := cutOff_before after
    refine ⟨Text.before " #" after, fun c hc => h c ?_, rfl⟩
    rw [hrest]
    exact List.mem_append_left _ hc
  | cons c t ih =>
    obtain ⟨blanks, hblanks, heq⟩ := ih
    rw [List.cons_append, Text.before, Text.before, startsWith_comment_append hnone, heq]
    split
    · exact ⟨[], fun _ hc => absurd hc List.not_mem_nil, rfl⟩
    · exact ⟨blanks, hblanks, rfl⟩

/-- Blanks at the end may be dropped before a comment is, or afterwards. -/
theorem trimEnd_before_trimEnd (t : Text) :
    Text.trimEnd (Text.before " #" (Text.trimEnd t)) = Text.trimEnd (Text.before " #" t) := by
  obtain ⟨after, ht, hafter⟩ := Text.exists_trimEnd_append t
  obtain ⟨blanks, hblanks, hbefore⟩ := exists_before_append hafter (Text.trimEnd t)
  rw [← ht] at hbefore
  rw [hbefore, Text.trimEnd_append hblanks]

/-- **A comment behind a line does not count.** -/
theorem strip_comment (line comment : Text) : strip (line ++ ' ' :: '#' :: comment) = strip line := by
  obtain ⟨blanks, rest, rfl, hblanks, hrest⟩ : ∃ blanks rest, line = blanks ++ rest ∧
      (∀ c ∈ blanks, Text.isBlank c = true) ∧ ∀ c ∈ rest.head?, Text.isBlank c = false := by
    refine ⟨line.takeWhile Text.isBlank, line.dropWhile Text.isBlank,
      List.takeWhile_append_dropWhile.symm, List.all_eq_true.mp List.all_takeWhile, ?_⟩
    intro c hc
    have hhead := List.head?_dropWhile_not Text.isBlank line
    rw [hc] at hhead
    exact hhead
  cases rest with
  | nil =>
    have hspace : ∀ c ∈ blanks ++ [' '], Text.isBlank c = true :=
      List.forall_mem_append.mpr ⟨hblanks, List.forall_mem_singleton.mpr rfl⟩
    have hcomment := strip_of_sign hspace comment
    rw [List.append_assoc] at hcomment
    rw [List.append_nil, strip_blank hblanks]
    exact hcomment
  | cons c rest =>
    have hc := hrest c rfl
    rw [List.append_assoc, List.cons_append]
    by_cases hsign : c = '#'
    · subst hsign
      rw [strip_of_sign hblanks, strip_of_sign hblanks]
    · have htrimEnd : Text.trimEnd (c :: (rest ++ ' ' :: '#' :: comment)) =
          (c :: rest) ++ ' ' :: '#' :: Text.trimEnd comment := by
        have hend := @Text.trimEnd_append_cons '#' rfl (c :: rest ++ [' ']) comment
        simpa using hend
      rw [strip_of_ne_sign hblanks hc hsign, strip_of_ne_sign hblanks hc hsign,
        ← Text.trimEnd_cons hc, ← Text.trimEnd_cons hc, htrimEnd, before_append_comment,
        trimEnd_before_trimEnd]

end SignatureLine

/-! ## Scanning by rows -/

namespace Signature

open SignatureLine (strip)

variable {format : SignatureFormat} {source source' : Text} {lines lines' : List Text}

/-- A scan depends on nothing but what the lines hold. -/
theorem scanLines_congr (h : lines.map strip = lines'.map strip) :
    scanLines format lines = scanLines format lines' := by
  have hrun : ∀ (s : Scan.State) (number : Nat),
      s.run format number lines = s.run format number lines' := by
    induction lines generalizing lines' with
    | nil =>
      obtain rfl := List.map_eq_nil_iff.mp h.symm
      exact fun _ _ => rfl
    | cons line lines ih =>
      obtain ⟨line', rest, rfl, hline, hrest⟩ := List.map_eq_cons_iff.mp h.symm
      intro s number
      have hevents : LineEvent.of format line = LineEvent.of format line' := by
        rw [LineEvent.of_eq, LineEvent.of_eq, hline]
      rw [Scan.State.run_eq_bind, Scan.State.run_eq_bind, hevents, hline]
      simp only [ih hrest.symm]
  rw [scanLines, scanLines, hrun]

/-- A line that holds nothing contributes nothing. -/
theorem contributes_of_strip_eq_nil {line : Text} (h : strip line = []) :
    Scan.State.Contributes format [line] [] := by
  intro s number
  have hevents : LineEvent.of format line = [] := by
    unfold LineEvent.of
    rw [h]
    rfl
  rw [Scan.State.run, hevents]
  rfl

/-- A file is scanned row by row. -/
theorem scan_eq_rows (format : SignatureFormat) (source : Text) :
    scan format source = scanLines format source.rows := by
  obtain ⟨extra, hextra, hrows⟩ := Text.exists_lines_append_rows source
  have hsame : (source.lines ++ extra).map strip = source.rows.map strip := by
    generalize source.lines ++ extra = lines at hrows ⊢
    generalize source.rows = rows at hrows ⊢
    induction hrows with
    | nil => rfl
    | cons hrow _ ih =>
      rw [List.map_cons, List.map_cons, ih]
      rcases hrow with rfl | rfl
      · rfl
      · rw [SignatureLine.strip_append (List.forall_mem_singleton.mpr rfl)]
  rw [scan_eq, ← scanLines_congr hsame]
  rcases hextra with rfl | rfl
  · rw [List.append_nil]
  · have hempty : ∀ s number, Scan.State.run format s number [[]] = .ok s :=
      fun s number => contributes_of_strip_eq_nil rfl s number
    rw [scanLines, scanLines, Scan.State.run_append_eq_bind]
    simp only [hempty]
    cases Scan.State.start.run format 1 source.lines <;> rfl

/-- Blanks in front of a line do not count. -/
theorem strip_rows_leading {before blanks : Text} (start : before.LineStart)
    (spacing : blanks.IsSpacing) (line : Text) :
    (Text.rows (before ++ (blanks ++ line))).map strip = (Text.rows (before ++ line)).map strip := by
  obtain ⟨above, habove⟩ := start.exists_rows
  obtain ⟨row, below, hline⟩ := List.exists_cons_of_ne_nil (Text.pieces_ne_nil (· == '\n') line)
  have hblanks : Text.pieces (· == '\n') blanks = [] ++ [blanks] := spacing.rows_eq
  have hrows : Text.rows (blanks ++ line) = (blanks ++ row) :: below :=
    Text.pieces_append_of_eq hblanks hline
  have hstrip : strip (blanks ++ row) = strip row := by
    rw [← List.append_nil (blanks ++ row)]
    exact SignatureLine.strip_padded (fun c hc => (spacing c hc).1) (by simp)
  have hplain : Text.rows line = row :: below := hline
  rw [habove, habove, hrows, hplain, List.map_append, List.map_append, List.map_cons, List.map_cons,
    hstrip]

/-- What does not count behind any line does not count behind this one. -/
theorem strip_rows_trailing {more after : Text} (honeLine : '\n' ∉ more) (ends : after.LineEnd)
    (hmore : ∀ row, strip (row ++ more) = strip row) (line : Text) :
    (Text.rows (line ++ more ++ after)).map strip = (Text.rows (line ++ after)).map strip := by
  obtain ⟨ending, below, hending, hafter⟩ := ends.exists_rows
  obtain ⟨front, last, hline⟩ := Text.exists_rows_eq_concat line
  have hrows : Text.rows (line ++ more) = front ++ [last ++ more] :=
    Text.pieces_append_of_eq hline (Text.rows_eq_singleton honeLine)
  rw [hafter _ _ _ hrows, hafter _ _ _ hline, List.map_append, List.map_append, List.map_cons,
    List.map_cons, SignatureLine.strip_append hending, SignatureLine.strip_append hending, hmore]

/-- **A file that is retouched has the same result.** -/
theorem scan_of_retouched (h : Retouched source source') :
    scan format source' = scan format source := by
  rw [scan_eq_rows, scan_eq_rows]
  refine scanLines_congr ?_
  have hspacing : ∀ {blanks line after : Text}, blanks.IsSpacing → after.LineEnd →
      (Text.rows (line ++ blanks ++ after)).map strip = (Text.rows (line ++ after)).map strip :=
    fun spacing ends => strip_rows_trailing (fun hmem => (spacing _ hmem).2 rfl) ends
      (SignatureLine.strip_append fun c hc => (spacing c hc).1) _
  cases h with
  | leading start spacing spacing' =>
    rw [strip_rows_leading start spacing, strip_rows_leading start spacing']
  | trailing spacing spacing' ends => rw [hspacing spacing ends, hspacing spacing' ends]
  | carriageReturn line below =>
    have hreturn := @hspacing ['\r'] line ('\n' :: below) (by decide)
      (Or.inr ⟨below, Or.inl rfl⟩)
    rwa [List.append_assoc] at hreturn
  | @comment line comment after oneLine ends =>
    have hsign : '\n' ∉ ' ' :: '#' :: comment := by simpa using oneLine
    exact strip_rows_trailing hsign ends (fun row => SignatureLine.strip_comment row comment) line

/-- **A file with a line more that holds nothing has the same declarations or the same fault.** -/
theorem agree_of_interspersed (h : Interspersed source source') :
    Scan.Agree (List.Forall₂ Eq) (scan format source) (scan format source') := by
  have hnone : Scan.State.Contributes format [] [] := Scan.State.contributes_nil
  have hadded : ∀ {above below : List Text} {line : Text}, SignatureLine.IsIdle line →
      Scan.Agree (List.Forall₂ Eq) (scanLines format (above ++ below))
        (scanLines format (above ++ line :: below)) :=
    fun idle => agree_replace (fun _ => rfl) congruent_eq hnone
      (contributes_of_strip_eq_nil idle.strip_eq) .nil _ _
  rw [scan_eq_rows, scan_eq_rows]
  cases h with
  | @above before line after start idle =>
    obtain ⟨above, habove⟩ := start.exists_rows
    rw [List.append_assoc, habove, habove, Text.rows_append, Text.rows_eq_singleton idle.1]
    exact hadded idle
  | atEnd idle =>
    rw [Text.rows_append, Text.rows_eq_singleton idle.1, ← List.append_nil source.rows,
      List.append_assoc]
    exact hadded idle

/-- What agrees is the same declarations, or the same fault. -/
theorem same_of_agree {x y : Except ScanError (List Signature)}
    (h : Scan.Agree (List.Forall₂ Eq) x y) :
    (∀ forest, x = .ok forest → y = .ok forest) ∧
      ∀ e, x = .error e → ∃ e', y = .error e' ∧ e'.fault = e.fault := by
  cases h with
  | ok hforest =>
    rw [List.forall₂_eq_eq_eq] at hforest
    subst hforest
    exact ⟨fun _ hx => hx, fun e hx => (nomatch hx)⟩
  | @error e e' hfault =>
    refine ⟨fun forest hx => (nomatch hx), fun _ hx => ?_⟩
    cases hx
    exact ⟨e', rfl, hfault.symm⟩

/-- **Layout and comments do not change what a file declares.**

Where lines are only retouched, any number of them and in any way, a scan has the same result, with a
fault on the same line.  Where lines without content are added as well, the declarations are the
same, or the fault is. -/
theorem scan_retouched (format : SignatureFormat) (source source' : Text) :
    (Relation.ReflTransGen Retouched source source' → scan format source' = scan format source) ∧
      (Relation.ReflTransGen Relaid source source' →
        (∀ forest, scan format source = .ok forest → scan format source' = .ok forest) ∧
          ∀ e, scan format source = .error e →
            ∃ e', scan format source' = .error e' ∧ e'.fault = e.fault) := by
  constructor
  · intro h
    induction h with
    | refl => rfl
    | tail _ hlast ih => exact (scan_of_retouched hlast).trans ih
  · intro h
    induction h with
    | refl => exact ⟨fun _ hscan => hscan, fun e hscan => ⟨e, hscan, rfl⟩⟩
    | tail _ hlast ih =>
      rcases hlast with hlast | hlast
      · rwa [scan_of_retouched hlast]
      · obtain ⟨hforest, hfault⟩ := same_of_agree (@agree_of_interspersed format _ _ hlast)
        refine ⟨fun forest hscan => hforest forest (ih.1 forest hscan), fun e hscan => ?_⟩
        obtain ⟨e', hscan', he'⟩ := ih.2 e hscan
        obtain ⟨e'', hscan'', he''⟩ := hfault e' hscan'
        exact ⟨e'', hscan'', he''.trans he'⟩

/-- A line with a comment behind it, another with a carriage return and a tab, and a comment between
them; and a closing line that is indented, or stands below a blank one. -/
theorem scan_retouched_sample :
    let source : Text := "class A\nB: C\nend"
    let source' : Text := "class A # a\n# b\n\tB: C\r\nend"
    scan .rbs source = .ok [.node .classDef "A" [.leaf .constantDef "B"]] ∧
      scan .rbs source' = .ok [.node .classDef "A" [.leaf .constantDef "B"]] ∧
      scan .rbi "end" = .error ⟨1, .unexpectedEnd⟩ ∧
      scan .rbi "  end" = .error ⟨1, .unexpectedEnd⟩ ∧
      ∃ e', scan .rbi " \nend" = .error e' ∧ e'.fault = .unexpectedEnd := by
  intro source source'
  have hcomment : Retouched source "class A # a\nB: C\nend" :=
    @Retouched.comment "class A" " a" "\nB: C\nend" (by decide) (Or.inr ⟨_, Or.inl rfl⟩)
  have htab : Retouched "class A # a\nB: C\nend" "class A # a\n\tB: C\nend" :=
    @Retouched.leading "class A # a\n" [] ['\t'] "B: C\nend" (Or.inr ⟨"class A # a", rfl⟩)
      (by decide) (by decide)
  have hreturn : Retouched "class A # a\n\tB: C\nend" "class A # a\n\tB: C\r\nend" :=
    .carriageReturn "class A # a\n\tB: C" "end"
  have hbetween : Interspersed "class A # a\n\tB: C\r\nend" source' :=
    @Interspersed.above "class A # a\n" "# b" "\tB: C\r\nend" (Or.inr ⟨"class A # a", rfl⟩)
      ⟨by decide, [], "# b", rfl, by simp, Or.inr ⟨" b", rfl⟩⟩
  have hindented : Retouched "end" "  end" :=
    @Retouched.leading [] [] "  " "end" (Or.inl rfl) (by decide)
      (by decide)
  have hbelow : Interspersed "end" " \nend" :=
    @Interspersed.above [] " " "end" (Or.inl rfl)
      ⟨by decide, " ", [], rfl, List.all_eq_true.mp rfl, Or.inl rfl⟩
  have hscan : scan .rbs source = .ok [.node .classDef "A" [.leaf .constantDef "B"]] := rfl
  have hfault : scan .rbi "end" = .error ⟨1, .unexpectedEnd⟩ := rfl
  have hedits : Relation.ReflTransGen Relaid source source' :=
    .head (Or.inl hcomment) (.head (Or.inl htab) (.head (Or.inl hreturn)
      (.single (Or.inr hbetween))))
  refine ⟨hscan, ((scan_retouched .rbs source source').2 hedits).1 _ hscan, hfault, ?_, ?_⟩
  · exact ((scan_retouched .rbi "end" "  end").1 (.single hindented)).trans hfault
  · exact ((scan_retouched .rbi "end" " \nend").2 (.single (Or.inr hbelow))).2 _ hfault

end Signature
end DocTypes
