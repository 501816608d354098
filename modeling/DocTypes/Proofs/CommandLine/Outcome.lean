import DocTypes.Proofs.Annotation.Head
import DocTypes.Proofs.CommandLine.Setup
import DocTypes.Proofs.Conversion.Reports
import DocTypes.Proofs.Resolver.Spelling

/-! # What converting prints

If nothing is wrong with its arguments, `convert` prints one line, the type of the annotation, and
the exit code says whether there is a placeholder in it (`run_convert_cases`).

That it is one line takes an argument, for the annotation may hold line breaks, and so may the
files.  But a type shows only names and the vocabulary (`TypeExpr.forall_mem_describe`), a name is
an identifier or a known path, and known paths have no blanks in them: those of a corpus that was
loaded are made of words of a file, and all others are paths of words.  So there is no blank in
print but the spaces that types are punctuated with (`Resolver.isPrinted_of_mem_describe`).

A placeholder never comes without a warning (`Conversion.reported_convert`), so where the exit code
is 1 there is a summary. -/

namespace DocTypes

/-! ## Types in print -/

/-- No character is blank, except for spaces. -/
def isPrinted (c : Char) : Bool := !Text.isBlank c || c == ' '

theorem isPrinted_of_isPathPart {c : Char} (h : Name.isPathPart c = true) : isPrinted c = true := by
  rw [isPrinted, (plain_of_isPathPart h).1]
  rfl

theorem isPrinted_of_isPlainPrint {c : Char} (h : TypeExpr.isPlainPrint c = true) :
    isPrinted c = true := by
  have hpunctuation : " <>,|?()[]".toList.all isPrinted = true := rfl
  rcases (Bool.or_eq_true _ _).mp h with hword | hmark
  · refine isPrinted_of_isPathPart ?_
    rw [Name.isPathPart, hword, Bool.true_or]
  · exact List.all_eq_true.mp hpunctuation c (List.contains_iff_mem.mp hmark)

namespace Resolver

variable {r : Resolver} {files : FileSystem} {settings : Settings} {entity? : Option EntityId}

/-- **A type in print has no blank but spaces**, if there is none in the names of the corpus. -/
theorem isPrinted_of_mem_describe (h : r.corpus.Spelled isPrinted) (hindex : r.index? = none)
    (tag : Annotation) :
    ∀ c ∈ (r.convert files settings entity? tag).value.describe, isPrinted c = true := by
  have hscope : ∀ s ∈ r.scopeFor files entity?, s.PathsAre fun path => ∀ c ∈ path, isPrinted c :=
    pathsAre_scopeFor h (fun _ => isPrinted_of_isPathPart) rfl hindex entity?
  refine TypeExpr.forall_mem_describe (fun _ => isPrinted_of_isPlainPrint) _ ?_
  refine Conversion.namesAre_convert (fun name hname c hc => ?_) hscope tag
  exact isPrinted_of_isPathPart (Name.isPathPart_of_mem hname hc)

/-- A type holds no more placeholders than there were warnings, the dependencies included. -/
theorem errorCount_le_warnings (r : Resolver) (files : FileSystem) (settings : Settings)
    (entity? : Option EntityId) (tag : Annotation) :
    (r.convert files settings entity? tag).value.errorCount ≤
      (Journal.ofKind .warning (r.convert files settings entity? tag).diagnostics).length := by
  obtain ⟨before, index, after, hown, hall, -⟩ := r.diagnostics_split files settings entity? tag
  have hcount : (r.ownReports files settings entity? tag).countP (·.kind == .warning) =
      (Conversion.convert settings (r.scopeFor files entity?) tag).warnings := by
    rw [Traced.warnings_eq]
    exact List.countP_map
  calc (r.convert files settings entity? tag).value.errorCount
      ≤ (Conversion.convert settings (r.scopeFor files entity?) tag).warnings :=
        Conversion.reported_convert settings (r.scopeFor files entity?) tag
    _ = (r.ownReports files settings entity? tag).countP (·.kind == .warning) := hcount.symm
    _ ≤ (r.convert files settings entity? tag).diagnostics.countP (·.kind == .warning) := by
        rw [hown, hall, List.countP_append, List.countP_append, List.countP_append]
        omega
    _ = _ := List.countP_eq_length_filter

/-- Where placeholders are replaced there is none. -/
theorem containsError_of_replaceErrors (h : settings.replaceErrors = true) (tag : Annotation) :
    (r.convert files settings entity? tag).value.containsError = false := by
  have hsettings : settings.replacingErrors = settings := by
    rw [Settings.replacingErrors, ← h]
  have hvalue := (Conversion.replaced_convert settings (r.scopeFor files entity?) tag).value
  rw [hsettings] at hvalue
  show (Conversion.convert settings (r.scopeFor files entity?) tag).value.containsError = false
  rw [hvalue]
  exact TypeExpr.containsError_withoutErrors _

end Resolver

namespace CommandLine

/-- The annotation that texts on the command line make up. -/
def annotationOf : List Text → Annotation
  | [only] => .one only
  | many => .many many

/-- The line that counts what was reported. -/
def summaryLine (warnings inferred ducks : Nat) : Text :=
  Text.ofNat warnings ++ " warning(s), " ++ Text.ofNat inferred ++ " inferred, "
    ++ Text.ofNat ducks ++ " duck type(s)"

/-- A run has a corpus without blanks in its names, wherever that comes from. -/
theorem spelled_of_loadCorpus {files : FileSystem} {sources : Sources} {corpus : Corpus}
    (h : loadCorpus files sources = .ok corpus) : corpus.Spelled isPrinted := by
  unfold loadCorpus at h
  split at h
  · cases h
    exact Corpus.spelled_empty
  · split at h
    · next loaded hload =>
      cases h
      intro id e he c hc
      have hblank : (!Text.isBlank c) = true := Corpus.spelled_of_load hload id e he c hc
      rw [isPrinted, hblank, Bool.true_or]
    · cases h

/-- Where there are warnings there is a summary, and it counts them. -/
theorem summary_of_warnings {kinds : List DiagnosticKind} {ds : List Diagnostic}
    (h : 0 < (Journal.ofKind .warning ds).length) :
    summary ((Journal.opening kinds).addAll ds) =
      [summaryLine (Journal.ofKind .warning ds).length (Journal.ofKind .inference ds).length
        (Journal.ofKind .duckType ds).length] := by
  unfold summary
  simp only [Journal.count_addAll]
  rw [if_neg (by omega), summaryLine]

/-! ## Outcomes -/

/-- What a run prints about a type, and how it ends. -/
structure Shows (settings : Settings) (type : TypeExpr) (outcome : Outcome) : Prop where
  /-- The type is all that is printed. -/
  stdout : outcome.stdout = [type.describe]
  /-- It is one line: no blank in it is anything but a space. -/
  one_line : ∀ c ∈ type.describe, Text.isBlank c = true → c = ' '
  /-- The exit code is 1 exactly when there is a placeholder in the type. -/
  exitCode : outcome.exitCode = if type.containsError then 1 else 0
  /-- Then there is a summary, which counts no fewer warnings than there are placeholders. -/
  warned : outcome.exitCode = 1 → ∃ warnings inferred ducks,
    outcome.stderr = [summaryLine warnings inferred ducks] ∧ type.errorCount ≤ warnings
  /-- That is never so where placeholders are replaced. -/
  replaced : settings.replaceErrors = true → outcome.exitCode ≠ 1

theorem shows_runConvert (files : FileSystem) (types : List Text) (settings : Settings)
    (setup : Setup) {kinds : List DiagnosticKind} (hjournal : setup.journal = .opening kinds)
    (hspelled : setup.resolver.corpus.Spelled isPrinted) (hindex : setup.resolver.index? = none) :
    Shows settings
      (setup.resolver.convert files settings setup.scope (annotationOf types)).value
      (runConvert files types settings setup) := by
  let answer := setup.resolver.convert files settings setup.scope (annotationOf types)
  have hexit : (runConvert files types settings setup).exitCode =
      if answer.value.containsError then 1 else 0 := rfl
  refine ⟨rfl, ?_, hexit, ?_, ?_⟩
  · intro c hc hblank
    have hprinted := Resolver.isPrinted_of_mem_describe hspelled hindex (annotationOf types) c hc
    simpa [isPrinted, hblank] using hprinted
  · -- A type with a placeholder has at least one to count, and so there is a warning.
    intro hone
    have hle : answer.value.errorCount ≤ (Journal.ofKind .warning answer.diagnostics).length :=
      setup.resolver.errorCount_le_warnings files settings setup.scope (annotationOf types)
    have hpos : 0 < answer.value.errorCount := by
      apply Nat.pos_of_ne_zero
      intro hzero
      rw [hexit, (TypeExpr.errorCount_eq_zero _).mp hzero] at hone
      cases hone
    have hstderr : (runConvert files types settings setup).stderr =
        summary (setup.journal.addAll answer.diagnostics) := rfl
    rw [hjournal, summary_of_warnings (Nat.lt_of_lt_of_le hpos hle)] at hstderr
    exact ⟨_, _, _, hstderr, hle⟩
  · intro hreplace
    rw [hexit, Resolver.containsError_of_replaceErrors hreplace]
    exact Nat.zero_ne_one

/-- **What converting comes to.**  Either something is wrong with the arguments, and the first such
thing is all that comes of the run, with exit code 2.  Or nothing is wrong, and the run shows the
type that the annotation is converted to by a new resolver over the corpus, the version and the
dependencies of the arguments: as one line, with the exit code and the summary that belong to it. -/
theorem run_convert_cases (files : FileSystem) (types : List Text) (settings : Settings)
    (sources : Sources) (selection : Selection) :
    (∃ e, (Command.convert types settings sources selection).run files = .error e ∧
      e.exitCode = 2 ∧ e.Arises files sources selection ∧
      ∀ e', SetupError.Arises files sources selection e' → e.stage ≤ e'.stage) ∨
    ∃ corpus version scope outcome,
      (∀ e, ¬SetupError.Arises files sources selection e) ∧
      loadCorpus files sources = .ok corpus ∧ chooseVersion sources = .ok version ∧
      findScope corpus sources = .ok scope ∧
      (Command.convert types settings sources selection).run files = .ok outcome ∧
      let r := Resolver.fresh corpus version ⟨sources.collection, sources.sigDirs⟩
      Shows settings (r.convert files settings scope (annotationOf types)).value outcome := by
  rcases setUp_cases files sources selection with
    ⟨e, hsetUp, harises, hfirst⟩ |
      ⟨corpus, version, scope, kinds, hcorpus, hversion, hscope, -, hnone, hsetUp⟩
  · refine Or.inl ⟨e, ?_, rfl, harises, hfirst⟩
    rw [Command.run, hsetUp]
    rfl
  · let setup : Setup :=
      ⟨.fresh corpus version ⟨sources.collection, sources.sigDirs⟩, scope, .opening kinds⟩
    have hrun : (Command.convert types settings sources selection).run files =
        .ok (runConvert files types settings setup) := by
      rw [Command.run, hsetUp]
      rfl
    have hjournal : setup.journal = .opening kinds := rfl
    have hspelled : setup.resolver.corpus.Spelled isPrinted := spelled_of_loadCorpus hcorpus
    exact Or.inr ⟨corpus, version, scope, _, hnone, hcorpus, hversion, hscope, hrun,
      shows_runConvert files types settings setup hjournal hspelled rfl⟩

/-- A line break in an annotation does not get into print. -/
example :
    let command : Command := .convert ["A<\nB, C"] ⟨false, false, .rbi⟩
      ⟨none, none, [], none, none⟩ .everything
    (command.run ⟨[], []⟩).toOption.map (fun outcome =>
      (outcome.exitCode, outcome.stdout, outcome.stderr)) =
        some (1, ["SORD_ERROR_ABC".toList], [summaryLine 1 0 0]) := by decide +kernel

end CommandLine
end DocTypes
