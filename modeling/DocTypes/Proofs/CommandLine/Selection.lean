import DocTypes.CommandLine.Run
import DocTypes.Proofs.Diagnostic.Journal

/-! # What a selection of messages does

The names on a list of messages each stand for a kind, if they stand for anything
(`Selection.Valid`), and a selection then lets through the kinds that its lists say
(`Selection.Selects`, `Selection.kinds_of_valid`).

The selection of a run reaches the journal and nothing else.  So a run with a valid selection is the
run in which everything is selected, with the other rows taken out of its log
(`Command.run_select`): what is printed, what is counted and the exit code are those of every other
valid selection (`Command.run_agree`). -/

namespace DocTypes

theorem DiagnosticKind.mem_all (kind : DiagnosticKind) : kind ∈ all := by
  cases kind <;> decide

namespace CommandLine

/-! ## Names of kinds -/

/-- The kind that a name on a list of messages stands for. -/
def kindCalled? (name : Text) : Option DiagnosticKind :=
  DiagnosticKind.named? ((Text.trim name).map lowered)

/-- A kind is on a list of names. -/
def Lists (names : List Text) (kind : DiagnosticKind) : Prop :=
  ∃ name ∈ names, kindCalled? name = some kind

instance (names : List Text) (kind : DiagnosticKind) : Decidable (Lists names kind) :=
  inferInstanceAs (Decidable (∃ name ∈ names, kindCalled? name = some kind))

section Names
variable {names : List Text}

theorem lists_cons {name : Text} {kind : DiagnosticKind} :
    Lists (name :: names) kind ↔ kindCalled? name = some kind ∨ Lists names kind := by
  simp only [Lists, List.mem_cons, exists_eq_or_imp]

theorem namedKinds_cons (option name : Text) :
    namedKinds option (name :: names) =
      match kindCalled? name with
      | none => .error (.messageKind name option)
      | some kind => (namedKinds option names).map (kind :: ·) := by
  rw [namedKinds, kindCalled?]
  cases DiagnosticKind.named? ((Text.trim name).map lowered) with
  | none => rfl
  | some kind => cases namedKinds option names <;> rfl

/-- Names that all stand for kinds name the kinds on their list. -/
theorem namedKinds_of_valid (option : Text) (h : ∀ name ∈ names, (kindCalled? name).isSome) :
    ∃ kinds, namedKinds option names = .ok kinds ∧ ∀ kind, kind ∈ kinds ↔ Lists names kind := by
  induction names with
  | nil => exact ⟨[], rfl, by simp [Lists]⟩
  | cons name names ih =>
    obtain ⟨first, hfirst⟩ := Option.isSome_iff_exists.mp (h name List.mem_cons_self)
    obtain ⟨kinds, hkinds, hmem⟩ := ih fun n hn => h n (List.mem_cons_of_mem _ hn)
    refine ⟨first :: kinds, ?_, fun kind => ?_⟩
    · rw [namedKinds_cons, hfirst, hkinds]
      rfl
    · rw [List.mem_cons, hmem, lists_cons, hfirst, Option.some_inj, eq_comm]

/-- A list that cannot be made sense of holds a name that stands for no kind. -/
theorem exists_of_namedKinds_error {option : Text} {e : SetupError}
    (h : namedKinds option names = .error e) :
    ∃ name ∈ names, kindCalled? name = none ∧ e = .messageKind name option := by
  induction names with
  | nil => cases h
  | cons name names ih =>
    rw [namedKinds_cons] at h
    cases hkind : kindCalled? name with
    | none =>
      rw [hkind] at h
      cases h
      exact ⟨name, List.mem_cons_self, hkind, rfl⟩
    | some kind =>
      rw [hkind] at h
      cases hrest : namedKinds option names with
      | ok kinds =>
        rw [hrest] at h
        cases h
      | error e' =>
        rw [hrest] at h
        cases h
        obtain ⟨other, hother, hnone, rfl⟩ := ih hrest
        exact ⟨other, List.mem_cons_of_mem _ hother, hnone, rfl⟩

/-- A list that can be made sense of names kinds only. -/
theorem isSome_of_namedKinds_ok {option : Text} {kinds : List DiagnosticKind}
    (h : namedKinds option names = .ok kinds) : ∀ name ∈ names, (kindCalled? name).isSome := by
  induction names generalizing kinds with
  | nil => exact fun name hname => absurd hname List.not_mem_nil
  | cons name names ih =>
    rw [namedKinds_cons] at h
    cases hkind : kindCalled? name with
    | none =>
      rw [hkind] at h
      cases h
    | some kind =>
      rw [hkind] at h
      cases hrest : namedKinds option names with
      | error e =>
        rw [hrest] at h
        cases h
      | ok rest => exact List.forall_mem_cons.mpr ⟨Option.isSome_of_eq_some hkind, ih hrest⟩

end Names

/-! ## Selections -/

namespace Selection

/-- The names on the list of a selection, if there is a list. -/
def names : Selection → List Text
  | everything => []
  | including names | excluding names => names

/-- The option that a list is given with. -/
def option : Selection → Text
  | including _ => "include-messages"
  | everything | excluding _ => "exclude-messages"

/-- Every name on the list stands for a kind. -/
def Valid (selection : Selection) : Prop :=
  ∀ name ∈ selection.names, (kindCalled? name).isSome

instance (selection : Selection) : Decidable selection.Valid :=
  inferInstanceAs (Decidable (∀ name ∈ selection.names, (kindCalled? name).isSome))

/-- A kind is let through.  A list of what to include always includes that work came to its end. -/
def Selects : Selection → DiagnosticKind → Prop
  | everything, _ => True
  | including names, kind => Lists names kind ∨ kind = .completion
  | excluding names, kind => ¬Lists names kind

instance (selection : Selection) (kind : DiagnosticKind) : Decidable (selection.Selects kind) :=
  match selection with
  | everything => inferInstanceAs (Decidable True)
  | including names => inferInstanceAs (Decidable (Lists names kind ∨ kind = .completion))
  | excluding names => inferInstanceAs (Decidable (¬Lists names kind))

/-- The kinds that a selection makes of those on its list. -/
def choose : Selection → List DiagnosticKind → List DiagnosticKind
  | everything, _ => DiagnosticKind.all
  | including _, kinds => if .completion ∈ kinds then kinds else kinds ++ [.completion]
  | excluding _, kinds => DiagnosticKind.all.filter fun kind => !kinds.contains kind

variable {selection : Selection} {kinds : List DiagnosticKind} {e : SetupError}

theorem kinds_eq (selection : Selection) :
    selection.kinds = (namedKinds selection.option selection.names).map selection.choose := by
  cases selection with
  | everything => rfl
  | including names =>
    show Selection.kinds (including names) =
      (namedKinds "include-messages" names).map (choose (including names))
    rw [Selection.kinds]
    cases namedKinds "include-messages" names with
    | ok kinds => rfl
    | error e => rfl
  | excluding names =>
    show Selection.kinds (excluding names) =
      (namedKinds "exclude-messages" names).map (choose (excluding names))
    rw [Selection.kinds]
    cases namedKinds "exclude-messages" names with
    | ok kinds => rfl
    | error e => rfl

/-- What is made of the kinds on its list is what a selection lets through. -/
theorem mem_choose_iff (hmem : ∀ kind, kind ∈ kinds ↔ Lists selection.names kind)
    (kind : DiagnosticKind) : kind ∈ selection.choose kinds ↔ selection.Selects kind := by
  cases selection with
  | everything => exact iff_of_true (DiagnosticKind.mem_all kind) trivial
  | including names =>
    have hnames : kind ∈ kinds ↔ Lists names kind := hmem kind
    rw [choose, Selects, ← hnames]
    by_cases hcompletion : .completion ∈ kinds
    · rw [if_pos hcompletion]
      exact ⟨Or.inl, fun hor => hor.elim id fun heq => heq ▸ hcompletion⟩
    · rw [if_neg hcompletion, List.mem_append, List.mem_singleton]
  | excluding names =>
    have hnames : kind ∈ kinds ↔ Lists names kind := hmem kind
    rw [choose, Selects, ← hnames, List.mem_filter]
    simp [DiagnosticKind.mem_all]

/-- **A valid selection lets through what it says.** -/
theorem kinds_of_valid (h : selection.Valid) :
    ∃ kinds, selection.kinds = .ok kinds ∧ ∀ kind, kind ∈ kinds ↔ selection.Selects kind := by
  obtain ⟨kinds, hkinds, hmem⟩ := namedKinds_of_valid selection.option h
  refine ⟨selection.choose kinds, ?_, mem_choose_iff hmem⟩
  rw [kinds_eq, hkinds]
  rfl

/-- A selection that can be made sense of is valid. -/
theorem valid_of_kinds_ok (h : selection.kinds = .ok kinds) : selection.Valid := by
  rw [kinds_eq] at h
  cases hnames : namedKinds selection.option selection.names with
  | ok named => exact isSome_of_namedKinds_ok hnames
  | error e =>
    rw [hnames] at h
    cases h

/-- A selection that cannot be made sense of has a name that stands for no kind. -/
theorem exists_of_kinds_error (h : selection.kinds = .error e) :
    ∃ name ∈ selection.names, kindCalled? name = none ∧ e = .messageKind name selection.option := by
  rw [kinds_eq] at h
  cases hnames : namedKinds selection.option selection.names with
  | ok named =>
    rw [hnames] at h
    cases h
  | error e' =>
    rw [hnames] at h
    cases h
    exact exists_of_namedKinds_error hnames

end Selection

/-! ## Runs -/

/-- The command with another selection of messages. -/
def Command.select (selection : Selection) : Command → Command
  | convert types settings sources _ => convert types settings sources selection
  | resolve name sources _ => resolve name sources selection

/-- An outcome with the rows of other kinds taken out of its log. -/
def Outcome.restrict (selection : Selection) (outcome : Outcome) : Outcome :=
  { outcome with log := outcome.log.filter fun row => selection.Selects row.kind }

/-- The kinds of the rows that are left are the selected ones among the kinds of all rows. -/
theorem Outcome.kinds_restrict (selection : Selection) (outcome : Outcome) :
    (outcome.restrict selection).log.map (·.kind) =
      (outcome.log.map (·.kind)).filter fun kind => selection.Selects kind := by
  rw [List.filter_map]
  rfl

/-- A setup whose journal selects certain kinds. -/
def Setup.selecting (kinds : List DiagnosticKind) (setup : Setup) : Setup :=
  { setup with journal := .opening kinds }

section Runs
variable {files : FileSystem} {sources : Sources} {selection : Selection}
variable {kinds : List DiagnosticKind}

/-- Selected kinds are told to the journal and to nothing else. -/
theorem setUp_of_kinds (h : selection.kinds = .ok kinds) :
    setUp files sources selection =
      (setUp files sources .everything).map (Setup.selecting kinds) := by
  have heverything : Selection.everything.kinds = .ok DiagnosticKind.all := rfl
  unfold setUp
  rw [h, heverything]
  cases loadCorpus files sources with
  | error e => rfl
  | ok corpus =>
    cases chooseVersion sources with
    | error e => rfl
    | ok version =>
      dsimp only [bind, Except.bind]
      cases findScope corpus sources with
      | error e => rfl
      | ok scope => rfl

/-- The journal of a run in which everything is selected. -/
theorem journal_setUp {setup : Setup} (h : setUp files sources .everything = .ok setup) :
    setup.journal = .opening DiagnosticKind.all := by
  have heverything : Selection.everything.kinds = .ok DiagnosticKind.all := rfl
  rw [setUp_of_kinds heverything] at h
  cases hsetup : setUp files sources .everything with
  | error e =>
    rw [hsetup] at h
    cases h
  | ok other =>
    rw [hsetup] at h
    cases h
    rfl

/-- A log that shows some kinds is the log that shows every kind, less the rows of the others. -/
theorem log_addAll_selecting (h : ∀ kind, kind ∈ kinds ↔ selection.Selects kind)
    (ds : List Diagnostic) :
    ((Journal.opening kinds).addAll ds).log =
      ((Journal.opening DiagnosticKind.all).addAll ds).log.filter fun row =>
        selection.Selects row.kind := by
  have hall : ∀ row ∈ ds.map (·.logRow), decide (row.kind ∈ DiagnosticKind.all) = true :=
    fun row _ => decide_eq_true (DiagnosticKind.mem_all row.kind)
  rw [Journal.log_addAll, Journal.log_addAll, List.filter_eq_self.mpr hall]
  exact List.filter_congr fun row _ => decide_eq_decide.mpr (h row.kind)

/-- The summary counts what is logged and what is not. -/
theorem summary_addAll (kinds kinds' : List DiagnosticKind) (ds : List Diagnostic) :
    summary ((Journal.opening kinds).addAll ds) = summary ((Journal.opening kinds').addAll ds) := by
  simp only [summary, Journal.count_addAll]

variable {setup : Setup}

theorem runConvert_selecting (h : ∀ kind, kind ∈ kinds ↔ selection.Selects kind)
    (hopen : setup.journal = .opening DiagnosticKind.all) (types : List Text)
    (settings : Settings) :
    runConvert files types settings (setup.selecting kinds) =
      (runConvert files types settings setup).restrict selection := by
  unfold runConvert Setup.selecting Outcome.restrict
  dsimp only
  rw [hopen, log_addAll_selecting h, summary_addAll kinds DiagnosticKind.all]

theorem runResolve_selecting (h : ∀ kind, kind ∈ kinds ↔ selection.Selects kind)
    (hopen : setup.journal = .opening DiagnosticKind.all) (name : Text) :
    runResolve files name (setup.selecting kinds) =
      (runResolve files name setup).restrict selection := by
  unfold runResolve Setup.selecting Outcome.restrict
  dsimp only
  rw [hopen, log_addAll_selecting h]

/-- **A run with a valid selection is the run in which everything is selected**, with the other rows
taken out of its log. -/
theorem Command.run_select (h : selection.Valid) (files : FileSystem) (command : Command) :
    (command.select selection).run files =
      ((command.select .everything).run files).map (Outcome.restrict selection) := by
  obtain ⟨kinds, hkinds, hselects⟩ := Selection.kinds_of_valid h
  cases command with
  | convert types settings sources other =>
    rw [select, run, setUp_of_kinds hkinds, select, run]
    cases hsetup : setUp files sources .everything with
    | error e => rfl
    | ok setup =>
      exact congrArg Except.ok
        (runConvert_selecting hselects (journal_setUp hsetup) types settings)
  | resolve name sources other =>
    rw [select, run, setUp_of_kinds hkinds, select, run]
    cases hsetup : setUp files sources .everything with
    | error e => rfl
    | ok setup =>
      exact congrArg Except.ok (runResolve_selecting hselects (journal_setUp hsetup) name)

end Runs

/-- **Selections of messages are seen in the log and nowhere else.**  Under any two valid selections
a command cannot be run, for the same reason, or it ends with the same exit code and prints the same
on both streams, and either log is what its selection leaves of the log of everything. -/
theorem Command.run_agree (files : FileSystem) (command : Command) {first second : Selection}
    (hfirst : first.Valid) (hsecond : second.Valid) :
    (∃ e, (command.select .everything).run files = .error e ∧
      (command.select first).run files = .error e ∧
      (command.select second).run files = .error e) ∨
    ∃ full one other, (command.select .everything).run files = .ok full ∧
      (command.select first).run files = .ok one ∧
      (command.select second).run files = .ok other ∧
      one.exitCode = other.exitCode ∧ one.stdout = other.stdout ∧ one.stderr = other.stderr ∧
      one.log = full.log.filter (fun row => first.Selects row.kind) ∧
      other.log = full.log.filter (fun row => second.Selects row.kind) := by
  rw [run_select hfirst, run_select hsecond]
  cases (command.select .everything).run files with
  | error e => exact Or.inl ⟨e, rfl, rfl, rfl⟩
  | ok full =>
    exact Or.inr ⟨full, full.restrict first, full.restrict second, rfl, rfl, rfl, rfl, rfl, rfl,
      rfl, rfl⟩

/-- A doubtful name and a duck type: each of two selections logs one of the warnings, and both runs
count two. -/
theorem Command.run_agree_duckType :
    let files : FileSystem := ⟨[], []⟩
    let command : Command :=
      .convert ["(foo, #each)"] ⟨false, false, .rbi⟩ ⟨none, none, [], none, none⟩ .everything
    let first : Selection := .including [" Duck "]
    let second : Selection := .excluding ["duck"]
    (first.Valid ∧ second.Valid) ∧
      ((command.select .everything).run files).toOption.map (fun full => full.log.map (·.kind)) =
        some [.warning, .duckType] ∧
      ∃ one other, (command.select first).run files = .ok one ∧
        (command.select second).run files = .ok other ∧
        one.exitCode = other.exitCode ∧ one.stdout = other.stdout ∧ one.stderr = other.stderr ∧
        one.log.map (·.kind) = [.duckType] ∧ other.log.map (·.kind) = [.warning] := by
  intro files command first second
  have hvalid : first.Valid ∧ second.Valid := by decide +kernel
  have hkinds : ((command.select .everything).run files).toOption.map
      (fun full => full.log.map (·.kind)) = some [.warning, .duckType] := by decide +kernel
  refine ⟨hvalid, hkinds, ?_⟩
  rcases Command.run_agree files command hvalid.1 hvalid.2 with
    ⟨e, hfull, -⟩ | ⟨full, one, other, hfull, hone, hother, hexit, hstdout, hstderr, hlog, hlog'⟩
  · rw [hfull] at hkinds
    cases hkinds
  · rw [hfull] at hkinds
    have hfullKinds : full.log.map (·.kind) = [.warning, .duckType] := Option.some.inj hkinds
    refine ⟨one, other, hone, hother, hexit, hstdout, hstderr, ?_, ?_⟩
    · refine hlog ▸ (full.kinds_restrict first).trans ?_
      rw [hfullKinds]
      decide +kernel
    · refine hlog' ▸ (full.kinds_restrict second).trans ?_
      rw [hfullKinds]
      decide +kernel

end CommandLine
end DocTypes
