import DocTypes.Proofs.CommandLine.Selection

/-! # When a command cannot be run

There are four things that may be wrong with the arguments of a command (`SetupError.Arises`): the
declaration file does not load, the version is none, the scope is not declared, or a message kind is
unknown.  They are looked at in this order (`SetupError.stage`), and a command cannot be run exactly
when one of them is the case; the first is then the reason (`setUp_cases`). -/

namespace DocTypes.CommandLine

namespace SetupError

/-- What is wrong with the arguments of a command. -/
inductive Arises (files : FileSystem) (sources : Sources) (selection : Selection) :
    SetupError → Prop where
  /-- The declaration file cannot be read, or it holds an invalid list. -/
  | corpus {path : Text} {reason : CorpusError} (hdecls : sources.decls = some path)
      (hload : Corpus.load files path = .error reason) :
      Arises files sources selection (.corpus reason)
  | version {text : Text} (hruby : sources.ruby = some text)
      (hnone : RubyVersion.ofText? text = none) : Arises files sources selection (.version text)
  | scope {corpus : Corpus} {path : Text} (hcorpus : loadCorpus files sources = .ok corpus)
      (hscope : sources.scope = some path) (hnone : corpus.find? path = none) :
      Arises files sources selection (.scope path)
  | messageKind {name : Text} (hname : name ∈ selection.names) (hnone : kindCalled? name = none) :
      Arises files sources selection (.messageKind name selection.option)

/-- The place of an error in the order in which arguments are looked at. -/
def stage : SetupError → Nat
  | corpus _ => 0
  | version _ => 1
  | scope _ => 2
  | messageKind _ _ => 3

end SetupError

variable {files : FileSystem} {sources : Sources} {selection : Selection} {e : SetupError}
variable {corpus : Corpus} {version : RubyVersion} {scope : Option EntityId}

/-! ## One argument at a time -/

theorem arises_of_loadCorpus (h : loadCorpus files sources = .error e) :
    e.Arises files sources selection ∧ e.stage = 0 := by
  unfold loadCorpus at h
  split at h
  · cases h
  · next path hdecls =>
    split at h
    · cases h
    · next reason hload =>
      cases h
      exact ⟨.corpus hdecls hload, rfl⟩

theorem arises_of_chooseVersion (h : chooseVersion sources = .error e) :
    e.Arises files sources selection ∧ e.stage = 1 := by
  unfold chooseVersion at h
  split at h
  · cases h
  · next text hruby =>
    split at h
    · cases h
    · next hnone =>
      cases h
      exact ⟨.version hruby hnone, rfl⟩

theorem arises_of_findScope (hcorpus : loadCorpus files sources = .ok corpus)
    (h : findScope corpus sources = .error e) : e.Arises files sources selection ∧ e.stage = 2 := by
  unfold findScope at h
  split at h
  · cases h
  · next path hscope =>
    split at h
    · cases h
    · next hnone =>
      cases h
      exact ⟨.scope hcorpus hscope hnone, rfl⟩

theorem arises_of_kinds (h : selection.kinds = .error e) :
    e.Arises files sources selection ∧ e.stage = 3 := by
  obtain ⟨name, hname, hnone, rfl⟩ := Selection.exists_of_kinds_error h
  exact ⟨.messageKind hname hnone, rfl⟩

/-! ## What is wrong is noticed -/

namespace SetupError.Arises

/-- Where there is a corpus, nothing is wrong with the declaration file. -/
theorem stage_pos (h : e.Arises files sources selection)
    (hcorpus : loadCorpus files sources = .ok corpus) : 0 < e.stage := by
  cases h with
  | corpus hdecls hload => simp [loadCorpus, hdecls, hload] at hcorpus
  | version | scope | messageKind => exact Nat.succ_pos _

theorem one_lt_stage (h : e.Arises files sources selection)
    (hcorpus : loadCorpus files sources = .ok corpus)
    (hversion : chooseVersion sources = .ok version) : 1 < e.stage := by
  have hpos := h.stage_pos hcorpus
  cases h with
  | corpus => cases hpos
  | version hruby hnone => simp [chooseVersion, hruby, hnone] at hversion
  | scope | messageKind => exact Nat.succ_lt_succ (Nat.succ_pos _)

theorem two_lt_stage (h : e.Arises files sources selection)
    (hcorpus : loadCorpus files sources = .ok corpus)
    (hversion : chooseVersion sources = .ok version)
    (hscope : findScope corpus sources = .ok scope) : 2 < e.stage := by
  have hlt := h.one_lt_stage hcorpus hversion
  cases h with
  | corpus => cases hlt
  | version => exact absurd hlt (Nat.lt_irrefl 1)
  | scope hother hpath hnone =>
    rw [hcorpus] at hother
    cases hother
    simp [findScope, hpath, hnone] at hscope
  | messageKind => exact Nat.lt_succ_self 2

/-- If every argument could be made sense of, nothing is wrong. -/
theorem elim {kinds : List DiagnosticKind} (h : e.Arises files sources selection)
    (hcorpus : loadCorpus files sources = .ok corpus)
    (hversion : chooseVersion sources = .ok version)
    (hscope : findScope corpus sources = .ok scope) (hkinds : selection.kinds = .ok kinds) :
    False := by
  have hlt := h.two_lt_stage hcorpus hversion hscope
  cases h with
  | corpus => cases hlt
  | version => exact absurd hlt (Nat.not_lt_of_le (Nat.le_succ 1))
  | scope => exact absurd hlt (Nat.lt_irrefl 2)
  | messageKind hname hnone =>
    have hsome := Selection.valid_of_kinds_ok hkinds _ hname
    rw [hnone] at hsome
    cases hsome

end SetupError.Arises

/-! ## All arguments -/

/-- **A command cannot be run exactly when something is wrong with its arguments**, and what comes
first is the reason.  Otherwise it starts from the corpus, the version, the scope and the kinds that
its arguments say. -/
theorem setUp_cases (files : FileSystem) (sources : Sources) (selection : Selection) :
    (∃ e, setUp files sources selection = .error e ∧ e.Arises files sources selection ∧
      ∀ e', SetupError.Arises files sources selection e' → e.stage ≤ e'.stage) ∨
    ∃ corpus version scope kinds,
      loadCorpus files sources = .ok corpus ∧ chooseVersion sources = .ok version ∧
      findScope corpus sources = .ok scope ∧ selection.kinds = .ok kinds ∧
      (∀ e, ¬SetupError.Arises files sources selection e) ∧
      setUp files sources selection =
        .ok ⟨.fresh corpus version ⟨sources.collection, sources.sigDirs⟩, scope,
          .opening kinds⟩ := by
  unfold setUp
  cases hcorpus : loadCorpus files sources with
  | error e =>
    obtain ⟨harises, hstage⟩ := arises_of_loadCorpus hcorpus
    exact Or.inl ⟨e, rfl, harises, fun e' _ => hstage ▸ Nat.zero_le _⟩
  | ok corpus =>
    cases hversion : chooseVersion sources with
    | error e =>
      obtain ⟨harises, hstage⟩ := arises_of_chooseVersion hversion
      exact Or.inl ⟨e, rfl, harises, fun e' h' => hstage ▸ h'.stage_pos hcorpus⟩
    | ok version =>
      dsimp only [bind, Except.bind]
      cases hscope : findScope corpus sources with
      | error e =>
        obtain ⟨harises, hstage⟩ := arises_of_findScope hcorpus hscope
        exact Or.inl ⟨e, rfl, harises, fun e' h' => hstage ▸ h'.one_lt_stage hcorpus hversion⟩
      | ok scope =>
        cases hkinds : selection.kinds with
        | error e =>
          obtain ⟨harises, hstage⟩ := arises_of_kinds hkinds
          exact Or.inl ⟨e, rfl, harises,
            fun e' h' => hstage ▸ h'.two_lt_stage hcorpus hversion hscope⟩
        | ok kinds =>
          exact Or.inr ⟨corpus, version, scope, kinds, rfl, rfl, hscope, rfl,
            fun e h => h.elim hcorpus hversion hscope hkinds, rfl⟩

end DocTypes.CommandLine
