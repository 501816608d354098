import DocTypes.Proofs.Conversion.Printing
import DocTypes.Proofs.Resolver.Lifecycle
import DocTypes.Proofs.TypeParts

/-! # What a converted type may look like

An annotation is any text, and its type goes into files that are read by programs.  Nothing of the
annotation gets there as it is: a type is printed with letters, digits, underscores, colons and
punctuation, its names are identifiers, and of a text that is no type no more is seen than the word
characters behind a mark (`TypeExpr.Harmless`, `Resolver.harmless_convert`).

A name may also come from the corpus, from the host or from a signature file.  All of these are
listed in the index as paths of words, whatever files it was built over, so an inferred name is an
identifier, too (`Resolver.isSimple_pathFor`). -/

namespace DocTypes

/-! ## Harmless types -/

namespace TypeExpr

/-- Whether a character may be seen in print: a letter, a digit, an underscore, a colon, a space or
punctuation. -/
def isOutput (c : Char) : Bool := isPlainPrint c || c == ':'

/-- A type that can be printed anywhere. -/
structure Harmless (t : TypeExpr) : Prop where
  shown : t.describe ≠ []
  output : ∀ c ∈ t.describe, isOutput c = true
  names : ∀ name, (raw name).Part t → Name.isSimple name = true
  /-- A placeholder anywhere in the type shows word characters behind a mark. -/
  placeholders : ∀ text, (error text).Part t → (error text).describe <:+: t.describe ∧
    ∃ rest, (error text).describe = "SORD_ERROR_" ++ rest ∧ ∀ c ∈ rest, Name.isWordPart c = true

variable {t : TypeExpr}

theorem isOutput_of_isPathPart {c : Char} (h : Name.isPathPart c = true) : isOutput c = true := by
  rw [Name.isPathPart, Bool.or_eq_true] at h
  rcases h with hword | hcolon
  · rw [isOutput, isPlainPrint, hword]
    rfl
  · rw [isOutput, hcolon, Bool.or_true]

/-- **A type in normal form is harmless**, if its names are identifiers. -/
theorem Normal.harmless (h : t.Normal) (hnames : t.NamesAre (Name.isSimple · = true)) :
    t.Harmless where
  shown := h.describe_ne_nil fun name hname hnil => by
    have hsimple := hnames name hname
    rw [hnil] at hsimple
    cases hsimple
  output := by
    have hplain : ∀ c, isPlainPrint c = true → isOutput c = true :=
      fun c hc => by rw [isOutput, hc, Bool.true_or]
    refine forall_mem_describe hplain t fun name hname c hc => ?_
    exact isOutput_of_isPathPart (Name.isPathPart_of_mem (hnames name hname) hc)
  names := fun name hpart => hnames.part hpart name List.mem_cons_self
  placeholders := fun text hpart => ⟨hpart.describe_infix, Name.sanitized text, rfl,
    fun _ hc => (List.mem_filter.mp hc).2⟩

end TypeExpr

/-! ## Names that are inferred -/

namespace Resolver

variable {r : Resolver} {files before : FileSystem} {entity? : Option EntityId}

/-- **What an identifier is inferred to is an identifier**, whatever files the index was built
over. -/
theorem isSimple_pathFor (hwell : r.corpus.WellFormed) (hreflects : r.Reflects before) :
    ∀ scope ∈ r.scopeFor files entity?, scope.PathsAre (Name.isSimple · = true) := by
  intro scope hscope name path hsimple hpath
  obtain ⟨asked, hanswer⟩ := hreflects.exists_pathFor?_eq hscope
  rw [hanswer] at hpath
  split at hpath
  · exact Option.some.inj hpath ▸ hsimple
  · have hmem : path ∈ (r.build asked).1.pathsFor name :=
      ((only?_eq_some_iff (NameIndex.nodup_pathsFor _ name)).mp hpath path).mpr rfl
    obtain ⟨known, hknown, -, -, rfl⟩ := NameIndex.mem_pathsFor.mp hmem
    obtain ⟨outer, hwords, hjoin⟩ := proper_of_mem_build hwell hknown
    exact hjoin ▸ Name.isSimple_join hwords

/-! ## Conversions in any history -/

theorem corpus_after (h : r.index? = none) (history : List Request) :
    (r.after history).corpus = r.corpus := by
  rw [after_eq h]

/-- Whatever a resolver was asked, its index was built over some files. -/
theorem exists_reflects_after (h : r.index? = none) (history : List Request) :
    ∃ before, (r.after history).Reflects before := by
  rw [after_eq h]
  cases hfirst : r.firstUse? history with
  | none => exact ⟨⟨[], []⟩, fun _ hindex => absurd hindex.symm (Option.some_ne_none _)⟩
  | some before => exact ⟨before, fun _ hindex => (Option.some.inj hindex).symm⟩

/-- **Every conversion gives a harmless type.**  The annotation, the settings and the dependencies
are any, and the resolver may have been asked anything before; of the corpus, if the annotation
belongs to an entity of it, all that counts is that namespaces are called by words. -/
theorem harmless_convert (corpus : Corpus) (version : RubyVersion) (dependencies : Dependencies)
    (history : List Request) (files : FileSystem) (settings : Settings)
    (entity? : Option EntityId) (tag : Annotation) (hcorpus : entity? ≠ none → corpus.Declared) :
    let r := (fresh corpus version dependencies).after history
    (r.convert files settings entity? tag).value.Harmless := by
  intro r
  have hscope : ∀ scope ∈ r.scopeFor files entity?, scope.PathsAre (Name.isSimple · = true) := by
    intro scope hscope
    have hentity : entity? ≠ none := by
      rintro rfl
      cases hscope
    have hsame : r.corpus = corpus := corpus_after rfl history
    have hwell : r.corpus.WellFormed := hsame ▸ (hcorpus hentity).wellFormed
    obtain ⟨before, hreflects⟩ : ∃ before, r.Reflects before := exists_reflects_after rfl history
    exact isSimple_pathFor hwell hreflects scope hscope
  have hnormal : (r.convert files settings entity? tag).value.Normal := Conversion.normal_convert tag
  exact hnormal.harmless (Conversion.namesAre_convert (fun _ hname => hname) hscope tag)

/-- A name from a signature file, and a text with a line break and quotes. -/
theorem harmless_convert_hostile :
    let corpus : Corpus := .ofDeclarations [⟨.classDef, "A"⟩]
    let files : FileSystem :=
      ⟨[.directory "c" [.file "a.rbs" (some "class Out\nclass Thing\nend\nend")]], []⟩
    let r := (fresh corpus .default ⟨some "c", []⟩).after [⟨files, .clear⟩]
    let t := (r.convert files ⟨false, false, .rbs⟩ (some 1) (.many ["Thing", "<\n\"; x"])).value
    (corpus.Declared ∧ t.describe = "Out::Thing | SORD_ERROR_x") ∧ t.Harmless := by
  intro corpus files r t
  have hcorpus : corpus.Declared := Corpus.declared_ofDeclarations (by decide +kernel)
  exact ⟨⟨hcorpus, by decide +kernel⟩, harmless_convert corpus .default ⟨some "c", []⟩
    [⟨files, .clear⟩] files ⟨false, false, .rbs⟩ (some 1) (.many ["Thing", "<\n\"; x"])
    fun _ => hcorpus⟩

end Resolver
end DocTypes
