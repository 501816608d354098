import DocTypes.Proofs.Conversion.Names
import DocTypes.Proofs.Resolver.Index

/-! # Inference is final

The path that a name is inferred to is the only known one that ends in the name.  What ends in
that path ends in the name, too, so there is no other path for which it could be taken
(`pathFor?_pathFor`).  Scopes of entities are thus settled (`settled_scopeFor`), and they stay the
same when a conversion builds the index (`scopeFor_convert`): what a name is converted to is
converted to itself after that (`convert_settled`).

Here the index may be older than the files at hand, as long as it was built over some files. -/

namespace DocTypes.Resolver

variable {r : Resolver} {files before : FileSystem} {settings : Settings}
variable {entity? : Option EntityId} {name path : Text}

/-! ## The only path of a path -/

/-- A path in which a name ends and which is another text is longer by at least a word. -/
theorem colon_mem_of_suffix {known : KnownName} (h : known.Proper)
    (hsimple : Name.isSimple name = true) (hrelative : Name.isAbsolute name = false)
    (hsuffix : Name.components name <:+ Name.components known.path) (hother : known.path ≠ name) :
    ':' ∈ known.path := by
  obtain ⟨outer, hwords, hpath⟩ := h
  obtain ⟨parts, hparts, rfl⟩ := Name.exists_words_of_relative hsimple hrelative
  rw [hpath, Name.components_join hwords, Name.components_join hparts] at hsuffix
  obtain ⟨front, hfront⟩ := hsuffix
  have hne : front ≠ [] := by
    rintro rfl
    exact hother (by rw [hpath, ← hfront]; rfl)
  rw [hpath, ← hfront, Name.join_append hne hparts.ne_nil]
  simp

/-- **What a name is inferred to is an identifier that is inferred to itself.** -/
theorem pathFor?_pathFor (h : r.corpus.WellFormed) (hsimple : Name.isSimple name = true)
    (hrelative : Name.isAbsolute name = false)
    (hpath : only? ((r.build files).1.pathsFor name) = some path) (hother : path ≠ name) :
    Name.isSimple path = true ∧ Name.isAbsolute path = false ∧ ':' ∈ path ∧
      only? ((r.build files).1.pathsFor path) = some path := by
  have honly := (only?_eq_some_iff (NameIndex.nodup_pathsFor _ name)).mp hpath
  simp only [mem_pathsFor_build h hsimple hrelative] at honly
  obtain ⟨hknown, hsuffix⟩ := (honly path).mpr rfl
  obtain ⟨known, hlisted, rfl⟩ := (known_iff h).mp hknown
  have hproper := proper_of_mem_build h hlisted
  have hcolon := colon_mem_of_suffix hproper hsimple hrelative hsuffix hother
  obtain ⟨outer, hwords, hjoin⟩ := hproper
  have hpathSimple : Name.isSimple known.path = true := hjoin ▸ Name.isSimple_join hwords
  have hpathRelative : Name.isAbsolute known.path = false := hjoin ▸ Name.isAbsolute_join hwords
  refine ⟨hpathSimple, hpathRelative, hcolon, ?_⟩
  rw [only?_eq_some_iff (NameIndex.nodup_pathsFor _ known.path)]
  intro other
  rw [mem_pathsFor_build h hpathSimple hpathRelative]
  constructor
  · rintro ⟨hotherKnown, hends⟩
    exact (honly other).mp ⟨hotherKnown, hsuffix.trans hends⟩
  · rintro rfl
    exact ⟨hknown, List.suffix_refl _⟩

/-! ## Scopes of entities -/

/-- The index that a conversion asks is the one that any other question is answered from. -/
theorem get_built : (r.built files).get.1 = (r.index files).value := by
  unfold built index
  cases r.index? <;> rfl

/-- It was built over some files. -/
theorem Reflects.exists_build (h : r.Reflects before) :
    ∃ asked, (r.built files).get.1 = (r.build asked).1 := by
  rw [get_built, index]
  split
  · next index hindex => exact ⟨before, h index hindex⟩
  · exact ⟨files, rfl⟩

/-- The paths that a scope knows are those that the index over some files gives. -/
theorem Reflects.exists_pathFor?_eq (h : r.Reflects before) {scope : Scope}
    (hscope : scope ∈ r.scopeFor files entity?) :
    ∃ asked, ∀ name, scope.pathFor? name =
      only? (if Name.isAbsolute name then [name] else (r.build asked).1.pathsFor name) := by
  obtain ⟨entity, -, rfl⟩ := Option.map_eq_some_iff.mp hscope
  obtain ⟨asked, hasked⟩ : ∃ asked, (r.built files).get.1 = (r.build asked).1 := h.exists_build
  refine ⟨asked, fun name => ?_⟩
  rw [← hasked]
  rfl

theorem settled_scopeFor (hwell : r.corpus.WellFormed) (hreflects : r.Reflects before) :
    ∀ scope ∈ r.scopeFor files entity?, scope.Settled := by
  intro scope hscope name path hsimple hpath hother
  obtain ⟨asked, hanswer⟩ := hreflects.exists_pathFor?_eq hscope
  rw [hanswer] at hpath ⊢
  cases habsolute : Name.isAbsolute name with
  | true =>
    rw [habsolute] at hpath
    exact absurd (Option.some.inj hpath).symm hother
  | false =>
    rw [habsolute] at hpath
    obtain ⟨hpathSimple, hpathRelative, hcolon, hsame⟩ :=
      pathFor?_pathFor hwell hsimple habsolute hpath hother
    refine ⟨hpathSimple, hcolon, ?_⟩
    rw [hpathRelative]
    exact hsame

/-- Building the index on the way does not change a scope. -/
theorem scopeFor_convert (tag : Annotation) :
    (r.convert files settings entity? tag).resolver.scopeFor files entity? =
      r.scopeFor files entity? := by
  rw [convert, answer]
  dsimp only
  split
  · cases entity? <;> rfl
  · rfl

theorem Reflects.resolver_convert (h : r.Reflects files) (tag : Annotation) :
    (r.convert files settings entity? tag).resolver.Reflects files := by
  have hbuilt : (r.built files).get.1 = (r.build files).1 := get_built.trans h.value_index
  rw [convert, answer]
  dsimp only
  split
  · intro index hindex
    exact (Option.some.inj hindex).symm.trans hbuilt
  · exact h

/-! ## Converting again -/

/-- What is reported about dependencies is no inference. -/
theorem kind_of_mem_diagnostics_index {d : Diagnostic} (h : d ∈ (r.index files).diagnostics) :
    d.kind = .warning := by
  rw [diagnostics_index] at h
  obtain ⟨f, -, rfl⟩ := List.mem_map.mp h
  rfl

/-- **A name that is converted to a path has reached its end.**  Converted once more in the same
scope, the path is converted to itself, and no inference is reported. -/
theorem convert_settled (hdeclared : r.corpus.Declared) (hreflects : r.Reflects before)
    (hsimple : Name.isSimple name = true) (hkeyword : Keyword.isKeyword name = false)
    (h : (r.convert files settings entity? (.one name)).value = .raw path) :
    let again := (r.convert files settings entity? (.one name)).resolver.convert files settings
      entity? (.one path)
    again.value = .raw path ∧ ∀ d ∈ again.diagnostics, d.kind ≠ .inference := by
  intro again
  have hscope : ∀ scope ∈ r.scopeFor files entity?, scope.Settled :=
    settled_scopeFor hdeclared.wellFormed hreflects
  obtain ⟨hvalue, hfindings⟩ := Conversion.convertOne_settled hscope hsimple hkeyword h
  have hsame : (r.convert files settings entity? (.one name)).resolver.scopeFor files entity? =
      r.scopeFor files entity? := scopeFor_convert (.one name)
  constructor
  · calc again.value
        = (Conversion.convertOne settings
            ((r.convert files settings entity? (.one name)).resolver.scopeFor files entity?)
            path).value := rfl
      _ = (Conversion.convertOne settings (r.scopeFor files entity?) path).value := by rw [hsame]
      _ = .raw path := hvalue
  · intro d hd
    obtain ⟨front, index, back, hown, hall, hindex⟩ :=
      diagnostics_split (r.convert files settings entity? (.one name)).resolver files settings
        entity? (.one path)
    have hnone : ∀ d ∈ front ++ back, d.kind ≠ .inference := by
      rw [← hown, ownReports, hsame]
      intro d hd
      obtain ⟨f, hf, rfl⟩ := List.mem_map.mp hd
      exact hfindings f hf
    have hwarnings : ∀ d ∈ index, d.kind ≠ .inference := by
      intro d hd
      rcases hindex with rfl | rfl
      · cases hd
      · rw [kind_of_mem_diagnostics_index hd]
        decide
    rw [hall] at hd
    rcases List.mem_append.mp hd with hd | hd
    · rcases List.mem_append.mp hd with hd | hd
      · exact hnone d (List.mem_append_left _ hd)
      · exact hwarnings d hd
    · exact hnone d (List.mem_append_right _ hd)

/-- A name is inferred once, and not again when its path is converted. -/
theorem convert_settled_inferred :
    let r := fresh (.ofDeclarations [⟨.classDef, "A::B"⟩, ⟨.classDef, "C"⟩]) .default ⟨none, []⟩
    let files : FileSystem := ⟨[], []⟩
    let first := r.convert files ⟨false, false, .rbi⟩ (some 3) (.one "B")
    let again := first.resolver.convert files ⟨false, false, .rbi⟩ (some 3) (.one "A::B")
    (first.value = .raw "A::B".toList ∧ ∃ d ∈ first.diagnostics, d.kind = .inference) ∧
      again.value = .raw "A::B".toList ∧ ∀ d ∈ again.diagnostics, d.kind ≠ .inference := by
  intro r files first again
  have hdeclared : r.corpus.Declared := Corpus.declared_ofDeclarations (by decide +kernel)
  have hreflects : r.Reflects files := reflects_fresh _ _ _
  have hfirst : first.value = .raw "A::B".toList ∧
      ∃ d ∈ first.diagnostics, d.kind = .inference := by
    decide +kernel
  exact ⟨hfirst, convert_settled hdeclared hreflects (by decide) (by decide) hfirst.1⟩

end DocTypes.Resolver
