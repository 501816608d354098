import DocTypes.Proofs.Corpus.Listing
import DocTypes.Proofs.Resolver.Dependencies

/-! # Resolvers over the same declarations

The index takes from a corpus the names and paths of its namespaces (`Orderly.mem_knownNames_iff`).
These are given by the declarations, so resolvers over corpora with the same declarations list the
same names and give the same answers, in whatever order the declarations are made and however often
(`same_declarations`).  Only the places of entities, and with them the scopes, are others. -/

namespace DocTypes

namespace Corpus

variable {c : Corpus} {known : KnownName}

/-- The names that the index takes from a corpus are those of the namespaces that it holds. -/
theorem Orderly.mem_knownNames_iff (h : c.Orderly) :
    known ∈ c.knownNames ↔ ∃ owners name, c.Has owners name EntityKind.isNamespace ∧
      known = ⟨name, Name.join (owners ++ [name])⟩ := by
  rw [mem_knownNames h.toWellFormed]
  constructor
  · rintro ⟨id, e, he, hkind, rfl⟩
    obtain ⟨hnamespace, hroot⟩ := EntityKind.isNamespace_of_moduleOrClass hkind
    obtain ⟨p, hp, -⟩ := h.parent id e he (h.ne_root he hroot)
    exact ⟨c.trail p, e.name, ⟨id, e, p, he, hp, rfl, rfl, hnamespace⟩,
      by rw [(path_eq_join h.toWellFormed he hp hnamespace).2]⟩
  · rintro ⟨owners, name, ⟨id, e, p, he, hp, rfl, rfl, hkind⟩, rfl⟩
    exact ⟨id, e, he, OneRoot.kind_of_namespace h.one_root h.rooted he hp hkind,
      by rw [(path_eq_join h.toWellFormed he hp hkind).2]⟩

end Corpus

namespace Resolver

variable {r r' : Resolver} {files : FileSystem} {ds ds' : List Declaration}

/-- Resolvers with the same options over corpora that give the same names list the same. -/
theorem mem_build_congr
    (hnames : ∀ known, known ∈ r'.corpus.knownNames ↔ known ∈ r.corpus.knownNames)
    (hversion : r'.version = r.version) (hdependencies : r'.dependencies = r.dependencies)
    (known : KnownName) :
    known ∈ (r'.build files).1.names ↔ known ∈ (r.build files).1.names := by
  rw [mem_build, mem_build, hnames, hversion, hdependencies]

/-- **What there is to know is a matter of which declarations there are**, not of their order or of
how often they are made.

Corpora with the same declarations list the same paths under the same kinds.  A class is listed when
there is a declaration of the path as a class, and any other namespace when there is a declaration of
it or of something below it.  So resolvers with the same options, whose indices were built over the
same files if they were built before, give the same paths for every name, the same single path, and
know as many names. -/
theorem same_declarations (hds : ∀ d ∈ ds, d.Named ∧ d.kind ≠ .root)
    (hsame : ∀ d, d ∈ ds ↔ d ∈ ds') :
    (∀ kind path, (kind, path) ∈ (Corpus.ofDeclarations ds').listing ↔
      (kind, path) ∈ (Corpus.ofDeclarations ds).listing) ∧
    (∀ path, (.classDef, path) ∈ (Corpus.ofDeclarations ds).listing ↔
      ∃ d ∈ ds, d.kind = .classDef ∧ d.fullName = path) ∧
    (∀ path, (.moduleDef, path) ∈ (Corpus.ofDeclarations ds).listing ↔
      (∃ d ∈ ds, (d.kind.isNamespace = true ∧ d.fullName = path) ∨ d.LiesBelow path) ∧
        ¬∃ d ∈ ds, d.kind = .classDef ∧ d.fullName = path) ∧
    ∀ r r' : Resolver, ∀ files, r.corpus = .ofDeclarations ds → r'.corpus = .ofDeclarations ds' →
      r'.version = r.version → r'.dependencies = r.dependencies →
      r.Reflects files → r'.Reflects files →
        (∀ name, (r'.pathsFor files name).value = (r.pathsFor files name).value ∧
          (r'.pathFor? files name).value = (r.pathFor? files name).value) ∧
        (r'.knownNames files).value = (r.knownNames files).value := by
  refine ⟨fun _ _ => Corpus.mem_listing_congr hds hsame,
    fun _ => Corpus.classDef_mem_listing_iff hds, fun _ => Corpus.moduleDef_mem_listing_iff hds, ?_⟩
  intro r r' files hcorpus hcorpus' hversion hdependencies hreflects hreflects'
  have h := Corpus.orderly_ofDeclarations hds
  have h' := Corpus.orderly_ofDeclarations fun d hd => hds d ((hsame d).mpr hd)
  have hnames : ∀ known, known ∈ r'.corpus.knownNames ↔ known ∈ r.corpus.knownNames := by
    intro known
    rw [hcorpus, hcorpus', h.mem_knownNames_iff, h'.mem_knownNames_iff]
    simp only [Corpus.has_congr hds hsame EntityKind.steady_isNamespace.upward]
  have hbuilt : ∀ known, known ∈ (r'.build files).1.names ↔ known ∈ (r.build files).1.names :=
    mem_build_congr hnames hversion hdependencies
  have hpaths : ∀ name, (r'.pathsFor files name).value = (r.pathsFor files name).value := by
    intro name
    by_cases habsolute : Name.isAbsolute name = true
    · rw [pathsFor_of_isAbsolute habsolute, pathsFor_of_isAbsolute habsolute]
    · have hrelative := Bool.eq_false_iff.mpr habsolute
      rw [hreflects.value_pathsFor hrelative, hreflects'.value_pathsFor hrelative]
      exact NameIndex.pathsFor_congr hbuilt name
  refine ⟨fun name => ⟨hpaths name, congrArg only? (hpaths name)⟩, ?_⟩
  calc (r'.knownNames files).value
      = (r'.build files).1.size := congrArg NameIndex.size hreflects'.value_index
    _ = (r.build files).1.size := NameIndex.size_congr hbuilt
    _ = (r.knownNames files).value := congrArg NameIndex.size hreflects.value_index.symm

/-- A class that is declared before and after a method in it, or after it only. -/
theorem same_declarations_repeated :
    let ds : List Declaration := [⟨.classDef, "A::B"⟩, ⟨.methodDef, "A::B#run"⟩, ⟨.classDef, "A::B"⟩]
    let ds' : List Declaration := [⟨.methodDef, "A::B#run"⟩, ⟨.classDef, "A::B"⟩]
    let r := fresh (.ofDeclarations ds) .default ⟨none, []⟩
    let r' := fresh (.ofDeclarations ds') .default ⟨none, []⟩
    let files : FileSystem := ⟨[], []⟩
    (.moduleDef, "A".toList) ∈ (Corpus.ofDeclarations ds').listing ∧
      (.classDef, "A::B".toList) ∈ (Corpus.ofDeclarations ds').listing ∧
      (r'.pathFor? files "B").value = some "A::B".toList ∧
      (r'.knownNames files).value = (r.knownNames files).value := by
  intro ds ds' r r' files
  have hsame : ∀ d, d ∈ ds ↔ d ∈ ds' := by
    intro d
    simp [ds, ds', or_comm]
  have hds : ∀ d ∈ ds, d.Named ∧ d.kind ≠ .root := by decide +kernel
  have hlisted : (.moduleDef, "A".toList) ∈ (Corpus.ofDeclarations ds).listing ∧
      (.classDef, "A::B".toList) ∈ (Corpus.ofDeclarations ds).listing := by
    decide +kernel
  have hpath : (r.pathFor? files "B").value = some "A::B".toList := by decide +kernel
  obtain ⟨hlisting, -, -, hanswers⟩ := same_declarations hds hsame
  obtain ⟨hpaths, hknown⟩ := hanswers r r' files rfl rfl (by simp only [r, r', fresh])
    (by simp only [r, r', fresh]) (reflects_fresh _ _ _) (reflects_fresh _ _ _)
  exact ⟨(hlisting _ _).mpr hlisted.1, (hlisting _ _).mpr hlisted.2, (hpaths "B").2.trans hpath,
    hknown⟩

end Resolver
end DocTypes
