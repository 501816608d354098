import DocTypes.Proofs.Conversion.Printing
import DocTypes.Proofs.Corpus.Spelling
import DocTypes.Proofs.Resolver.Index

/-! # What known paths are spelled with

The index lists paths of the corpus, and paths of words from the host and the dependencies.  So the
paths that a name can be taken for hold no characters but those of the corpus and those of any path
(`pathsAre_scopeFor`). -/

namespace DocTypes
namespace Corpus

theorem Spelled.path_of_mem_knownNames {c : Corpus} {p : Char → Bool} (h : c.Spelled p)
    (hcolon : p ':' = true) (hsign : p '#' = true) {known : KnownName}
    (hknown : known ∈ c.knownNames) : ∀ ch ∈ known.path, p ch = true := by
  simp only [knownNames, namespaces, List.mem_map, List.mem_filterMap] at hknown
  obtain ⟨⟨kind, name, path⟩, ⟨id, -, hlisted⟩, rfl⟩ := hknown
  split at hlisted
  · split at hlisted
    · cases hlisted
      exact h.path hcolon hsign id
    · cases hlisted
  · cases hlisted

end Corpus

/-- A path of words holds nothing but characters of words and colons. -/
theorem KnownName.Proper.isPathPart {known : KnownName} (h : known.Proper) :
    ∀ ch ∈ known.path, Name.isPathPart ch = true := by
  obtain ⟨outer, hwords, hpath⟩ := h
  exact fun ch hch => Name.isPathPart_of_mem (hpath ▸ Name.isSimple_join hwords) hch

namespace Resolver

variable {r : Resolver} {files : FileSystem} {p : Char → Bool}

/-- What is listed is spelled like the corpus, if that is spelled with all characters of paths. -/
theorem spelled_of_mem_build (h : r.corpus.Spelled p)
    (hpath : ∀ ch, Name.isPathPart ch = true → p ch = true) (hsign : p '#' = true)
    {known : KnownName} (hknown : known ∈ (r.build files).1.names) :
    ∀ ch ∈ known.path, p ch = true := by
  have hproper : known.Proper → ∀ ch ∈ known.path, p ch = true :=
    fun hproper ch hch => hpath ch (hproper.isPathPart ch hch)
  rcases mem_build.mp hknown with hcorpus | hbuiltin | hharvest
  · exact h.path_of_mem_knownNames (hpath ':' rfl) hsign hcorpus
  · exact hproper (BuiltinClass.proper_of_mem_knownNames hbuiltin)
  · exact hproper (Dependencies.proper_of_mem_harvest hharvest)

/-- **The paths that a name can be taken for are spelled like the corpus**, if the index is built
over these files. -/
theorem pathsAre_scopeFor (h : r.corpus.Spelled p)
    (hpath : ∀ ch, Name.isPathPart ch = true → p ch = true) (hsign : p '#' = true)
    (hindex : r.index? = none) (entity? : Option EntityId) :
    ∀ s ∈ r.scopeFor files entity?, s.PathsAre fun path => ∀ ch ∈ path, p ch = true := by
  intro s hs name path hsimple honly
  obtain ⟨entity, -, rfl⟩ := Option.map_eq_some_iff.mp hs
  have hbuilt : (r.built files).get = r.build files := by
    unfold built
    rw [hindex]
    rfl
  have honly' : only? (if Name.isAbsolute name then [name]
      else (r.build files).1.pathsFor name) = some path := by
    rw [← hbuilt]
    exact honly
  split at honly'
  · cases honly'
    exact fun ch hch => hpath ch (Name.isPathPart_of_mem hsimple hch)
  · have hmem : path ∈ (r.build files).1.pathsFor name :=
      ((only?_eq_some_iff (NameIndex.nodup_pathsFor _ name)).mp honly' path).mpr rfl
    obtain ⟨known, hknown, -, -, rfl⟩ := NameIndex.mem_pathsFor.mp hmem
    exact spelled_of_mem_build h hpath hsign hknown

end Resolver
end DocTypes
