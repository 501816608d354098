import DocTypes.Proofs.Corpus.Path
import DocTypes.Proofs.Signature.Harvest
import DocTypes.Proofs.Text.Sorted
import DocTypes.Resolver.Basic

/-! # What the index answers

A path is *known* when it is that of a declared module or class, that of a builtin class of the
host, or one that was harvested from a signature file that loads (`Resolver.Known`).  Asked for a
relative name, the index answers with exactly the known paths whose components end in those of the
name (`pathsFor_exact`).

The index looks in one place only, under the last component of the name, and compares texts there.
That neither loses a path nor adds one is due to what is listed: every path is made of words and
is listed under the last of them (`KnownName.Proper`).  So a path that ends in a name is listed
where it is looked for, and separators cannot be found but between words
(`KnownName.Proper.matches_iff`). -/

namespace DocTypes

theorem NameIndex.nodup_pathsFor (index : NameIndex) (name : Text) :
    (index.pathsFor name).Nodup := nodup_sortUnique _

/-! ## Matching one listed name -/

namespace KnownName.Proper

variable {known : KnownName} {name : Text}

theorem components_eq (h : known.Proper) :
    ∃ outer, Name.components known.path = outer ++ [known.name] := by
  obtain ⟨outer, hwords, hpath⟩ := h
  exact ⟨outer, by rw [hpath, Name.components_join hwords]⟩

/-- A name is looked for in the right place, and what is found there is compared as it should be. -/
theorem matches_iff (h : known.Proper) (hsimple : Name.isSimple name = true)
    (hrelative : Name.isAbsolute name = false) :
    known.name = Name.lastComponent name ∧ NameIndex.endsIn known.path name = true ↔
      Name.components name <:+ Name.components known.path := by
  obtain ⟨outer, hwords, hpath⟩ := h
  obtain ⟨parts, hparts, rfl⟩ := Name.exists_words_of_relative hsimple hrelative
  have hends : NameIndex.endsIn known.path (Name.join parts) = true ↔
      parts <:+ outer ++ [known.name] := by
    rw [← Name.join_suffix_iff hwords hparts, hpath]
    simp [NameIndex.endsIn, Text.endsWith, Name.separator]
  rw [hends, hpath, Name.components_join hwords, Name.components_join hparts]
  refine ⟨And.right, fun hsuffix => ⟨?_, hsuffix⟩⟩
  -- Where the words of the path end in those of the name, the last ones are the same.
  obtain ⟨init, last, hsplit⟩ : ∃ init last, parts = init ++ [last] :=
    ⟨_, _, (List.dropLast_concat_getLast hparts.ne_nil).symm⟩
  have hlast : Name.isWord last = true := hparts.word last (by simp [hsplit])
  obtain ⟨front, hfront⟩ := hsuffix
  rw [hsplit, ← List.append_assoc] at hfront
  have hsame := (List.append_inj' hfront rfl).2
  rw [hsplit, Name.lastComponent_join hlast]
  exact (List.singleton_inj.mp hsame).symm

end KnownName.Proper

/-! ## The three sources -/

/-- Modules and classes are namespaces below the root. -/
theorem EntityKind.isNamespace_of_moduleOrClass {kind : EntityKind}
    (h : kind = .moduleDef ∨ kind = .classDef) : kind.isNamespace = true ∧ kind ≠ .root := by
  rcases h with rfl | rfl
  · exact ⟨rfl, EntityKind.noConfusion⟩
  · exact ⟨rfl, EntityKind.noConfusion⟩

namespace Corpus

variable {c : Corpus} {id : EntityId} {e : Entity} {known : KnownName}

/-- Whether an entity is a module or a class. -/
def IsModuleOrClass (c : Corpus) (id : EntityId) : Prop :=
  ∃ e, c.entity? id = some e ∧ (e.kind = .moduleDef ∨ e.kind = .classDef)

/-- The modules and classes of a corpus are listed, by their names and paths. -/
theorem mem_knownNames (h : c.WellFormed) :
    known ∈ c.knownNames ↔ ∃ id e, c.entity? id = some e ∧
      (e.kind = .moduleDef ∨ e.kind = .classDef) ∧ known = ⟨e.name, c.path id⟩ := by
  simp only [knownNames, namespaces, List.mem_map, List.mem_filterMap]
  constructor
  · rintro ⟨⟨kind, name, path⟩, ⟨id, hid, hlisted⟩, rfl⟩
    split at hlisted
    · next e he =>
      split at hlisted
      · next hkind =>
        cases hlisted
        exact ⟨id, e, he, hkind, rfl⟩
      · cases hlisted
    · cases hlisted
  · rintro ⟨id, e, he, hkind, rfl⟩
    have hroot : e.kind ≠ .root := (EntityKind.isNamespace_of_moduleOrClass hkind).2
    have hid : id ∈ c.ids := mem_ids.mpr ⟨h.ne_root he hroot, lt_size_of_entity he⟩
    exact ⟨⟨e.kind, e.name, c.path id⟩, ⟨id, hid, by simp [he, hkind]⟩, rfl⟩

theorem proper_of_mem_knownNames (h : c.WellFormed) (hknown : known ∈ c.knownNames) :
    known.Proper := by
  obtain ⟨id, e, he, hkind, rfl⟩ := (mem_knownNames h).mp hknown
  obtain ⟨hnamespace, hroot⟩ := EntityKind.isNamespace_of_moduleOrClass hkind
  obtain ⟨p, hp, -⟩ := h.parent id e he (h.ne_root he hroot)
  exact ⟨c.trail p, path_eq_join h he hp hnamespace⟩

end Corpus

namespace BuiltinClass

theorem isWord_of_mem_all : ∀ builtin ∈ all, Name.isWord builtin.name = true := by
  decide +kernel

theorem proper_of_mem_knownNames {version : RubyVersion} {known : KnownName}
    (h : known ∈ knownNames version) : known.Proper := by
  obtain ⟨name, hname, rfl⟩ := List.mem_map.mp h
  obtain ⟨builtin, hbuiltin, rfl⟩ := List.mem_map.mp hname
  have hword := isWord_of_mem_all builtin (List.mem_filter.mp hbuiltin).1
  exact ⟨[], .singleton hword, (Name.join_singleton _).symm⟩

end BuiltinClass

namespace Dependencies

variable {d : Dependencies} {files : FileSystem} {known : KnownName}

/-- The names of all signature files that load are listed. -/
theorem mem_harvest : known ∈ (d.harvest files).names ↔
    ∃ file ∈ (d.signatureFiles files).1, ∃ signatures,
      Signature.load files file = .ok signatures ∧ known ∈ DocTypes.harvest signatures := by
  have hfile : ∀ file, known ∈ (Harvest.ofFile files file).names ↔ ∃ signatures,
      Signature.load files file = .ok signatures ∧ known ∈ DocTypes.harvest signatures := by
    intro file
    unfold Harvest.ofFile
    cases Signature.load files file <;> simp
  simp only [Dependencies.harvest, Harvest.append, Harvest.concat, List.nil_append,
    List.flatMap_map, List.mem_flatMap, hfile]

theorem proper_of_mem_harvest (h : known ∈ (d.harvest files).names) : known.Proper := by
  obtain ⟨file, -, signatures, hload, hknown⟩ := mem_harvest.mp h
  unfold Signature.load at hload
  split at hload
  · cases hload
  split at hload
  · cases hload
  split at hload
  · cases hload
  · next hscan =>
    cases hload
    exact proper_of_scan hscan known hknown

end Dependencies

/-! ## All known paths -/

namespace Resolver

variable {r : Resolver} {files : FileSystem} {known : KnownName} {name path : Text}

/-- The paths that are known to a resolver over some files. -/
inductive Known (r : Resolver) (files : FileSystem) : Text → Prop where
  | declared {id : EntityId} (h : r.corpus.IsModuleOrClass id) : Known r files (r.corpus.path id)
  | builtin {name : Text} (h : name ∈ r.builtinNames) : Known r files name
  | harvested {file : Bytes} {signatures : List Signature} {known : KnownName}
      (hfile : file ∈ (r.dependencies.signatureFiles files).1)
      (hload : Signature.load files file = .ok signatures) (h : known ∈ harvest signatures) :
      Known r files known.path

theorem mem_build : known ∈ (r.build files).1.names ↔
    known ∈ r.corpus.knownNames ∨ known ∈ BuiltinClass.knownNames r.version ∨
      known ∈ (r.dependencies.harvest files).names := by
  simp [build, NameIndex.build]

/-- Whatever is listed is a path of words, under the last of them. -/
theorem proper_of_mem_build (h : r.corpus.WellFormed) (hknown : known ∈ (r.build files).1.names) :
    known.Proper := by
  rcases mem_build.mp hknown with hcorpus | hbuiltin | hharvest
  · exact Corpus.proper_of_mem_knownNames h hcorpus
  · exact BuiltinClass.proper_of_mem_knownNames hbuiltin
  · exact Dependencies.proper_of_mem_harvest hharvest

/-- The paths that are listed are the known ones. -/
theorem known_iff (h : r.corpus.WellFormed) :
    r.Known files path ↔ ∃ known ∈ (r.build files).1.names, known.path = path := by
  constructor
  · intro hknown
    cases hknown with
    | @declared id hid =>
      obtain ⟨e, he, hkind⟩ := hid
      have hlisted := (Corpus.mem_knownNames h).mpr ⟨id, e, he, hkind, rfl⟩
      exact ⟨_, mem_build.mpr (.inl hlisted), rfl⟩
    | builtin hname =>
      exact ⟨⟨path, path⟩, mem_build.mpr (.inr (.inl (List.mem_map.mpr ⟨path, hname, rfl⟩))), rfl⟩
    | @harvested file signatures known hfile hload hknown =>
      have hlisted := Dependencies.mem_harvest.mpr ⟨file, hfile, signatures, hload, hknown⟩
      exact ⟨known, mem_build.mpr (.inr (.inr hlisted)), rfl⟩
  · rintro ⟨known, hknown, rfl⟩
    rcases mem_build.mp hknown with hcorpus | hbuiltin | hharvest
    · obtain ⟨id, e, he, hkind, rfl⟩ := (Corpus.mem_knownNames h).mp hcorpus
      exact .declared ⟨e, he, hkind⟩
    · obtain ⟨name, hname, rfl⟩ := List.mem_map.mp hbuiltin
      exact .builtin hname
    · obtain ⟨file, hfile, signatures, hload, hknown⟩ := Dependencies.mem_harvest.mp hharvest
      exact .harvested hfile hload hknown

/-- **A relative name is answered with the known paths that end in it**, component by component. -/
theorem mem_pathsFor_build (h : r.corpus.WellFormed) (hsimple : Name.isSimple name = true)
    (hrelative : Name.isAbsolute name = false) :
    path ∈ (r.build files).1.pathsFor name ↔
      r.Known files path ∧ Name.components name <:+ Name.components path := by
  rw [NameIndex.mem_pathsFor, known_iff h]
  constructor
  · rintro ⟨known, hknown, hname, hends, rfl⟩
    have hproper := proper_of_mem_build h hknown
    exact ⟨⟨known, hknown, rfl⟩, (hproper.matches_iff hsimple hrelative).mp ⟨hname, hends⟩⟩
  · rintro ⟨⟨known, hknown, rfl⟩, hsuffix⟩
    have hproper := proper_of_mem_build h hknown
    obtain ⟨hname, hends⟩ := (hproper.matches_iff hsimple hrelative).mpr hsuffix
    exact ⟨known, hknown, hname, hends, rfl⟩

/-! ## Answers -/

/-- The index, if there is one, was built over these files. -/
def Reflects (r : Resolver) (files : FileSystem) : Prop :=
  ∀ index, r.index? = some index → index = (r.build files).1

theorem reflects_fresh (corpus : Corpus) (version : RubyVersion) (dependencies : Dependencies) :
    (fresh corpus version dependencies).Reflects files :=
  fun _ hindex => absurd hindex (Option.some_ne_none _).symm

theorem Reflects.value_index (h : r.Reflects files) :
    (r.index files).value = (r.build files).1 := by
  unfold index
  split
  · next index hindex => exact h index hindex
  · rfl

/-- An index that is built on the way was built over the files at hand. -/
theorem Reflects.resolver_index (h : r.Reflects files) :
    (r.index files).resolver.Reflects files := by
  unfold index
  split
  · exact h
  · intro index hindex
    exact (Option.some.inj hindex).symm

theorem pathsFor_of_relative (hrelative : Name.isAbsolute name = false) :
    (r.pathsFor files name).value = (r.index files).value.pathsFor name := by
  rw [pathsFor, hrelative]
  rfl

theorem pathsFor_of_isAbsolute (habsolute : Name.isAbsolute name = true) :
    (r.pathsFor files name).value = [name] := by
  rw [pathsFor, habsolute]
  rfl

/-- So was one that is built to answer for a name. -/
theorem Reflects.resolver_pathsFor (h : r.Reflects files) :
    (r.pathsFor files name).resolver.Reflects files := by
  unfold pathsFor
  split
  · exact h
  · exact h.resolver_index

theorem Reflects.value_pathsFor (h : r.Reflects files) (hrelative : Name.isAbsolute name = false) :
    (r.pathsFor files name).value = (r.build files).1.pathsFor name := by
  rw [pathsFor_of_relative hrelative, h.value_index]

/-- There is only one member of a list without repetition when all members are one. -/
theorem only?_eq_some_iff {paths : List Text} (hnodup : paths.Nodup) :
    only? paths = some path ↔ ∀ other, other ∈ paths ↔ other = path := by
  constructor
  · intro honly other
    unfold only? at honly
    split at honly
    · cases honly
      exact List.mem_singleton
    · cases honly
  · intro hall
    have hsingle : paths = [path] := by
      cases paths with
      | nil => exact absurd ((hall path).mpr rfl) List.not_mem_nil
      | cons first rest =>
        obtain rfl := (hall first).mp List.mem_cons_self
        cases rest with
        | nil => rfl
        | cons second rest =>
          obtain rfl := (hall second).mp (List.mem_cons_of_mem _ List.mem_cons_self)
          exact absurd List.mem_cons_self (List.nodup_cons.mp hnodup).1
    rw [hsingle]
    rfl

/-- The one path for a relative name is the only answer of the index. -/
theorem Reflects.pathFor?_eq_some_iff (h : r.Reflects files)
    (hrelative : Name.isAbsolute name = false) :
    (r.pathFor? files name).value = some path ↔
      ∀ other, other ∈ (r.pathsFor files name).value ↔ other = path := by
  have hnodup : (r.pathsFor files name).value.Nodup := by
    rw [h.value_pathsFor hrelative]
    exact NameIndex.nodup_pathsFor _ name
  exact only?_eq_some_iff hnodup

variable {ds : List Declaration}

/-- **The index answers exactly what all known paths would answer, each looked at in turn.**  The
corpus is that of a declaration list with words for the components of its paths.  A relative name is
answered with the known paths whose components end in those of the name, and there is the one path
for it that `pathFor?` gives when there is just one such path.  What is listed is listed under its
last component.  An absolute name is its own answer, whatever the index holds. -/
theorem pathsFor_exact (hcorpus : r.corpus = .ofDeclarations ds) (hds : ∀ d ∈ ds, d.Named)
    (hreflects : r.Reflects files) :
    (∀ name, Name.isSimple name = true → Name.isAbsolute name = false →
      (∀ path, path ∈ (r.pathsFor files name).value ↔
        r.Known files path ∧ Name.components name <:+ Name.components path) ∧
      ∀ path, (r.pathFor? files name).value = some path ↔
        ∀ other, r.Known files other ∧ Name.components name <:+ Name.components other ↔
          other = path) ∧
      (∀ known ∈ (r.index files).value.names,
        (Name.components known.path).getLast? = some known.name) ∧
      ∀ index? name, Name.isAbsolute name = true →
        ({ r with index? := index? }.pathsFor files name).value = [name] := by
  have hwell : r.corpus.WellFormed := hcorpus ▸ (Corpus.declared_ofDeclarations hds).wellFormed
  refine ⟨?_, ?_, fun index? name => pathsFor_of_isAbsolute⟩
  · intro name hsimple hrelative
    have hmem : ∀ path, path ∈ (r.pathsFor files name).value ↔
        r.Known files path ∧ Name.components name <:+ Name.components path := by
      intro path
      rw [hreflects.value_pathsFor hrelative, mem_pathsFor_build hwell hsimple hrelative]
    refine ⟨hmem, fun path => ?_⟩
    rw [hreflects.pathFor?_eq_some_iff hrelative]
    simp only [hmem]
  · intro known hknown
    rw [hreflects.value_index] at hknown
    obtain ⟨outer, houter⟩ := (proper_of_mem_build hwell hknown).components_eq
    rw [houter, List.getLast?_concat]

/-- A name does not end in another one because its text does. -/
theorem pathsFor_exact_word :
    let r := fresh (.ofDeclarations [⟨.classDef, "Outer::MyFoo"⟩, ⟨.classDef, "Other::Foo"⟩])
      .default ⟨none, []⟩
    let files : FileSystem := ⟨[], []⟩
    (r.pathFor? files "Foo").value = some "Other::Foo".toList ∧
      ∀ path, r.Known files path ∧ Name.components "Foo" <:+ Name.components path ↔
        path = "Other::Foo".toList := by
  intro r files
  have hreflects : r.Reflects files := reflects_fresh _ _ _
  have hpath : (r.pathFor? files "Foo").value = some "Other::Foo".toList := by decide +kernel
  obtain ⟨hanswers, -⟩ := pathsFor_exact (r := r) rfl (by decide +kernel) hreflects
  obtain ⟨-, honly⟩ := hanswers "Foo" (by decide) (by decide)
  exact ⟨hpath, (honly _).mp hpath⟩

end Resolver
end DocTypes
