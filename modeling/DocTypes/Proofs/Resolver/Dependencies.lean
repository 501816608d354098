import DocTypes.Proofs.Resolver.Index

/-! # Signature files stand apart

Every signature file of the dependencies is read for itself.  One that loads adds its names to the
index, and one that does not adds nothing and is reported, each time that it is found; so is a
collection that is not there (`NameIndex.build_isolated`).

What the index lists thus depends only on which files are found, neither on their order nor on how
often each is found (`Dependencies.Within.mem_build`).  As the index answers with the sorted paths
of what it lists, it has one set of answers for all orders of the directories, and with a directory
more it can only have more of them. -/

namespace DocTypes

/-! ## What an index lists is all that matters -/

namespace NameIndex

variable {index other : NameIndex} {name path : Text}

/-- More names give more answers. -/
theorem mem_pathsFor_of_subset (h : ∀ known ∈ index.names, known ∈ other.names)
    (hpath : path ∈ index.pathsFor name) : path ∈ other.pathsFor name := by
  obtain ⟨known, hknown, hname, hends, rfl⟩ := mem_pathsFor.mp hpath
  exact mem_pathsFor.mpr ⟨known, h known hknown, hname, hends, rfl⟩

/-- The same names give the same answers. -/
theorem pathsFor_congr (h : ∀ known, known ∈ index.names ↔ known ∈ other.names) (name : Text) :
    index.pathsFor name = other.pathsFor name := by
  refine sortUnique_eq_of_mem_iff fun path => ?_
  simp only [List.mem_map, List.mem_filter, h]

/-- The same names are as many, whatever is listed twice. -/
theorem size_congr (h : ∀ known, known ∈ index.names ↔ known ∈ other.names) :
    index.size = other.size := by
  have hnames : ∀ name, name ∈ (index.names.map (·.name)).eraseDups ↔
      name ∈ (other.names.map (·.name)).eraseDups := by
    intro name
    simp only [List.mem_eraseDups, List.mem_map, h]
  exact ((List.perm_ext_iff_of_nodup (nodup_eraseDups _) (nodup_eraseDups _)).mpr hnames).length_eq

end NameIndex

/-- What becomes of the only one of several paths when there are more. -/
theorem Resolver.only?_of_subset {paths more : List Text} {path : Text} (hnodup : more.Nodup)
    (hsubset : ∀ other ∈ paths, other ∈ more) (h : only? paths = some path) :
    only? more = some path ∨ only? more = none := by
  have hpath : path ∈ more := by
    unfold only? at h
    split at h
    · cases h
      exact hsubset path List.mem_cons_self
    · cases h
  cases honly : only? more with
  | none => exact Or.inr rfl
  | some found =>
    obtain rfl := ((only?_eq_some_iff hnodup).mp honly path).mp hpath
    exact Or.inl rfl

/-! ## Files that load and files that do not -/

namespace Signature

variable {files : FileSystem} {file : Bytes} {signatures : List Signature}

/-- A file loads when it has the extension of a format, can be read, and scans in that format. -/
theorem load_eq_ok_iff : load files file = .ok signatures ↔
    ∃ format source, SignatureFormat.ofPath? file = some format ∧
      files.read file = .ok source ∧ scan format source = .ok signatures := by
  unfold load
  constructor
  · intro h
    split at h
    · cases h
    · next format hformat =>
      split at h
      · cases h
      · next source hread =>
        split at h
        · cases h
        · next hscan =>
          cases h
          exact ⟨format, source, hformat, hread, hscan⟩
  · rintro ⟨format, source, hformat, hread, hscan⟩
    simp only [hformat, hread, hscan]

end Signature

/-- The report of a file that does not load. -/
def DependencyFinding.ofFile? (files : FileSystem) (file : Bytes) : Option DependencyFinding :=
  match Signature.load files file with
  | .ok _ => none
  | .error reason => some (.unreadableFile reason)

namespace Dependencies

variable {d other : Dependencies} {files : FileSystem} {file : Bytes} {directory : Text}

/-- There is one report for each time that a file is found which does not load. -/
theorem findings_harvest (d : Dependencies) (files : FileSystem) :
    (d.harvest files).findings = (d.collectionFiles files).2 ++
      (d.signatureFiles files).1.filterMap (DependencyFinding.ofFile? files) := by
  have hfile : ∀ file, (Harvest.ofFile files file).findings =
      (DependencyFinding.ofFile? files file).toList := by
    intro file
    unfold Harvest.ofFile DependencyFinding.ofFile?
    cases Signature.load files file <;> rfl
  simp only [harvest, Harvest.append, Harvest.concat, signatureFiles, List.flatMap_map, hfile,
    List.filterMap_eq_flatMap_toList]

/-- Whether there is to be a collection that is not there. -/
def missesCollection (d : Dependencies) (files : FileSystem) : Bool :=
  d.collection?.any fun directory => (files.directory? directory).isNone

theorem collectionFiles_of_none (h : d.collection? = none) : d.collectionFiles files = ([], []) := by
  rw [collectionFiles, h]

theorem collectionFiles_of_missing (h : d.missesCollection files = true) :
    d.collectionFiles files = ([], [.missingCollection]) := by
  unfold missesCollection at h
  cases hcollection : d.collection? with
  | none => simp [hcollection] at h
  | some directory =>
    have hmissing : files.directory? directory = none := by simpa [hcollection] using h
    simp [collectionFiles, hcollection, hmissing]

/-- There is a report of the collection when it is missing, and only then. -/
theorem findings_collectionFiles (d : Dependencies) (files : FileSystem) :
    (d.collectionFiles files).2 =
      if d.missesCollection files then [.missingCollection] else [] := by
  by_cases hmissing : d.missesCollection files = true
  · rw [collectionFiles_of_missing hmissing, if_pos hmissing]
  · rw [if_neg hmissing]
    cases hcollection : d.collection? with
    | none => rw [collectionFiles_of_none hcollection]
    | some directory =>
      have hpresent : (files.directory? directory).isSome = true := by
        simpa [missesCollection, hcollection, Option.isSome_iff_ne_none] using hmissing
      simp [collectionFiles, hcollection, hpresent]

/-- A collection that is missing is reported first, and nothing else changes for that. -/
theorem harvest_of_missing (h : d.missesCollection files = true) :
    let without := { d with collection? := none }.harvest files
    d.harvest files = ⟨without.names, .missingCollection :: without.findings⟩ := by
  simp only [harvest, signatureFiles, collectionFiles_of_missing h, collectionFiles_of_none,
    Harvest.append, List.cons_append]

/-- The names of the files that are found, can be read and can be scanned are listed. -/
theorem mem_harvest_iff_scan {known : KnownName} : known ∈ (d.harvest files).names ↔
    ∃ file ∈ (d.signatureFiles files).1, ∃ format source signatures,
      SignatureFormat.ofPath? file = some format ∧ files.read file = .ok source ∧
        Signature.scan format source = .ok signatures ∧ known ∈ DocTypes.harvest signatures := by
  simp only [mem_harvest, Signature.load_eq_ok_iff]
  constructor
  · rintro ⟨file, hfile, signatures, ⟨format, source, hformat, hread, hscan⟩, hknown⟩
    exact ⟨file, hfile, format, source, signatures, hformat, hread, hscan, hknown⟩
  · rintro ⟨file, hfile, format, source, signatures, hformat, hread, hscan, hknown⟩
    exact ⟨file, hfile, signatures, ⟨format, source, hformat, hread, hscan⟩, hknown⟩

/-- Whether other dependencies have all the directories of these. -/
structure Within (d other : Dependencies) : Prop where
  collection : ∀ directory, d.collection? = some directory → other.collection? = some directory
  gems : d.gems ⊆ other.gems

/-- More directories have more files. -/
theorem Within.mem_signatureFiles (h : d.Within other) (hfile : file ∈ (d.signatureFiles files).1) :
    file ∈ (other.signatureFiles files).1 := by
  simp only [signatureFiles, List.mem_append, List.mem_flatMap] at hfile ⊢
  rcases hfile with hcollection | ⟨gem, hgem, hfile⟩
  · left
    cases hd : d.collection? with
    | none =>
      rw [collectionFiles_of_none hd] at hcollection
      cases hcollection
    | some directory =>
      simpa only [collectionFiles, hd, h.collection directory hd] using hcollection
  · exact Or.inr ⟨gem, h.gems hgem, hfile⟩

/-- **With more directories, more names are listed.** -/
theorem Within.mem_build (h : d.Within other) {c : Corpus} {version : RubyVersion}
    {known : KnownName} (hknown : known ∈ (NameIndex.build c version d files).1.names) :
    known ∈ (NameIndex.build c version other files).1.names := by
  simp only [NameIndex.build, List.mem_append, mem_harvest] at hknown ⊢
  rcases hknown with hlocal | ⟨file, hfile, hload⟩
  · exact Or.inl hlocal
  · exact Or.inr ⟨file, h.mem_signatureFiles hfile, hload⟩

theorem within_of_subset {gems : List Text} (h : d.gems ⊆ gems) :
    d.Within { d with gems := gems } := ⟨fun _ hdirectory => hdirectory, h⟩

end Dependencies

/-! ## The answers of a resolver -/

namespace Resolver

variable {c : Corpus} {version : RubyVersion} {d other : Dependencies} {files : FileSystem}
variable {name path : Text}

theorem nodup_pathsFor (r : Resolver) (files : FileSystem) (name : Text) :
    (r.pathsFor files name).value.Nodup := by
  by_cases habsolute : Name.isAbsolute name = true
  · rw [pathsFor_of_isAbsolute habsolute]
    exact List.nodup_singleton name
  · rw [pathsFor_of_relative (Bool.eq_false_iff.mpr habsolute)]
    exact NameIndex.nodup_pathsFor _ name

/-- **With more directories, a name has more answers.** -/
theorem mem_pathsFor_of_within (h : d.Within other)
    (hpath : path ∈ ((fresh c version d).pathsFor files name).value) :
    path ∈ ((fresh c version other).pathsFor files name).value := by
  by_cases habsolute : Name.isAbsolute name = true
  · rwa [pathsFor_of_isAbsolute habsolute] at hpath ⊢
  · have hrelative := Bool.eq_false_iff.mpr habsolute
    rw [pathsFor_of_relative hrelative] at hpath ⊢
    exact NameIndex.mem_pathsFor_of_subset (fun _ => h.mem_build) hpath

/-- **With more directories, the one path for a name stays, or there are several.** -/
theorem pathFor?_of_within (h : d.Within other)
    (hpath : ((fresh c version d).pathFor? files name).value = some path) :
    ((fresh c version other).pathFor? files name).value = some path ∨
      ((fresh c version other).pathFor? files name).value = none :=
  only?_of_subset (nodup_pathsFor _ files name) (fun _ => mem_pathsFor_of_within h) hpath

/-- Dependencies of the same directories list the same names. -/
theorem mem_build_iff_of_within (h : d.Within other) (h' : other.Within d) (known : KnownName) :
    known ∈ (NameIndex.build c version d files).1.names ↔
      known ∈ (NameIndex.build c version other files).1.names :=
  ⟨h.mem_build, h'.mem_build⟩

theorem value_pathsFor_of_within (h : d.Within other) (h' : other.Within d) (name : Text) :
    ((fresh c version d).pathsFor files name).value =
      ((fresh c version other).pathsFor files name).value := by
  by_cases habsolute : Name.isAbsolute name = true
  · rw [pathsFor_of_isAbsolute habsolute, pathsFor_of_isAbsolute habsolute]
  · have hrelative := Bool.eq_false_iff.mpr habsolute
    rw [pathsFor_of_relative hrelative, pathsFor_of_relative hrelative]
    exact NameIndex.pathsFor_congr (mem_build_iff_of_within h h') name

/-- **Signature files stand apart from one another.**  The index lists the names of the corpus, those
of the builtin classes, and the names of just the files that are found, can be read and can be
scanned; of any other file it lists nothing.  A collection that is missing is reported once and keeps
nothing else from being listed or reported, and each time that a file is found which does not load
there is one report, all of them warnings.  The order in which the gems are given makes no difference
to what is known.  With more directories each name has more answers, so the one path for it stays
the same or is no longer the only one. -/
theorem build_isolated (c : Corpus) (version : RubyVersion) (d : Dependencies)
    (files : FileSystem) :
    let built := NameIndex.build c version d files
    let found := (d.signatureFiles files).1
    (∀ known, known ∈ built.1.names ↔
      known ∈ c.knownNames ∨ known ∈ BuiltinClass.knownNames version ∨
        ∃ file ∈ found, ∃ format source signatures,
          SignatureFormat.ofPath? file = some format ∧ files.read file = .ok source ∧
            Signature.scan format source = .ok signatures ∧ known ∈ harvest signatures) ∧
      (built.2 = (if d.missesCollection files then [.missingCollection] else []) ++
          found.filterMap (DependencyFinding.ofFile? files) ∧
        ∀ f ∈ built.2, f.diagnostic.kind = .warning) ∧
      (d.missesCollection files = true →
        let without := NameIndex.build c version { d with collection? := none } files
        built.1 = without.1 ∧ built.2 = .missingCollection :: without.2) ∧
      (∀ gems, gems.Perm d.gems →
        let other : Dependencies := { d with gems := gems }
        (∀ known, known ∈ (NameIndex.build c version other files).1.names ↔
            known ∈ built.1.names) ∧
          (NameIndex.build c version other files).1.size = built.1.size ∧
          ∀ name, ((fresh c version other).pathsFor files name).value =
            ((fresh c version d).pathsFor files name).value) ∧
      ∀ other : Dependencies, d.Within other → ∀ name,
        (∀ path ∈ ((fresh c version d).pathsFor files name).value,
            path ∈ ((fresh c version other).pathsFor files name).value) ∧
          ∀ path, ((fresh c version d).pathFor? files name).value = some path →
            ((fresh c version other).pathFor? files name).value = some path ∨
              ((fresh c version other).pathFor? files name).value = none := by
  intro built found
  refine ⟨?_, ⟨?_, fun _ _ => rfl⟩, ?_, ?_, ?_⟩
  · intro known
    rw [← Dependencies.mem_harvest_iff_scan]
    exact mem_build (r := fresh c version d)
  · rw [← Dependencies.findings_collectionFiles]
    exact d.findings_harvest files
  · intro hmissing without
    have hharvest := Dependencies.harvest_of_missing hmissing
    simp only [built, without, NameIndex.build, hharvest, and_self]
  · intro gems hperm other
    have hwithin : other.Within d := ⟨fun _ h => h, hperm.subset⟩
    have hwithin' : d.Within other := ⟨fun _ h => h, hperm.symm.subset⟩
    have hsame : ∀ known, known ∈ (NameIndex.build c version { d with gems := gems } files).1.names ↔
        known ∈ built.1.names := mem_build_iff_of_within hwithin hwithin'
    exact ⟨hsame, NameIndex.size_congr hsame, value_pathsFor_of_within hwithin hwithin'⟩
  · intro other hwithin name
    exact ⟨fun _ => mem_pathsFor_of_within hwithin, fun _ => pathFor?_of_within hwithin⟩

/-- A file that ends too early declares nothing, not even what it closed before, and the collection
is missing. -/
theorem build_isolated_broken :
    let files : FileSystem := ⟨[.directory "a" [.directory "sig"
        [.file "x.rbs" (some "class Lost\nend\nclass Open\n")]],
      .directory "b" [.directory "sig" [.file "y.rbs" (some "class Kept\nend\n")]]], []⟩
    let d : Dependencies := ⟨some "collection", ["b"]⟩
    let r := fresh .empty .default d
    let more := fresh .empty .default { d with gems := ["a", "b"] }
    (d.missesCollection files = true ∧ (r.pathFor? files "Kept").value = some "Kept".toList) ∧
      ((more.build files).2.length = 2 ∧ (more.pathsFor files "Lost").value = []) ∧
      (r.build files).1 = (NameIndex.build .empty .default ⟨none, ["b"]⟩ files).1 ∧
      ((more.pathFor? files "Kept").value = some "Kept".toList ∨
        (more.pathFor? files "Kept").value = none) := by
  intro files d r more
  have hfacts : (d.missesCollection files = true ∧
      (r.pathFor? files "Kept").value = some "Kept".toList) ∧
      (more.build files).2.length = 2 ∧ (more.pathsFor files "Lost").value = [] := by
    decide +kernel
  obtain ⟨⟨hmissing, hpath⟩, hmore⟩ := hfacts
  obtain ⟨-, -, hcollection, -, hadded⟩ := build_isolated .empty .default d files
  have hwithin : d.Within { d with gems := ["a", "b"] } :=
    Dependencies.within_of_subset (List.subset_cons_self _ _)
  exact ⟨⟨hmissing, hpath⟩, hmore, (hcollection hmissing).1, (hadded _ hwithin "Kept").2 _ hpath⟩

end Resolver
end DocTypes
