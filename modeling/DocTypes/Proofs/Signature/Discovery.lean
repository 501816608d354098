import DocTypes.Proofs.Files.Tree
import DocTypes.Proofs.Text.Sorted
import DocTypes.Signature.File
import Mathlib.Data.List.Nodup

/-! # Which signature files are found

Below a directory everything is found that has the extension of a format, unless it is known to be a
directory or a directory on the way to it is hidden (`mem_discover_iff`).  Nothing else is asked:
the file itself may be hidden, the directory at which the search begins may be, and a directory that
has the extension is one like others.

The paths are in strictly increasing order, component by component.  There is only one such list of
given paths, so it shows neither the order in which directories list their entries
(`discoverIn_of_relisted`) nor whether what is below each directory was sorted before
(`discoverIn_eq_sort_level`).  Sorting drops nothing, as no path is met twice where the entries of a
directory differ in their names (`perm_discoverIn`).  All of this is said of paths in
`discover_complete`. -/

namespace DocTypes

theorem SignatureFormat.ofExtension?_eq_some_iff {ext : Bytes} {format : SignatureFormat} :
    ofExtension? ext = some format ↔ ext = format.fileExtension := by
  unfold ofExtension?
  constructor
  · intro h
    split at h
    · cases h
      assumption
    split at h
    · cases h
      assumption
    · cases h
  · rintro rfl
    cases format <;> rfl

/-- A file has a format if its name is one with the extension and something in front of it. -/
theorem SignatureFormat.ofName?_eq_some_iff {name : Bytes} {format : SignatureFormat} :
    ofName? name = some format ↔
      ∃ stem, stem ≠ [] ∧ name = stem ++ Path.dot :: Text.utf8 format.fileExtension := by
  have hdot : Path.dot ∉ Text.utf8 format.fileExtension := by cases format <;> decide
  simp only [ofName?, Option.bind_eq_some_iff, ofExtension?_eq_some_iff, exists_eq_right,
    Path.extensionOfName?_eq_some_iff]
  simp only [hdot, not_false_eq_true, and_true]

namespace Signature

variable {format : SignatureFormat} {entries entries' : List Entry} {names directories : List Bytes}
variable {name outer directory : Bytes} {files : FileSystem} {e : Entry}

/-! ## The walk -/

theorem filesIn_eq_flatMap (format : SignatureFormat) (outer : Bytes) (entries : List Entry) :
    filesIn format outer entries = entries.flatMap (filesAt format outer) := by
  induction entries with
  | nil => rfl
  | cons e es ih => rw [filesIn, ih, List.flatMap_cons]

theorem mem_filesIn_iff_exists :
    names ∈ filesIn format outer entries ↔ ∃ e ∈ entries, names ∈ filesAt format outer e := by
  rw [filesIn_eq_flatMap, List.mem_flatMap]

theorem mem_filesNamed_iff :
    names ∈ filesNamed format name ↔ SignatureFormat.ofName? name = some format ∧ names = [name] := by
  rw [filesNamed]
  split
  · next h => simp [h]
  · next h => simp [h]

theorem nodup_filesNamed (format : SignatureFormat) (name : Bytes) :
    (filesNamed format name).Nodup := by
  unfold filesNamed
  split
  · exact List.nodup_singleton _
  · exact List.nodup_nil

/-- Whether an entry of the directory at a path counts as a file: as a directory it would have to be
known as one. -/
def CountsAsFile (outer : Bytes) (e : Entry) : Prop :=
  e.isDirectory = true → Path.isTooLong (Path.join outer e.name) = true

theorem countsAsFile_of_isDirectory_eq_false (h : e.isDirectory = false) : CountsAsFile outer e :=
  fun hdirectory => absurd hdirectory (Bool.eq_false_iff.mp h)

/-- Where paths are not too long, everything but directories counts as a file. -/
theorem countsAsFile_iff (h : Path.isTooLong (Path.join outer e.name) = false) :
    CountsAsFile outer e ↔ e.isDirectory = false := by
  refine ⟨fun hcounts => ?_, countsAsFile_of_isDirectory_eq_false⟩
  refine Bool.eq_false_iff.mpr fun hdirectory => ?_
  exact Bool.eq_false_iff.mp h (hcounts hdirectory)

/-- What counts as a file is found by its own name, and by no other. -/
theorem filesAt_of_countsAsFile (h : CountsAsFile outer e) :
    filesAt format outer e = filesNamed format e.name := by
  cases e with
  | file => rw [filesAt, Entry.name]
  | special => rw [filesAt, Entry.name]
  | directory => exact (filesAt.eq_3 ..).trans (if_pos (h rfl))

/-- What does not count as a file is a directory, and is walked through unless it is hidden. -/
theorem filesAt_of_not_countsAsFile (format : SignatureFormat) (h : ¬ CountsAsFile outer e) :
    ∃ inner, e = .directory e.name inner ∧ Path.isTooLong (Path.join outer e.name) = false ∧
      filesAt format outer e =
        if Path.isHidden e.name then []
        else (filesIn format (Path.join outer e.name) inner).map (e.name :: ·) := by
  cases e with
  | file => exact absurd (countsAsFile_of_isDirectory_eq_false rfl) h
  | special => exact absurd (countsAsFile_of_isDirectory_eq_false rfl) h
  | directory name inner =>
    have hlimit : Path.isTooLong (Path.join outer name) = false :=
      Bool.eq_false_iff.mpr fun hlong => h fun _ => hlong
    refine ⟨inner, rfl, hlimit, ?_⟩
    rw [filesAt]
    exact if_neg (by simp [hlimit])

/-- The first name of what is found at an entry is its own. -/
theorem head?_of_mem_filesAt (h : names ∈ filesAt format outer e) : names.head? = some e.name := by
  by_cases hcounts : CountsAsFile outer e
  · rw [filesAt_of_countsAsFile hcounts] at h
    rw [(mem_filesNamed_iff.mp h).2]
    rfl
  · obtain ⟨inner, -, -, hfiles⟩ := filesAt_of_not_countsAsFile format hcounts
    rw [hfiles] at h
    split at h
    · cases h
    · obtain ⟨rest, -, rfl⟩ := List.mem_map.mp h
      rfl

/-- **The walk finds what counts as a file, has the extension, and is in no hidden directory.**  It
does not get further than the system looks. -/
theorem mem_filesIn_iff (houter : Path.isTooLong outer = false) :
    names ∈ filesIn format outer entries ↔
      ∃ directories e, names = directories ++ [e.name] ∧ Entry.Leads entries directories e ∧
        SignatureFormat.ofName? e.name = some format ∧
        (∀ d ∈ directories, Path.isHidden d = false) ∧
        Path.isTooLong (directories.foldl Path.join outer) = false ∧
        CountsAsFile (directories.foldl Path.join outer) e := by
  rw [mem_filesIn_iff_exists]
  constructor
  · rintro ⟨e, he, hnames⟩
    induction names generalizing outer entries e with
    | nil => cases head?_of_mem_filesAt hnames
    | cons first names ih =>
      by_cases hcounts : CountsAsFile outer e
      · rw [filesAt_of_countsAsFile hcounts] at hnames
        obtain ⟨hname, heq⟩ := mem_filesNamed_iff.mp hnames
        exact ⟨[], e, heq, .here he, hname, List.forall_mem_nil _, houter, hcounts⟩
      · obtain ⟨inner, heq, hlimit, hfiles⟩ := filesAt_of_not_countsAsFile format hcounts
        rw [hfiles] at hnames
        split at hnames
        · cases hnames
        · next hvisible =>
          obtain ⟨rest, hrest, hcons⟩ := List.mem_map.mp hnames
          cases hcons
          obtain ⟨e', he', hrest⟩ := mem_filesIn_iff_exists.mp hrest
          obtain ⟨directories, e', rfl, hleads, hname, hdirectories, hfits, hcounts'⟩ :=
            ih hlimit e' he' hrest
          rw [heq] at he
          exact ⟨e.name :: directories, e', rfl, .within he hleads, hname,
            List.forall_mem_cons.mpr ⟨Bool.eq_false_iff.mpr hvisible, hdirectories⟩, hfits, hcounts'⟩
  · rintro ⟨directories, e, rfl, hleads, hname, hdirectories, hfits, hcounts⟩
    induction hleads generalizing outer with
    | @here entries e he =>
      have hcounts : CountsAsFile outer e := hcounts
      refine ⟨e, he, ?_⟩
      rw [filesAt_of_countsAsFile hcounts]
      exact mem_filesNamed_iff.mpr ⟨hname, rfl⟩
    | @within entries inner first directories e h _ ih =>
      obtain ⟨hvisible, hdirectories⟩ := List.forall_mem_cons.mp hdirectories
      have hlimit : Path.isTooLong (Path.join outer first) = false :=
        Path.isTooLong_of_prefix (Path.prefix_foldl_join _ directories) hfits
      refine ⟨_, h, ?_⟩
      rw [filesAt, if_neg (by simp [hlimit]), if_neg (by simp [hvisible])]
      refine List.mem_map.mpr ⟨_, ?_, rfl⟩
      exact mem_filesIn_iff_exists.mpr (ih hlimit hname hdirectories hfits hcounts)

/-- No path is met twice where the entries of a directory differ in their names. -/
theorem nodup_filesIn (h : Entry.Proper entries) : (filesIn format outer entries).Nodup := by
  induction h generalizing outer with
  | @intro entries different _ _ ih =>
    rw [filesIn_eq_flatMap, List.nodup_flatMap]
    constructor
    · intro e he
      by_cases hcounts : CountsAsFile outer e
      · rw [filesAt_of_countsAsFile hcounts]
        exact nodup_filesNamed format e.name
      · obtain ⟨inner, heq, -, hfiles⟩ := filesAt_of_not_countsAsFile format hcounts
        rw [hfiles]
        split
        · exact List.nodup_nil
        · rw [heq] at he
          exact (ih _ inner he).map List.cons_injective
    · refine (List.pairwise_map.mp different).imp fun hne names hnames hnames' => hne ?_
      exact Option.some.inj
        ((head?_of_mem_filesAt hnames).symm.trans (head?_of_mem_filesAt hnames'))

/-- The walk meets the same paths in whatever order entries are listed. -/
theorem perm_filesIn_of_relisted (h : Entry.Relisted entries entries') :
    (filesIn format outer entries).Perm (filesIn format outer entries') := by
  induction h generalizing outer with
  | nil => exact List.Perm.refl _
  | cons e _ ih => exact ih.append_left _
  | directory name _ _ hinner ih =>
    rw [filesIn, filesIn, filesAt, filesAt]
    refine List.Perm.append ?_ ih
    split
    · exact List.Perm.refl _
    split
    · exact List.Perm.refl _
    · exact hinner.map _
  | swap a b es =>
    simp only [filesIn, ← List.append_assoc]
    exact List.perm_append_comm.append_right _
  | trans _ _ ih ih' => exact ih.trans ih'

/-! ## Sorting -/

theorem mem_discoverIn_iff :
    names ∈ discoverIn format outer entries ↔ names ∈ filesIn format outer entries := by
  rw [discoverIn, mem_sortUnique]

/-- Sorting drops nothing that the walk meets. -/
theorem perm_discoverIn (h : Entry.Proper entries) :
    (discoverIn format outer entries).Perm (filesIn format outer entries) :=
  (List.perm_ext_iff_of_nodup (nodup_sortUnique _) (nodup_filesIn h)).mpr fun _ => mem_discoverIn_iff

/-- Whatever the order in which entries are listed, the same is found in the same order. -/
theorem discoverIn_of_relisted (h : Entry.Relisted entries entries') :
    discoverIn format outer entries' = discoverIn format outer entries :=
  sortUnique_eq_of_mem_iff fun _ => (perm_filesIn_of_relisted h).symm.mem_iff

/-- What is below each directory may be sorted before, or all of it at the end. -/
theorem discoverIn_eq_sort_level (format : SignatureFormat) (outer : Bytes) (entries : List Entry) :
    discoverIn format outer entries = sortUnique (entries.flatMap fun
      | .directory name inner =>
        if Path.isTooLong (Path.join outer name) then filesNamed format name
        else if Path.isHidden name then []
        else (discoverIn format (Path.join outer name) inner).map (name :: ·)
      | e => filesNamed format e.name) := by
  refine sortUnique_eq_of_mem_iff fun names => ?_
  rw [filesIn_eq_flatMap, List.mem_flatMap, List.mem_flatMap]
  refine exists_congr fun e => and_congr_right fun _ => ?_
  cases e with
  | file => rw [filesAt_of_countsAsFile (countsAsFile_of_isDirectory_eq_false rfl)]
  | special => rw [filesAt_of_countsAsFile (countsAsFile_of_isDirectory_eq_false rfl)]
  | directory name inner =>
    rw [filesAt]
    dsimp only
    split
    · rfl
    split
    · rfl
    · simp only [List.mem_map, mem_discoverIn_iff]

/-! ## Paths of what is found -/

theorem discover_eq (h : files.directory? directory = some entries) :
    discover files format directory =
      (discoverIn format directory entries).map fun names => names.foldl Path.join directory := by
  rw [discover, h]

/-- Where the paths of what is found are texts, nothing is lost by showing them. -/
theorem map_utf8_discoverAt {directory : Text}
    (h : ∀ path ∈ discover files format directory, path.text?.isSome = true) :
    (discoverAt files format directory).map Text.utf8 = discover files format directory := by
  have hshown : ∀ path ∈ discover files format directory, path.shown.utf8 = path := by
    intro path hpath
    obtain ⟨t, ht⟩ := Option.isSome_iff_exists.mp (h path hpath)
    rw [Bytes.text?_eq_some_iff.mp ht, Bytes.shown_utf8]
  rw [discoverAt, List.map_map]
  exact (List.map_congr_left hshown).trans (List.map_id _)

/-- **Found are the paths of what counts as a file, has the extension, and is in no hidden
directory.**  A directory on the way is hidden only if its name is a text. -/
theorem mem_discover_iff (hdirectory : files.directory? directory = some entries) {path : Bytes} :
    path ∈ discover files format directory ↔
      ∃ directories e, path = (directories ++ [e.name]).foldl Path.join directory ∧
        Entry.Leads entries directories e ∧ SignatureFormat.ofName? e.name = some format ∧
        (∀ d ∈ directories, Path.isHidden d = false) ∧
        Path.isTooLong (directories.foldl Path.join directory) = false ∧
        CountsAsFile (directories.foldl Path.join directory) e := by
  have hlimit : Path.isTooLong directory = false := (FileSystem.usable_of_directory hdirectory).2
  rw [discover_eq hdirectory, List.mem_map]
  simp only [mem_discoverIn_iff, mem_filesIn_iff hlimit]
  constructor
  · rintro ⟨names, ⟨directories, e, rfl, he⟩, rfl⟩
    exact ⟨directories, e, rfl, he⟩
  · rintro ⟨directories, e, rfl, he⟩
    exact ⟨_, ⟨directories, e, rfl, he⟩, rfl⟩

theorem isName_of_mem_discoverIn (hdirectory : files.directory? directory = some entries)
    (hproper : Entry.Proper entries) (h : names ∈ discoverIn format directory entries) :
    ∀ n ∈ names, Path.IsName n := by
  have hlimit : Path.isTooLong directory = false := (FileSystem.usable_of_directory hdirectory).2
  obtain ⟨directories, e, rfl, hleads, -⟩ := (mem_filesIn_iff hlimit).mp (mem_discoverIn_iff.mp h)
  exact hleads.isName hproper

/-- The paths that are found are strictly increasing, component by component. -/
theorem pairwise_components_discover (hdirectory : files.directory? directory = some entries)
    (hproper : Entry.Proper entries) :
    (discover files format directory).Pairwise
      fun path path' => Path.components path < Path.components path' := by
  rw [discover_eq hdirectory, List.pairwise_map]
  refine (pairwise_sortUnique _).imp_of_mem fun {names names'} h h' hlt => ?_
  rw [Path.components_foldl_join (isName_of_mem_discoverIn hdirectory hproper h),
    Path.components_foldl_join (isName_of_mem_discoverIn hdirectory hproper h')]
  exact List.append_left_lt hlt

/-- What is found can be looked up, unless its path is too long, and is no directory. -/
theorem exists_find_of_mem_discover (hdirectory : files.directory? directory = some entries)
    (hproper : Entry.Proper entries) {path : Bytes} (h : path ∈ discover files format directory)
    (hlimit : Path.isTooLong path = false) :
    ∃ e : Entry, e.isDirectory = false ∧ files.find path = .ok e.node := by
  obtain ⟨directories, e, rfl, hleads, -, -, -, hcounts⟩ := (mem_discover_iff hdirectory).mp h
  have hfind : files.find ((directories ++ [e.name]).foldl Path.join directory) = .ok e.node :=
    (FileSystem.find_foldl_join_iff hdirectory hproper (hleads.isName hproper) hlimit).mpr
      ⟨e, hleads, rfl, rfl⟩
  rw [Path.foldl_join_concat] at hlimit
  exact ⟨e, (countsAsFile_iff hlimit).mp hcounts, hfind⟩

/-- What is to be found behind the names of directories: what is no directory and has the extension
of a format and something in front of it, where the name of no directory on the way begins with a
dot. -/
structure IsSought (format : SignatureFormat) (directories : List Bytes) (e : Entry) : Prop where
  extension : ∃ stem, stem ≠ [] ∧ e.name = stem ++ Path.dot :: Text.utf8 format.fileExtension
  visible : ∀ d ∈ directories, d.head? ≠ some Path.dot
  file : e.isDirectory = false

/-- **Discovery is complete, and blind to the order in which directories list their entries.**  Below
a directory, the paths that are found are in strictly increasing order, component by component.  Each
is the path of something there.  Where the names of directories lead to an entry, its path is found
exactly if the entry is sought; that is not said where the path is too long, or where the name of one
of the directories begins with a dot and is no text.  Another order of the entries, at any level,
makes no difference. -/
theorem discover_complete (format : SignatureFormat)
    (hdirectory : files.directory? directory = some entries) (hproper : Entry.Proper entries) :
    let found := discover files format directory
    (found.Pairwise fun path path' => Path.components path < Path.components path') ∧
      (∀ path ∈ found, ∃ directories e, Entry.Leads entries directories e ∧
        path = (directories ++ [e.name]).foldl Path.join directory) ∧
      (∀ directories e, Entry.Leads entries directories e →
        let path := (directories ++ [e.name]).foldl Path.join directory
        Path.isTooLong path = false →
          (∀ d ∈ directories, d.head? = some Path.dot → d.text?.isSome = true) →
            (path ∈ found ↔ IsSought format directories e)) ∧
      ∀ files' entries', files'.directory? directory = some entries' →
        Entry.Relisted entries entries' → discover files' format directory = found := by
  refine ⟨pairwise_components_discover hdirectory hproper, fun path hpath => ?_, ?_, ?_⟩
  · obtain ⟨directories, e, heq, hleads, -⟩ := (mem_discover_iff hdirectory).mp hpath
    exact ⟨directories, e, hleads, heq⟩
  · intro directories e hleads path hlimit htexts
    have hpath : path = Path.join (directories.foldl Path.join directory) e.name :=
      Path.foldl_join_concat directory directories e.name
    have hreached : Path.isTooLong (directories.foldl Path.join directory) = false :=
      Path.isTooLong_of_prefix (hpath ▸ Path.prefix_join _ _) hlimit
    have hcounts : CountsAsFile (directories.foldl Path.join directory) e ↔ e.isDirectory = false :=
      countsAsFile_iff (hpath ▸ hlimit)
    have hvisible : (∀ d ∈ directories, Path.isHidden d = false) ↔
        ∀ d ∈ directories, d.head? ≠ some Path.dot :=
      forall₂_congr fun d hd => Path.isHidden_eq_false_iff (htexts d hd)
    rw [mem_discover_iff hdirectory]
    constructor
    · rintro ⟨directories', e', heq, hleads', hname, hdirectories, -, hfile⟩
      obtain ⟨rfl, rfl⟩ := hleads.eq_of_path_eq hleads' hproper heq
      exact ⟨SignatureFormat.ofName?_eq_some_iff.mp hname, hvisible.mp hdirectories,
        hcounts.mp hfile⟩
    · rintro ⟨hname, hdirectories, hfile⟩
      exact ⟨directories, e, rfl, hleads, SignatureFormat.ofName?_eq_some_iff.mpr hname,
        hvisible.mpr hdirectories, hreached, hcounts.mpr hfile⟩
  · intro files' entries' hdirectory' hrelisted
    rw [discover_eq hdirectory, discover_eq hdirectory', discoverIn_of_relisted hrelisted]

/-- A hidden directory in which a directory has the extension of a file, a file is hidden, the name
of a file is no text, there is a socket, and another directory is hidden; and the same with its
entries and those of the inner directory in another order. -/
theorem discover_complete_sample :
    let x : Entry := .file ".x.rbs" none
    let y : Entry := .special "y.rbs" (.error .noDevice)
    let z : Entry := .file "z.rbi" (some [])
    let b : Entry := .file (0xFF :: Text.utf8 ".rbs".toList) (some [])
    let git : Entry := .directory ".git" [y]
    let entries : List Entry := [b, .directory "a.rbs" [y, x, z], git]
    let relisted : List Entry := [.directory "a.rbs" [x, y, z], b, git]
    let files : FileSystem := ⟨[.directory ".gems" entries], []⟩
    let files' : FileSystem := ⟨[.directory ".gems" relisted], []⟩
    let found : List Bytes := [".gems/a.rbs/.x.rbs", ".gems/a.rbs/y.rbs", Path.join ".gems" b.name]
    files.directory? ".gems" = some entries ∧ Entry.Proper entries ∧
      discover files .rbs ".gems" = found ∧ discover files' .rbs ".gems" = found ∧
      (found.Pairwise fun path path' => Path.components path < Path.components path') ∧
      IsSought .rbs ["a.rbs"] y ∧ ¬ IsSought .rbs [".git"] y := by
  intro x y z b git entries relisted files files' found
  have hfiles : Entry.Proper [y, x, z] := by
    refine .intro (by decide) (by decide) fun name inner h => ?_
    simp [x, y, z] at h
  have hgit : Entry.Proper [y] := by
    refine .intro (by decide) (by decide) fun name inner h => ?_
    simp [y] at h
  have hentries : Entry.Proper entries := by
    refine .intro (by decide) (by decide) fun name inner h => ?_
    have hinner : inner = [y, x, z] ∨ inner = [y] := by
      simp only [entries, b, git, List.mem_cons, reduceCtorEq, Entry.directory.injEq,
        List.not_mem_nil, false_or, or_false] at h
      exact h.imp And.right And.right
    rcases hinner with rfl | rfl
    · exact hfiles
    · exact hgit
  have hrelisted : Entry.Relisted entries relisted :=
    .trans (.swap _ _ _) (.directory _ (.swap _ _ _) (.cons _ (.cons _ .nil)))
  have hfound : discover files .rbs ".gems" = found := by decide
  obtain ⟨hsorted, -, hcomplete, horder⟩ :=
    @discover_complete entries ".gems" files .rbs rfl hentries
  rw [hfound] at hsorted hcomplete
  have hy : Entry.Leads entries ["a.rbs"] y :=
    .within (List.mem_cons_of_mem _ List.mem_cons_self) (.here List.mem_cons_self)
  have hhidden : Entry.Leads entries [".git"] y :=
    .within (List.mem_cons_of_mem _ (List.mem_cons_of_mem _ List.mem_cons_self))
      (.here List.mem_cons_self)
  refine ⟨rfl, hentries, hfound, (horder files' relisted rfl hrelisted).trans hfound, hsorted, ?_,
    fun hsought => ?_⟩
  · exact (hcomplete _ y hy (by decide) (by decide)).mp (by decide)
  · exact absurd ((hcomplete _ y hhidden (by decide) (by decide)).mpr hsought) (by decide)

/-- Not only files are found: where the path of the directory is so long that those of its entries
are longer than the system takes, a directory is; so is a socket; and so is a file in a directory
whose name begins with a dot and is no text. -/
theorem discover_beyond_files :
    let long : Bytes := Path.detour 2046 "d"
    let files (entries : List Entry) : FileSystem := ⟨[.directory "d" entries], []⟩
    discover (files [.directory "a.rbs" [.file "x.rbs" (some [])]]) .rbs long =
        [Path.join long "a.rbs"] ∧
      discover (files [.special "a.rbs" (.error .noDevice)]) .rbs "d" = [Path.join "d" "a.rbs"] ∧
      discover (files [.directory [Path.dot, 0xFF] [.file "a.rbs" (some [])]]) .rbs "d" =
        [Path.join (Path.join "d" [Path.dot, 0xFF]) "a.rbs"] := by
  intro long files
  refine ⟨?_, by decide, by decide⟩
  have hlength : long.length = 4093 := Path.length_detour 2046 "d"
  have hne : long ≠ [] := List.ne_nil_of_length_pos (by omega)
  have hfits : Path.isTooLong long = false :=
    Path.isTooLong_eq_false_iff.mpr (hlength.trans_le (by decide))
  have hlong : Path.isTooLong (Path.join long "a.rbs") = true := by
    refine Path.isTooLong_iff.mpr (Nat.lt_of_lt_of_le ?_ (Path.length_le_join long "a.rbs"))
    rw [hlength]
    decide
  have hdirectory : (files [.directory "a.rbs" [.file "x.rbs" (some [])]]).directory? long =
      some [.directory "a.rbs" [.file "x.rbs" (some [])]] := by
    rw [FileSystem.directory?, FileSystem.find_eq hne hfits, FileSystem.start, ite_self,
      Path.segments_detour, List.nil_append, FileSystem.follow_replicate_dot]
    rfl
  have hwalk : filesIn .rbs long [.directory "a.rbs" [.file "x.rbs" (some [])]] =
      filesNamed .rbs "a.rbs" ++ [] := by
    rw [filesIn, filesIn, filesAt, if_pos hlong]
  have hfound : sortUnique (filesNamed .rbs "a.rbs" ++ []) = ([["a.rbs"]] : List (List Bytes)) := by
    decide
  rw [discover_eq hdirectory, discoverIn, hwalk, hfound, List.map_singleton, List.foldl_cons,
    List.foldl_nil]

end Signature
end DocTypes
