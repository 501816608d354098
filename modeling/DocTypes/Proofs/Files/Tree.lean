import DocTypes.Files.Tree
import DocTypes.Proofs.Files.Path
import Mathlib.Data.List.Nodup

/-! # What is below a directory

The names of directories lead from a directory to what is listed below it (`Entry.Leads`).  In a tree
that a file system can hold, in which the entries of a directory differ in their names
(`Entry.Proper`), it is found behind these names (`FileSystem.find_foldl_join_iff`), unless they are
too long to be looked at.

A directory lists its entries in no particular order.  `Entry.Relisted` says that two trees differ in
that only, at any level. -/

namespace DocTypes

namespace Entry

/-- Whether the names of directories lead to an entry. -/
inductive Leads : List Entry → List Bytes → Entry → Prop where
  | here {entries : List Entry} {e : Entry} (h : e ∈ entries) : Leads entries [] e
  | within {entries inner : List Entry} {outer : Bytes} {directories : List Bytes} {e : Entry}
      (h : directory outer inner ∈ entries) (hinner : Leads inner directories e) :
      Leads entries (outer :: directories) e

/-- Whether entries are such as a directory can have, at every level: with different names. -/
inductive Proper : List Entry → Prop where
  | intro {entries : List Entry} (different : (entries.map Entry.name).Nodup)
      (named : ∀ e ∈ entries, Path.IsName e.name)
      (proper : ∀ name inner, directory name inner ∈ entries → Proper inner) : Proper entries

/-- Whether entries are the same but for their order, at every level. -/
inductive Relisted : List Entry → List Entry → Prop where
  | nil : Relisted [] []
  | cons {es es' : List Entry} (e : Entry) (h : Relisted es es') : Relisted (e :: es) (e :: es')
  | directory {inner inner' es es' : List Entry} (name : Bytes) (hinner : Relisted inner inner')
      (h : Relisted es es') : Relisted (directory name inner :: es) (directory name inner' :: es')
  | swap (a b : Entry) (es : List Entry) : Relisted (a :: b :: es) (b :: a :: es)
  | trans {es₁ es₂ es₃ : List Entry} (h : Relisted es₁ es₂) (h' : Relisted es₂ es₃) :
      Relisted es₁ es₃

variable {entries : List Entry} {directories directories' : List Bytes} {directory name : Bytes}
variable {e e' : Entry}

/-- Where entries differ in their names, the one of a name is found. -/
theorem find?_eq_some_iff (h : (entries.map Entry.name).Nodup) :
    entries.find? (·.name == name) = some e ↔ e ∈ entries ∧ e.name = name := by
  constructor
  · exact fun hfound => ⟨List.mem_of_find?_eq_some hfound, by simpa using List.find?_some hfound⟩
  · rintro ⟨he, rfl⟩
    induction entries with
    | nil => cases he
    | cons first entries ih =>
      obtain ⟨hfirst, hentries⟩ := List.nodup_cons.mp h
      rcases List.mem_cons.mp he with rfl | he
      · exact List.find?_cons_of_pos (beq_self_eq_true _)
      · have hother : first.name ≠ e.name := fun heq => hfirst (heq ▸ List.mem_map_of_mem he)
        rw [List.find?_cons_of_neg (by simpa using hother), ih hentries he]

/-- The names that lead to an entry, and its own, are names of entries. -/
theorem Leads.isName (h : Leads entries directories e) (hproper : Proper entries) :
    ∀ n ∈ directories ++ [e.name], Path.IsName n := by
  induction h with
  | here h =>
    obtain ⟨-, named, -⟩ := hproper
    exact List.forall_mem_singleton.mpr (named _ h)
  | within h _ ih =>
    obtain ⟨-, named, proper⟩ := hproper
    exact List.forall_mem_cons.mpr ⟨named _ h, ih (proper _ _ h)⟩

/-- Names lead to one entry of a name at most. -/
theorem Leads.unique (h : Leads entries directories e) (h' : Leads entries directories e')
    (hproper : Proper entries) (hname : e.name = e'.name) : e = e' := by
  induction h with
  | here h =>
    obtain ⟨different, -, -⟩ := hproper
    cases h' with
    | here h' => exact List.inj_on_of_nodup_map different h h' hname
  | within h _ ih =>
    obtain ⟨different, -, proper⟩ := hproper
    cases h' with
    | within h' hinner' =>
      cases List.inj_on_of_nodup_map different h h' rfl
      exact ih hinner' (proper _ _ h) hname

/-- Behind a directory, a path is that of one entry at most. -/
theorem Leads.eq_of_path_eq (h : Leads entries directories e) (h' : Leads entries directories' e')
    (hproper : Proper entries) (hpath : (directories ++ [e.name]).foldl Path.join directory =
      (directories' ++ [e'.name]).foldl Path.join directory) :
    directories = directories' ∧ e = e' := by
  have hnames := congrArg Path.components hpath
  rw [Path.components_foldl_join (h.isName hproper), Path.components_foldl_join (h'.isName hproper)]
    at hnames
  obtain ⟨rfl, hlast⟩ := List.append_inj' (List.append_cancel_left hnames) rfl
  exact ⟨rfl, h.unique h' hproper (List.singleton_inj.mp hlast)⟩

end Entry

namespace FileSystem

variable {fs : FileSystem} {around : List (List Entry)} {here entries : List Entry}
variable {names directories : List Bytes} {directory name : Bytes} {node : Node}

/-! ## Following names -/

theorem follow_cons (around : List (List Entry)) (here : List Entry) (segment : Bytes)
    (rest : List Bytes) :
    follow around here (segment :: rest) =
      if Path.isIdle segment then follow around here rest
      else if segment = ".." then follow around.tail (around.head?.getD here) rest
      else if Path.nameLimit < segment.length then .error .nameTooLong
      else
        match here.find? (·.name == segment) with
        | none => .error .notFound
        | some (.directory _ inner) => follow (here :: around) inner rest
        | some e => if rest = [] then .ok e.node else .error .notADirectory := by
  rw [follow.eq_def]
  cases around <;> rfl

theorem follow_name (h : Path.IsName name) :
    follow around here (name :: names) =
      match here.find? (·.name == name) with
      | none => .error .notFound
      | some (.directory _ inner) => follow (here :: around) inner names
      | some e => if names = [] then .ok e.node else .error .notADirectory := by
  obtain ⟨hidle, hup, -, hlength⟩ := h
  rw [follow_cons, if_neg (by simp [hidle]), if_neg hup, if_neg (Nat.not_lt.mpr hlength)]

/-- Single dots lead nowhere, however many there are. -/
theorem follow_replicate_dot (n : Nat) (names : List Bytes) :
    follow around here (List.replicate n [Path.dot] ++ names) = follow around here names := by
  induction n with
  | zero => rfl
  | succ n ih => rw [List.replicate_succ, List.cons_append, follow_cons, if_pos (by decide), ih]

/-- From a directory, names lead to what it has there. -/
theorem follow_eq_ok_iff (hproper : Entry.Proper here)
    (h : ∀ n ∈ directories ++ [name], Path.IsName n) :
    follow around here (directories ++ [name]) = .ok node ↔
      ∃ e, Entry.Leads here directories e ∧ e.name = name ∧ e.node = node := by
  induction directories generalizing around here with
  | nil =>
    obtain ⟨different, -, -⟩ := hproper
    have hlast : follow around here [name] =
        match here.find? (·.name == name) with
        | none => .error .notFound
        | some e => .ok e.node := by
      rw [follow_name (List.forall_mem_singleton.mp h)]
      cases here.find? (·.name == name) with
      | none => rfl
      | some e => cases e <;> rfl
    rw [List.nil_append, hlast]
    constructor
    · intro hfollow
      split at hfollow
      · cases hfollow
      · next e hfound =>
        obtain ⟨hmem, hname⟩ := (Entry.find?_eq_some_iff different).mp hfound
        cases hfollow
        exact ⟨e, .here hmem, hname, rfl⟩
    · rintro ⟨e, hleads, hname, rfl⟩
      cases hleads with
      | here hmem => rw [(Entry.find?_eq_some_iff different).mpr ⟨hmem, hname⟩]
  | cons first directories ih =>
    obtain ⟨hfirst, hnames⟩ := List.forall_mem_cons.mp h
    obtain ⟨different, -, proper⟩ := hproper
    rw [List.cons_append, follow_name hfirst]
    constructor
    · intro hfollow
      split at hfollow
      · cases hfollow
      · next hfound =>
        obtain ⟨hmem, rfl⟩ := (Entry.find?_eq_some_iff different).mp hfound
        obtain ⟨e, hleads, he⟩ := (ih (proper _ _ hmem) hnames).mp hfollow
        exact ⟨e, .within hmem hleads, he⟩
      · rw [if_neg (by simp)] at hfollow
        cases hfollow
    · rintro ⟨e, hleads, he⟩
      cases hleads with
      | within hmem hinner =>
        have hfound : here.find? (·.name == first) = some _ :=
          (Entry.find?_eq_some_iff different).mpr ⟨hmem, rfl⟩
        rw [hfound]
        exact (ih (proper _ _ hmem) hnames).mpr ⟨e, hinner, he⟩

/-! ## Following a path further -/

/-- A segment leads to a place from which all others are followed, or to no directory. -/
theorem follow_step (around : List (List Entry)) (here : List Entry) (segment : Bytes) :
    (∃ around' here', ∀ rest, follow around here (segment :: rest) = follow around' here' rest) ∨
      ∀ rest entries, follow around here (segment :: rest) ≠ .ok (.directory entries) := by
  simp only [follow_cons]
  split
  · exact Or.inl ⟨around, here, fun _ => rfl⟩
  split
  · exact Or.inl ⟨around.tail, around.head?.getD here, fun _ => rfl⟩
  split
  · exact Or.inr fun _ _ => nofun
  split
  · exact Or.inr fun _ _ => nofun
  · next inner _ => exact Or.inl ⟨here :: around, inner, fun _ => rfl⟩
  · next e hother _ =>
    refine Or.inr fun rest entries => ?_
    split
    · cases e with
      | directory name inner => exact absurd rfl (hother name inner)
      | _ => exact nofun
    · exact nofun

/-- What follows the segments that lead to a directory is followed from there. -/
theorem exists_follow_append (h : follow around here names = .ok (.directory entries)) :
    ∃ outer, ∀ more, follow around here (names ++ more) = follow outer entries more := by
  induction names generalizing around here with
  | nil =>
    rw [follow] at h
    cases h
    exact ⟨around, fun _ => rfl⟩
  | cons segment names ih =>
    rcases follow_step around here segment with ⟨around', here', hstep⟩ | hstep
    · simp only [List.cons_append, hstep] at h ⊢
      exact ih h
    · exact absurd h (hstep names entries)

/-- An empty segment behind those that lead to a directory leads nowhere. -/
theorem follow_of_append_nil (h : follow around here (names ++ [[]]) = .ok (.directory entries)) :
    follow around here names = .ok (.directory entries) := by
  induction names generalizing around here with
  | nil => exact h
  | cons segment names ih =>
    rw [List.cons_append] at h
    rcases follow_step around here segment with ⟨around', here', hstep⟩ | hstep
    · rw [hstep] at h ⊢
      exact ih h
    · exact absurd h (hstep (names ++ [[]]) entries)

/-! ## Finding what is below a directory -/

/-- The place where a path begins, as segments from the root. -/
def start (fs : FileSystem) (path : Bytes) : List Bytes :=
  if path.head? = some Path.slash then [] else fs.workingDirectory

theorem find_eq {path : Bytes} (h : path ≠ []) (hlimit : Path.isTooLong path = false) :
    fs.find path = follow [] fs.root (fs.start path ++ Path.segments path) := by
  rw [find, if_neg h, if_neg (by simp [hlimit]), start]
  split <;> rfl

theorem find_of_directory (h : fs.directory? directory = some entries) :
    fs.find directory = .ok (.directory entries) := by
  unfold directory? at h
  split at h
  · next hfind => cases h; exact hfind
  · cases h

/-- The path of a directory is one that can be looked at. -/
theorem usable_of_directory (h : fs.directory? directory = some entries) :
    directory ≠ [] ∧ Path.isTooLong directory = false := by
  have hfind : fs.find directory = .ok (.directory entries) := find_of_directory h
  unfold find at hfind
  split at hfind
  · cases hfind
  · next hne =>
    split at hfind
    · cases hfind
    · next hlimit => exact ⟨hne, Bool.eq_false_iff.mpr hlimit⟩

theorem start_of_prefix {path : Bytes} (hne : directory ≠ []) (h : directory <+: path) :
    fs.start path = fs.start directory := by
  obtain ⟨byte, rest, rfl⟩ := List.exists_cons_of_ne_nil hne
  obtain ⟨more, rfl⟩ := h
  rfl

/-- **Behind a directory, names find what they lead to, unless they are too long together.** -/
theorem find_foldl_join_iff (hdirectory : fs.directory? directory = some entries)
    (hproper : Entry.Proper entries) (h : ∀ n ∈ directories ++ [name], Path.IsName n)
    (hlimit : Path.isTooLong ((directories ++ [name]).foldl Path.join directory) = false) :
    fs.find ((directories ++ [name]).foldl Path.join directory) = .ok node ↔
      ∃ e, Entry.Leads entries directories e ∧ e.name = name ∧ e.node = node := by
  have hfind : fs.find directory = .ok (.directory entries) := find_of_directory hdirectory
  obtain ⟨hne, hdirectoryLimit⟩ := usable_of_directory hdirectory
  have hprefix : directory <+: (directories ++ [name]).foldl Path.join directory :=
    Path.prefix_foldl_join directory (directories ++ [name])
  have hpath : (directories ++ [name]).foldl Path.join directory ≠ [] :=
    fun hnil => hne (List.prefix_nil.mp (hnil ▸ hprefix))
  obtain ⟨base, hbase, hsegments⟩ := Path.exists_segments_foldl_join directory
  rw [find_eq hne hdirectoryLimit] at hfind
  have hplace : follow [] fs.root (fs.start directory ++ base) = .ok (.directory entries) := by
    rcases hbase with hbase | hbase
    · rwa [hbase] at hfind
    · rw [hbase, ← List.append_assoc] at hfind
      exact follow_of_append_nil hfind
  obtain ⟨outer, houter⟩ := exists_follow_append hplace
  rw [find_eq hpath hlimit, start_of_prefix hne hprefix, hsegments _ (by simp) h,
    ← List.append_assoc, houter]
  exact follow_eq_ok_iff hproper h

end FileSystem
end DocTypes
