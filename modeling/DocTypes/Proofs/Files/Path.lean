import DocTypes.Files.Path
import Mathlib.Data.List.Basic

/-! # Paths by components

A path leads along its components, the segments that lead anywhere (`Path.components`).  Names that
are joined to a directory one after the other are added to its components, whether or not it ends in
a slash (`components_foldl_join`), and with each of them the path grows (`isTooLong_of_prefix`).

A name that begins with a dot is hidden if it is a text, and only then (`isHidden_iff`). -/

namespace DocTypes.Path

variable {directory path name ext : Bytes} {names : List Bytes}

/-- The segments of a path that lead anywhere. -/
def components (path : Bytes) : List Bytes := (segments path).filter (!isIdle ·)

/-- Whether bytes can be the name of something in a directory. -/
def IsName (name : Bytes) : Prop :=
  isIdle name = false ∧ name ≠ ".." ∧ slash ∉ name ∧ name.length ≤ nameLimit

instance : DecidablePred IsName := fun name =>
  inferInstanceAs
    (Decidable (isIdle name = false ∧ name ≠ ".." ∧ slash ∉ name ∧ name.length ≤ nameLimit))

theorem isIdle_nil : isIdle [] = true := rfl

theorem IsName.slash_not_mem (h : IsName name) : slash ∉ name := h.2.2.1

theorem IsName.ne_nil (h : IsName name) : name ≠ [] := by
  rintro rfl
  exact absurd h.1 (Bool.not_eq_false _ ▸ isIdle_nil)

/-! ## Segments -/

theorem segments_of_not_mem (h : slash ∉ name) : segments name = [name] :=
  List.splitOn_eq_singleton h

theorem segments_slash (before after : Bytes) :
    segments (before ++ slash :: after) = segments before ++ segments after :=
  List.splitOn_append_cons_self before after

/-- A path with a number of single dots in front, which lead nowhere. -/
def detour : Nat → Bytes → Bytes
  | 0, path => path
  | n + 1, path => dot :: slash :: detour n path

theorem segments_detour (n : Nat) (path : Bytes) :
    segments (detour n path) = List.replicate n [dot] ++ segments path := by
  induction n with
  | zero => rfl
  | succ n ih =>
    have hslash : segments (dot :: slash :: detour n path) =
        segments [dot] ++ segments (detour n path) := segments_slash [dot] (detour n path)
    rw [detour, hslash, ih]
    rfl

theorem length_detour (n : Nat) (path : Bytes) : (detour n path).length = 2 * n + path.length := by
  induction n with
  | zero => simp [detour]
  | succ n ih =>
    rw [detour, List.length_cons, List.length_cons, ih]
    omega

/-! ## Joining -/

/-- Behind a path that does not end in a slash, a name is one more segment. -/
theorem segments_join (hne : path ≠ []) (hslash : path.getLast? ≠ some slash)
    (hname : slash ∉ name) : segments (join path name) = segments path ++ [name] := by
  rw [join, if_neg (not_or.mpr ⟨hne, hslash⟩), segments_slash, segments_of_not_mem hname]

/-- What is joined to a directory takes the place of the empty segment behind its last slash, or
stands behind all of its segments. -/
theorem exists_segments_join (directory : Bytes) :
    ∃ base, (segments directory = base ∨ segments directory = base ++ [[]]) ∧
      ∀ name, slash ∉ name → segments (join directory name) = base ++ [name] := by
  by_cases hnil : directory = []
  · subst hnil
    exact ⟨[], Or.inr rfl, fun name hname => segments_of_not_mem hname⟩
  by_cases hslash : directory.getLast? = some slash
  · obtain ⟨before, rfl⟩ := List.getLast?_eq_some_iff.mp hslash
    refine ⟨segments before, Or.inr (segments_slash before []), fun name hname => ?_⟩
    rw [join, if_pos (Or.inr hslash), List.append_assoc, List.singleton_append, segments_slash,
      segments_of_not_mem hname]
  · exact ⟨segments directory, Or.inl rfl, fun _ => segments_join hnil hslash⟩

theorem prefix_join (directory name : Bytes) : directory <+: join directory name := by
  unfold join
  split
  · exact List.prefix_append _ _
  · exact List.prefix_append _ _

/-- What is joined to a directory ends in the name. -/
theorem getLast?_join (h : IsName name) : (join directory name).getLast? = name.getLast? := by
  unfold join
  split
  · exact List.getLast?_append_of_ne_nil _ h.ne_nil
  · rw [List.getLast?_append_of_ne_nil _ (List.cons_ne_nil _ _),
      ← List.singleton_append, List.getLast?_append_of_ne_nil _ h.ne_nil]

/-- What is joined to a directory is not empty and does not end in a slash. -/
theorem join_open (h : IsName name) :
    join directory name ≠ [] ∧ (join directory name).getLast? ≠ some slash := by
  rw [← List.getLast?_isSome, getLast?_join h, List.getLast?_isSome]
  exact ⟨h.ne_nil, fun hlast => h.slash_not_mem (List.mem_of_getLast? hlast)⟩

theorem prefix_foldl_join (directory : Bytes) (names : List Bytes) :
    directory <+: names.foldl join directory := by
  induction names generalizing directory with
  | nil => exact List.prefix_rfl
  | cons name names ih => exact (prefix_join directory name).trans (ih _)

theorem foldl_join_concat (directory : Bytes) (names : List Bytes) (name : Bytes) :
    (names ++ [name]).foldl join directory = join (names.foldl join directory) name :=
  List.foldl_concat join directory name names

/-- Behind a path that does not end in a slash, each further name is one more segment. -/
theorem segments_foldl_join (hne : path ≠ []) (hslash : path.getLast? ≠ some slash)
    (h : ∀ name ∈ names, IsName name) :
    segments (names.foldl join path) = segments path ++ names := by
  induction names generalizing path with
  | nil => simp
  | cons name names ih =>
    obtain ⟨hname, hnames⟩ := List.forall_mem_cons.mp h
    obtain ⟨hne', hslash'⟩ := @join_open path name hname
    rw [List.foldl_cons, ih hne' hslash' hnames, segments_join hne hslash hname.slash_not_mem,
      List.append_assoc]
    rfl

/-- Names that are joined to a directory stand behind its segments, but for an empty one behind its
last slash. -/
theorem exists_segments_foldl_join (directory : Bytes) :
    ∃ base, (segments directory = base ∨ segments directory = base ++ [[]]) ∧
      ∀ names, names ≠ [] → (∀ name ∈ names, IsName name) →
        segments (names.foldl join directory) = base ++ names := by
  obtain ⟨base, hbase, hjoin⟩ := exists_segments_join directory
  refine ⟨base, hbase, fun names hne h => ?_⟩
  obtain ⟨name, names, rfl⟩ := List.exists_cons_of_ne_nil hne
  obtain ⟨hname, hnames⟩ := List.forall_mem_cons.mp h
  obtain ⟨hne', hslash⟩ := @join_open directory name hname
  rw [List.foldl_cons, segments_foldl_join hne' hslash hnames, hjoin name hname.slash_not_mem,
    List.append_assoc]
  rfl

/-- **Names that are joined to a directory are added to its components.** -/
theorem components_foldl_join (h : ∀ name ∈ names, IsName name) :
    components (names.foldl join directory) = components directory ++ names := by
  by_cases hne : names = []
  · subst hne
    exact (List.append_nil _).symm
  obtain ⟨base, hbase, hjoin⟩ := exists_segments_foldl_join directory
  have hdirectory : components directory = base.filter (!isIdle ·) := by
    rcases hbase with hbase | hbase <;> simp [components, hbase, isIdle_nil]
  have hnames : names.filter (!isIdle ·) = names :=
    List.filter_eq_self.mpr fun name hname => by simp [(h name hname).1]
  rw [hdirectory, components, hjoin names hne h, List.filter_append, hnames]

/-! ## Extensions -/

/-- The extension of a name follows its last dot, unless that is in front. -/
theorem extensionOfName?_eq_some_iff :
    extensionOfName? name = some ext ↔ ∃ stem, stem ≠ [] ∧ name = stem ++ dot :: ext ∧ dot ∉ ext := by
  unfold extensionOfName?
  constructor
  · intro h
    dsimp only at h
    split at h
    · next last first more hdotted =>
      have hlast : last = dot := by
        simpa [hdotted] using List.head?_dropWhile_not (· != dot) name.reverse
      have hfree : (name.reverse.takeWhile (· != dot)).all (· != dot) = true := List.all_takeWhile
      have hparts := List.takeWhile_append_dropWhile (p := (· != dot)) (l := name.reverse)
      rw [hdotted, hlast] at hparts
      generalize name.reverse.takeWhile (· != dot) = reversed at h hfree hparts
      cases h
      refine ⟨(first :: more).reverse, by simp, ?_, fun hdot => ?_⟩
      · rw [← List.reverse_reverse name, ← hparts]
        simp
      · exact absurd (List.all_eq_true.mp hfree dot (List.mem_reverse.mp hdot)) (by simp)
    · cases h
  · rintro ⟨stem, hstem, rfl, hdot⟩
    have hfree : ∀ byte ∈ ext.reverse, (byte != dot) = true := by
      intro byte hbyte
      rw [bne_iff_ne]
      rintro rfl
      exact hdot (List.mem_reverse.mp hbyte)
    obtain ⟨first, more, hreversed⟩ := List.exists_cons_of_ne_nil (List.reverse_ne_nil_iff.mpr hstem)
    have hname : (stem ++ dot :: ext).reverse = ext.reverse ++ dot :: first :: more := by
      simp [hreversed]
    rw [hname, List.takeWhile_append_of_pos hfree, List.dropWhile_append_of_pos hfree]
    simp

/-! ## Hidden names -/

/-- The first byte of a character is a dot exactly if the character is one. -/
theorem head?_utf8EncodeChar_eq_dot_iff {c : Char} :
    (String.utf8EncodeChar c).head? = some dot ↔ c = '.' := by
  constructor
  · intro h
    have hother : ∀ n, n < 256 → n ≠ 46 → UInt8.ofNat n ≠ dot := by
      intro n hn hne heq
      have hvalue : (UInt8.ofNat n).toNat = 46 := congrArg UInt8.toNat heq
      rw [UInt8.toNat_ofNat_of_lt' hn] at hvalue
      exact hne hvalue
    unfold String.utf8EncodeChar at h
    dsimp only at h
    -- Where there are several bytes, the first of them is at least 192.
    split at h
    · apply Char.ext
      apply UInt32.toNat_inj.mp
      by_contra hne
      exact hother _ (by omega) hne (Option.some.inj h)
    split at h
    · exact absurd (Option.some.inj h) (hother _ (by omega) (by omega))
    split at h
    · exact absurd (Option.some.inj h) (hother _ (by omega) (by omega))
    · exact absurd (Option.some.inj h) (hother _ (by omega) (by omega))
  · rintro rfl
    rfl

/-- The first byte of a text is a dot exactly if its first character is one. -/
theorem head?_utf8_eq_dot_iff {t : Text} :
    t.utf8.head? = some dot ↔ t.startsWith "." = true := by
  cases t with
  | nil => exact iff_of_false nofun nofun
  | cons c t =>
    have hutf8 : Text.utf8 (c :: t) = String.utf8EncodeChar c ++ Text.utf8 t := List.flatMap_cons
    have hne : String.utf8EncodeChar c ≠ [] := by
      rw [← List.length_pos_iff, String.length_utf8EncodeChar]
      exact c.utf8Size_pos
    rw [hutf8, List.head?_append_of_ne_nil _ hne, head?_utf8EncodeChar_eq_dot_iff]
    constructor
    · rintro rfl
      rfl
    · intro h
      obtain ⟨rest, hrest⟩ := List.isPrefixOf_iff_prefix.mp h
      exact (List.cons.inj (hrest : '.' :: rest = c :: t)).1.symm

/-- **A name that begins with a dot is hidden exactly if it is a text.** -/
theorem isHidden_iff : isHidden name = true ↔ name.head? = some dot ∧ name.text?.isSome = true := by
  unfold isHidden
  cases htext : name.text? with
  | none => simp [Text.startsWith]
  | some t =>
    obtain rfl := Bytes.text?_eq_some_iff.mp htext
    simp [head?_utf8_eq_dot_iff]

/-- Where all names that begin with a dot are texts, the others are those that are not hidden. -/
theorem isHidden_eq_false_iff (h : name.head? = some dot → name.text?.isSome = true) :
    isHidden name = false ↔ name.head? ≠ some dot := by
  rw [← Bool.not_eq_true, isHidden_iff]
  exact not_congr ⟨And.left, fun hdot => ⟨hdot, h hdot⟩⟩

/-! ## Limits -/

theorem isTooLong_iff : isTooLong path = true ↔ limit < path.length := decide_eq_true_iff

theorem isTooLong_eq_false_iff : isTooLong path = false ↔ path.length ≤ limit := by
  rw [← Bool.not_eq_true, isTooLong_iff, Nat.not_lt]

/-- Where a path is not too long, what leads there is not. -/
theorem isTooLong_of_prefix (h : directory <+: path) (hpath : isTooLong path = false) :
    isTooLong directory = false :=
  isTooLong_eq_false_iff.mpr (Nat.le_trans h.length_le (isTooLong_eq_false_iff.mp hpath))

/-- Joining makes a path longer by the name at least. -/
theorem length_le_join (directory name : Bytes) :
    directory.length + name.length ≤ (join directory name).length := by
  unfold join
  split <;> simp

end DocTypes.Path
