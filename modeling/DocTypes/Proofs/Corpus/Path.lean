import DocTypes.Proofs.Corpus.Tree

/-! # Paths of entities

In a tree the way up from an entity is the entity and the way up from its parent
(`lineage_eq_cons`); it leads to smaller and smaller places and ends at the root
(`pairwise_lineage`, `getLast?_lineage`).  So the path of an entity is that of its parent and its own
name (`path_eq`).  Where namespaces are called by words, the path of a namespace below the root is a
path of words, those of its parent and its own name (`path_eq_join`), and these are the names of the
modules and classes around it (`mem_trail_iff`).

What stands around any entity is the way up from one namespace (`exists_nesting_eq`).  Followed
downwards, names lead from one namespace to another whose path is that of the first with the names
behind it (`trail_descend`). -/

namespace DocTypes.Corpus

variable {c : Corpus} {id p outer found : EntityId} {e pe : Entity}

/-! ## The way up -/

theorem lineageWithin_none (he : c.entity? id = some e) (hp : e.parent = none) (steps : Nat) :
    c.lineageWithin (steps + 1) id = [id] := by
  simp only [lineageWithin, he, hp]

theorem lineageWithin_some (he : c.entity? id = some e) (hp : e.parent = some p) (steps : Nat) :
    c.lineageWithin (steps + 1) id = id :: c.lineageWithin steps p := by
  simp only [lineageWithin, he, hp]

/-- The parent of an entity stands before it and is a namespace. -/
theorem WellFormed.parent_lt (h : c.WellFormed) (he : c.entity? id = some e)
    (hp : e.parent = some p) : p < id ∧ c.isNamespaceAt p = true := by
  have hlt := h.rooted.parent_lt he hp
  have hid : id ≠ rootId := Nat.ne_of_gt (Nat.lt_of_le_of_lt (Nat.zero_le p) hlt)
  obtain ⟨p', hp', -, hnamespace⟩ := h.parent id e he hid
  obtain rfl : p = p' := Option.some.inj (hp.symm.trans hp')
  exact ⟨hlt, hnamespace⟩

/-- More steps than the place of an entity make no difference. -/
theorem lineageWithin_eq (h : c.Rooted) {steps : Nat} (hsteps : id < steps) :
    c.lineageWithin steps id = c.lineage id := by
  induction id using Nat.strongRecOn generalizing steps with
  | ind id ih =>
    cases steps with
    | zero => exact absurd hsteps (Nat.not_lt_zero id)
    | succ steps =>
      rw [lineage]
      cases he : c.entity? id with
      | none => simp only [lineageWithin, he]
      | some e =>
        cases hp : e.parent with
        | none => rw [lineageWithin_none he hp, lineageWithin_none he hp]
        | some p =>
          have hlt := h.parent_lt he hp
          have hbelow : p < steps := Nat.lt_of_lt_of_le hlt (Nat.le_of_lt_succ hsteps)
          rw [lineageWithin_some he hp, lineageWithin_some he hp, ih p hlt hbelow, ih p hlt hlt]

theorem lineage_root (h : c.Rooted) : c.lineage rootId = [rootId] := by
  obtain ⟨e, he, -, hnone⟩ := h.root
  exact lineageWithin_none he hnone _

theorem lineage_eq_cons (h : c.Rooted) (he : c.entity? id = some e) (hp : e.parent = some p) :
    c.lineage id = id :: c.lineage p := by
  rw [lineage, lineageWithin_some he hp, lineageWithin_eq h (h.parent_lt he hp)]

/-- The way up from an entity begins with it. -/
theorem exists_lineage_eq_cons (h : c.Rooted) (he : c.entity? id = some e) :
    ∃ around, c.lineage id = id :: around := by
  cases hp : e.parent with
  | none => exact ⟨[], lineageWithin_none he hp _⟩
  | some p => exact ⟨c.lineage p, lineage_eq_cons h he hp⟩

/-- **The way up from an entity ends at the root.** -/
theorem getLast?_lineage (h : c.Rooted) (he : c.entity? id = some e) :
    (c.lineage id).getLast? = some rootId := by
  induction id using Nat.strongRecOn generalizing e with
  | ind id ih =>
    by_cases hid : id = rootId
    · rw [hid, lineage_root h]
      rfl
    · obtain ⟨p, hp, hlt⟩ := h.parent id e he hid
      obtain ⟨pe, hpe⟩ := h.exists_parent_entity he hp
      rw [lineage_eq_cons h he hp, List.getLast?_cons, ih p hlt hpe]
      rfl

theorem le_of_mem_lineage (h : c.Rooted) (he : c.entity? id = some e)
    (houter : outer ∈ c.lineage id) : outer ≤ id := by
  induction id using Nat.strongRecOn generalizing e with
  | ind id ih =>
    cases hp : e.parent with
    | none =>
      rw [lineage, lineageWithin_none he hp] at houter
      exact Nat.le_of_eq (List.mem_singleton.mp houter)
    | some p =>
      have hlt := h.parent_lt he hp
      obtain ⟨pe, hpe⟩ := h.exists_parent_entity he hp
      rw [lineage_eq_cons h he hp] at houter
      rcases List.mem_cons.mp houter with rfl | houter
      · exact Nat.le_refl _
      · exact Nat.le_of_lt (Nat.lt_of_le_of_lt (ih p hlt hpe houter) hlt)

/-- The way up leads to smaller and smaller places. -/
theorem pairwise_lineage (h : c.Rooted) (he : c.entity? id = some e) :
    (c.lineage id).Pairwise (· > ·) := by
  induction id using Nat.strongRecOn generalizing e with
  | ind id ih =>
    cases hp : e.parent with
    | none =>
      rw [lineage, lineageWithin_none he hp]
      exact List.pairwise_singleton _ id
    | some p =>
      have hlt := h.parent_lt he hp
      obtain ⟨pe, hpe⟩ := h.exists_parent_entity he hp
      rw [lineage_eq_cons h he hp]
      refine List.pairwise_cons.mpr ⟨fun outer houter => ?_, ih p hlt hpe⟩
      exact Nat.lt_of_le_of_lt (le_of_mem_lineage h hpe houter) hlt

/-! ## The namespaces around an entity -/

theorem nesting_of_none (he : c.entity? id = none) : c.nesting id = [] := by
  simp [nesting, lineage, lineageWithin, he]

theorem nesting_of_isNamespaceAt (h : c.WellFormed) (hid : c.isNamespaceAt id = true) :
    c.nesting id = c.lineage id := by
  obtain ⟨e, he, -⟩ := isNamespaceAt_iff.mp hid
  obtain ⟨around, haround⟩ := exists_lineage_eq_cons h.rooted he
  rw [nesting, haround, List.dropWhile_cons_of_neg (by simp [hid])]

/-- What stands around an entity that is no namespace is the way up from its parent. -/
theorem nesting_of_parent (h : c.WellFormed) (he : c.entity? id = some e) (hp : e.parent = some p)
    (hid : c.isNamespaceAt id ≠ true) : c.nesting id = c.lineage p := by
  rw [← nesting_of_isNamespaceAt h (h.parent_lt he hp).2, nesting, lineage_eq_cons h.rooted he hp,
    List.dropWhile_cons_of_pos (by simp [hid])]
  rfl

/-- The nearest namespace is the one from which the way up begins. -/
theorem namespaceOf_eq (h : c.WellFormed) (hnesting : c.nesting id = c.lineage p)
    (hp : c.isNamespaceAt p = true) : c.namespaceOf id = p := by
  obtain ⟨pe, hpe, -⟩ := isNamespaceAt_iff.mp hp
  obtain ⟨around, haround⟩ := exists_lineage_eq_cons h.rooted hpe
  rw [namespaceOf, hnesting, haround]
  rfl

/-- What stands around an entity is a namespace and the way up from it. -/
theorem exists_nesting_eq (h : c.WellFormed) (he : c.entity? id = some e) :
    ∃ inner, c.isNamespaceAt inner = true ∧ c.nesting id = c.lineage inner ∧
      c.namespaceOf id = inner := by
  have hinner : ∃ inner, c.isNamespaceAt inner = true ∧ c.nesting id = c.lineage inner := by
    by_cases hid : c.isNamespaceAt id = true
    · exact ⟨id, hid, nesting_of_isNamespaceAt h hid⟩
    · have hkind : e.kind ≠ .root := by
        intro hkind
        exact hid (isNamespaceAt_iff.mpr ⟨e, he, by rw [hkind]; rfl⟩)
      obtain ⟨p, hp, -, hparent⟩ := h.parent id e he (h.ne_root he hkind)
      exact ⟨p, hparent, nesting_of_parent h he hp hid⟩
  obtain ⟨inner, hnamespace, hnesting⟩ := hinner
  exact ⟨inner, hnamespace, hnesting, namespaceOf_eq h hnesting hnamespace⟩

/-! ## The path -/

theorem path_root (h : c.Rooted) : c.path rootId = [] := by
  obtain ⟨e, he, -⟩ := h.root
  rw [path, lineage_root h, List.filterMap_cons_some he]
  rfl

/-- The path of an entity is that of its parent and its own name. -/
theorem path_eq (h : c.Rooted) (he : c.entity? id = some e) (hp : e.parent = some p)
    (hpe : c.entity? p = some pe) :
    c.path id = if pe.kind = .root then e.name
      else c.path p ++ (if e.kind = .methodDef then ['#'] else Name.separator) ++ e.name := by
  obtain ⟨around, haround⟩ := exists_lineage_eq_cons h hpe
  rw [path, path, lineage_eq_cons h he hp, haround, List.filterMap_cons_some he,
    List.filterMap_cons_some hpe, pathOf]

/-- The words on the way down to an entity, from the nearest root. -/
def trail (c : Corpus) (id : EntityId) : List Text :=
  if c.isRootAt id then [] else Name.components (c.path id)

theorem trail_of_root (he : c.entity? id = some e) (hkind : e.kind = .root) : c.trail id = [] := by
  simp [trail, isRootAt, he, hkind]

theorem WellFormed.trail_root (h : c.WellFormed) : c.trail rootId = [] := by
  obtain ⟨root, hroot, hkind, -⟩ := h.root
  exact trail_of_root hroot hkind

/-- **The path of a namespace is made of words**, those of its parent and its own name. -/
theorem path_eq_join (h : c.WellFormed) (he : c.entity? id = some e) (hp : e.parent = some p)
    (hnamespace : e.kind.isNamespace = true) :
    Name.Words (c.trail p ++ [e.name]) ∧ c.path id = Name.join (c.trail p ++ [e.name]) := by
  induction id using Nat.strongRecOn generalizing e p with
  | ind id ih =>
    obtain ⟨hlt, hparent⟩ := h.parent_lt he hp
    have hid : id ≠ rootId := Nat.ne_of_gt (Nat.lt_of_le_of_lt (Nat.zero_le p) hlt)
    have hword : Name.isWord e.name = true := h.word id e he hid hnamespace
    obtain ⟨pe, hpe, hpkind⟩ := isNamespaceAt_iff.mp hparent
    have hpath := path_eq h.rooted he hp hpe
    by_cases hroot : pe.kind = .root
    · rw [trail_of_root hpe hroot, hpath, if_pos hroot]
      exact ⟨.singleton hword, (Name.join_singleton e.name).symm⟩
    · obtain ⟨pp, hpp, -⟩ := h.parent p pe hpe (h.ne_root hpe hroot)
      obtain ⟨hwords, hjoin⟩ := ih p hlt hpe hpp hpkind
      have htrail : c.trail p = c.trail pp ++ [pe.name] := by
        rw [trail, isRootAt, hpe]
        simp only [beq_iff_eq, hroot, if_false]
        rw [hjoin, Name.components_join hwords]
      rw [if_neg hroot, if_neg (EntityKind.ne_method_of_isNamespace hnamespace), hjoin,
        ← htrail] at hpath
      rw [← htrail] at hwords
      refine ⟨Name.words_concat hwords.word hword, ?_⟩
      rw [hpath, Name.join_append hwords.ne_nil (List.cons_ne_nil _ _), Name.join_singleton]
      simp [Name.separator]

theorem components_path (h : c.WellFormed) (he : c.entity? id = some e) (hp : e.parent = some p)
    (hnamespace : e.kind.isNamespace = true) :
    Name.components (c.path id) = c.trail p ++ [e.name] := by
  obtain ⟨hwords, hjoin⟩ := path_eq_join h he hp hnamespace
  rw [hjoin, Name.components_join hwords]

theorem trail_eq (h : c.WellFormed) (he : c.entity? id = some e) (hp : e.parent = some p)
    (hnamespace : e.kind.isNamespace = true) (hroot : e.kind ≠ .root) :
    c.trail id = c.trail p ++ [e.name] := by
  rw [← components_path h he hp hnamespace, trail, isRootAt, he]
  simp [hroot]

/-- The words on the way down to a namespace are the names of the modules and classes around it, if
there is one root. -/
theorem mem_trail_iff (h : c.WellFormed)
    (hroot : ∀ id e, c.entity? id = some e → e.kind = .root → id = rootId) {name : Text}
    (hid : c.isNamespaceAt id = true) :
    name ∈ c.trail id ↔ ∃ around ∈ c.lineage id, ∃ e, c.entity? around = some e ∧ e.name = name ∧
      (e.kind = .moduleDef ∨ e.kind = .classDef) := by
  induction id using Nat.strongRecOn with
  | ind id ih =>
    obtain ⟨e, he, hnamespace⟩ := isNamespaceAt_iff.mp hid
    by_cases hkind : e.kind = .root
    · obtain rfl := hroot id e he hkind
      rw [trail_of_root he hkind, lineage_root h.rooted]
      simp [he, hkind]
    · obtain ⟨p, hp, hlt, hparent⟩ := h.parent id e he (h.ne_root he hkind)
      have hmodule : e.kind = .moduleDef ∨ e.kind = .classDef := by
        cases hcase : e.kind <;> simp_all [EntityKind.isNamespace]
      rw [trail_eq h he hp hnamespace hkind, lineage_eq_cons h.rooted he hp, List.mem_append,
        List.mem_singleton, ih p hlt hparent]
      constructor
      · rintro (⟨around, haround, hnamed⟩ | rfl)
        · exact ⟨around, List.mem_cons_of_mem _ haround, hnamed⟩
        · exact ⟨id, List.mem_cons_self, e, he, rfl, hmodule⟩
      · rintro ⟨around, haround, e', he', hname, hkind'⟩
        rcases List.mem_cons.mp haround with rfl | haround
        · obtain rfl : e = e' := Option.some.inj (he.symm.trans he')
          exact Or.inr hname.symm
        · exact Or.inl ⟨around, haround, e', he', hname, hkind'⟩

/-! ## Walking down -/

/-- Only namespaces are walked through. -/
theorem isNamespaceAt_of_descend (h : c.WellFormed) {accepts : EntityKind → Bool}
    {names : List Text} (hdescend : c.descend? accepts outer names = some found)
    (hfound : c.isNamespaceAt found = true) : c.isNamespaceAt outer = true := by
  cases names with
  | nil =>
    cases hdescend
    exact hfound
  | cons name names =>
    rw [descend?] at hdescend
    split at hdescend
    · next child hchild =>
      obtain ⟨e, he, hp⟩ := h.child outer child (child?_eq_some hchild).1
      exact (h.parent_lt he hp).2
    · cases hdescend

/-- **The names that lead to a namespace are the end of its path.** -/
theorem trail_descend (h : c.WellFormed) {accepts : EntityKind → Bool}
    (hdown : accepts .root = false) {names : List Text}
    (hdescend : c.descend? accepts outer names = some found)
    (hfound : c.isNamespaceAt found = true) : c.trail found = c.trail outer ++ names := by
  induction names generalizing outer with
  | nil =>
    cases hdescend
    rw [List.append_nil]
  | cons name names ih =>
    rw [descend?] at hdescend
    split at hdescend
    · next child hchild =>
      obtain ⟨hmem, e, he, rfl, hstep⟩ := child?_eq_some hchild
      have hp := h.rooted.parent_of_mem hmem he
      have hnamespace := isNamespaceAt_of_descend h hdescend hfound
      rw [isNamespaceAt_of_entity he] at hnamespace
      have hroot : e.kind ≠ .root := by
        intro hkind
        rw [hkind, hdown] at hstep
        cases hstep
      rw [ih hdescend, trail_eq h he hp hnamespace hroot, List.append_assoc]
      rfl
    · cases hdescend

end DocTypes.Corpus
