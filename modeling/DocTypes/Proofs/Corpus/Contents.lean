import DocTypes.Proofs.Corpus.Growth

/-! # What a corpus holds

What is in a corpus is told by the words on the way to an entity, its name and its kind
(`Corpus.Has`), and none of this says at which place it stands.  Declaring adds what is declared and
the modules around it, and changes nothing else but that a module may be a class then (`has_define`,
`has_declare`).  So a corpus holds what its declarations give, in whatever order they are made
(`has_ofDeclarations`).

No two namespaces have the same way to them (`eq_of_trail`).  The children of a namespace that a
lookup takes into account are thus those that the corpus holds on the way to the namespace
(`isSome_child?_iff`). -/

namespace DocTypes

namespace EntityKind

variable {accepts : EntityKind → Bool}

/-- Whether a class is accepted where a module is. -/
def Upward (accepts : EntityKind → Bool) : Prop :=
  accepts .moduleDef = true → accepts .classDef = true

theorem Steady.upward (h : Steady accepts) : Upward accepts := fun hmodule => h ▸ hmodule

end EntityKind

namespace Declaration

/-- The components of the path of a declaration that own what is declared. -/
def owners (d : Declaration) : List Text := (Corpus.ownerAndName d.path d.kind).1

/-- The name of what is declared. -/
def name (d : Declaration) : Text := (Corpus.ownerAndName d.path d.kind).2

/-- Whether a declaration gives an entity with the name and an accepted kind below the owners: it is
what is declared, or a module around that. -/
def Gives (d : Declaration) (owners : List Text) (name : Text) (accepts : EntityKind → Bool) :
    Prop :=
  (owners = d.owners ∧ name = d.name ∧ accepts d.kind = true) ∨
    (owners ++ [name] <+: d.owners ∧ accepts .moduleDef = true)

end Declaration

namespace Corpus
open EntityKind (Upward Steady)

variable {c c' : Corpus} {id p q parent found : EntityId} {name other : Text} {kind : EntityKind}
variable {e e' : Entity} {accepts : EntityKind → Bool} {owners names : List Text}
variable {d : Declaration} {ds : List Declaration}

/-- Whether there is an entity with the name and an accepted kind, and the words on the way to its
parent are the owners. -/
def Has (c : Corpus) (owners : List Text) (name : Text) (accepts : EntityKind → Bool) : Prop :=
  ∃ id e p, c.entity? id = some e ∧ e.parent = some p ∧ c.trail p = owners ∧ e.name = name ∧
    accepts e.kind = true

/-! ## Declaring one entity -/

theorem Outcome.has_iff (h : c.Orderly) (h' : c'.Orderly) (hparent : c.isNamespaceAt parent = true)
    (hkind : kind ≠ .root) (hupward : Upward accepts)
    (houtcome : c.Outcome parent name kind c' id) :
    c'.Has owners other accepts ↔
      c.Has owners other accepts ∨
        (owners = c.trail parent ∧ other = name ∧ accepts kind = true) := by
  have hgrows := houtcome.grows h.rooted h.one_root
  have htrail : ∀ {p}, c.isNamespaceAt p = true → c'.trail p = c.trail p := by
    intro p hp
    obtain ⟨pe, hpe, -⟩ := isNamespaceAt_iff.mp hp
    exact hgrows.trail_eq h.toWellFormed h'.toWellFormed hpe
  obtain ⟨declared, hdeclared, hdeclaredParent, hdeclaredName, hdeclaredKind⟩ :=
    houtcome.exists_entity h.rooted h.one_root (lt_size_of_isNamespaceAt hparent) hkind
  constructor
  · rintro ⟨place, e', p, he', hp, rfl, rfl, haccepts⟩
    rcases houtcome.old h he' with ⟨e, he, hbecomes, hsame | ⟨rfl, hsame⟩⟩ | ⟨rfl, -, rfl⟩
    · left
      have hpOld : e.parent = some p := hbecomes.parent ▸ hp
      exact ⟨place, e, p, he, hpOld, (htrail (h.parent_lt he hpOld).2).symm, hbecomes.name.symm,
        hsame ▸ haccepts⟩
    · right
      obtain rfl : declared = e' := Option.some.inj (hdeclared.symm.trans he')
      obtain rfl : parent = p := Option.some.inj (hdeclaredParent.symm.trans hp)
      exact ⟨htrail hparent, hdeclaredName, hsame ▸ haccepts⟩
    · right
      obtain rfl : parent = p := Option.some.inj hp
      exact ⟨htrail hparent, rfl, haccepts⟩
  · rintro (⟨place, e, p, he, hp, rfl, rfl, haccepts⟩ | ⟨rfl, rfl, haccepts⟩)
    · obtain ⟨e', he', hbecomes⟩ := hgrows place e he
      refine ⟨place, e', p, he', hbecomes.parent.trans hp, htrail (h.parent_lt he hp).2,
        hbecomes.name, ?_⟩
      rcases hbecomes.kind with hsame | ⟨hmodule, hclass⟩
      · rw [hsame, haccepts]
      · rw [hclass]
        exact hupward (hmodule ▸ haccepts)
    · refine ⟨id, declared, parent, hdeclared, hdeclaredParent, htrail hparent, hdeclaredName, ?_⟩
      rcases hdeclaredKind with hsame | ⟨hmodule, hclass⟩
      · rw [hsame, haccepts]
      · rw [hclass]
        exact hupward (hmodule ▸ haccepts)

theorem Orderly.define (h : c.Orderly) (hparent : c.isNamespaceAt parent = true)
    (hname : kind.isNamespace = true → Name.isWord name = true) (hkind : kind ≠ .root) :
    (c.define parent name kind).1.Orderly :=
  (keeps_orderly_grows c h.toWellFormed ⟨h, .refl c⟩ hparent hname hkind).1

theorem grows_define (h : c.Orderly) (hparent : c.isNamespaceAt parent = true) (name : Text)
    (kind : EntityKind) : c.Grows (c.define parent name kind).1 :=
  (outcome_define (lt_size_of_isNamespaceAt hparent) name kind).grows h.rooted h.one_root

/-- **Declaring an entity adds it** to what there is. -/
theorem has_define (h : c.Orderly) (hparent : c.isNamespaceAt parent = true)
    (hname : kind.isNamespace = true → Name.isWord name = true) (hkind : kind ≠ .root)
    (hupward : Upward accepts) :
    (c.define parent name kind).1.Has owners other accepts ↔
      c.Has owners other accepts ∨
        (owners = c.trail parent ∧ other = name ∧ accepts kind = true) :=
  (outcome_define (lt_size_of_isNamespaceAt hparent) name kind).has_iff h
    (h.define hparent hname hkind) hparent hkind hupward

/-- The way to what is declared is the way to its parent, and its name. -/
theorem exists_entity_define (h : c.Orderly) (hparent : c.isNamespaceAt parent = true)
    (hname : kind.isNamespace = true → Name.isWord name = true) (hkind : kind ≠ .root) :
    ∃ e, (c.define parent name kind).1.entity? (c.define parent name kind).2 = some e ∧
      e.parent = some parent ∧ (c.define parent name kind).1.trail parent = c.trail parent ∧
        e.name = name ∧ (e.kind = kind ∨ (kind = .moduleDef ∧ e.kind = .classDef)) := by
  have hsize := lt_size_of_isNamespaceAt hparent
  obtain ⟨e, he, hp, hsame, hentityKind⟩ :=
    (outcome_define hsize name kind).exists_entity h.rooted h.one_root hsize hkind
  obtain ⟨pe, hpe, -⟩ := isNamespaceAt_iff.mp hparent
  have htrail := (grows_define h hparent name kind).trail_eq h.toWellFormed
    (h.define hparent hname hkind).toWellFormed hpe
  exact ⟨e, he, hp, htrail, hsame, hentityKind⟩

theorem trail_define (h : c.Orderly) (hparent : c.isNamespaceAt parent = true)
    (hname : Name.isWord name = true) :
    (c.define parent name .moduleDef).1.trail (c.define parent name .moduleDef).2 =
      c.trail parent ++ [name] := by
  have hword : EntityKind.moduleDef.isNamespace = true → Name.isWord name = true := fun _ => hname
  obtain ⟨e, he, hp, htrail, rfl, hkind⟩ :=
    exists_entity_define h hparent hword EntityKind.noConfusion
  have hmodule : e.kind.isNamespace = true ∧ e.kind ≠ .root := by
    rcases hkind with hkind | ⟨-, hkind⟩
    · rw [hkind]
      exact ⟨rfl, EntityKind.noConfusion⟩
    · rw [hkind]
      exact ⟨rfl, EntityKind.noConfusion⟩
  have hwell := (h.define hparent hword EntityKind.noConfusion).toWellFormed
  rw [trail_eq hwell he hp hmodule.1 hmodule.2, htrail]

/-! ## Declaring by paths -/

theorem defineOwners_cons (c : Corpus) (id : EntityId) (name : Text) (names : List Text) :
    c.defineOwners id (name :: names) =
      (c.define id name .moduleDef).1.defineOwners (c.define id name .moduleDef).2 names := rfl

theorem defineOwners_concat (c : Corpus) (id : EntityId) (names : List Text) (name : Text) :
    c.defineOwners id (names ++ [name]) =
      (c.defineOwners id names).1.define (c.defineOwners id names).2 name .moduleDef := by
  induction names generalizing c id with
  | nil => rfl
  | cons first names ih => exact ih _ _

theorem definePath_eq (c : Corpus) (d : Declaration) :
    c.definePath d.path d.kind =
      (c.defineOwners rootId d.owners).1.define (c.defineOwners rootId d.owners).2 d.name d.kind :=
  rfl

/-- What declaring modules one in the other does: each is there, on the way to the next. -/
theorem defineOwners_spec (h : c.Orderly) (hid : c.isNamespaceAt id = true)
    (hwords : ∀ name ∈ names, Name.isWord name = true) :
    let declared := c.defineOwners id names
    declared.1.Orderly ∧ c.Grows declared.1 ∧ declared.1.isNamespaceAt declared.2 = true ∧
      declared.1.trail declared.2 = c.trail id ++ names ∧
      ∀ accepts, Upward accepts → ∀ owners other, declared.1.Has owners other accepts ↔
        c.Has owners other accepts ∨
          ((∃ front, owners = c.trail id ++ front ∧ front ++ [other] <+: names) ∧
            accepts .moduleDef = true) := by
  induction names generalizing c id with
  | nil =>
    refine ⟨h, .refl c, hid, (List.append_nil _).symm, fun accepts _ owners other => ?_⟩
    have hnone : ¬∃ front, owners = c.trail id ++ front ∧ front ++ [other] <+: [] := by
      rintro ⟨front, -, hfront⟩
      simp at hfront
    rw [defineOwners, or_iff_left (fun hboth => hnone hboth.1)]
  | cons name names ih =>
    obtain ⟨hname, hnames⟩ := List.forall_mem_cons.mp hwords
    have hword : EntityKind.moduleDef.isNamespace = true → Name.isWord name = true :=
      fun _ => hname
    have hdefined := h.define hid hword EntityKind.noConfusion
    have hnamespace : (c.define id name .moduleDef).1.isNamespaceAt
        (c.define id name .moduleDef).2 = true := isNamespaceAt_define h.toWellFormed hid rfl
    have htrail := trail_define h hid hname
    obtain ⟨horderly, hgrows, hlast, hlastTrail, hhas⟩ := ih hdefined hnamespace hnames
    rw [defineOwners_cons]
    refine ⟨horderly, (grows_define h hid name .moduleDef).trans hgrows, hlast, ?_, ?_⟩
    · rw [htrail, List.append_assoc] at hlastTrail
      exact hlastTrail
    · intro accepts hupward owners other
      rw [hhas accepts hupward, has_define h hid hword EntityKind.noConfusion hupward, htrail,
        or_assoc]
      refine or_congr_right ?_
      -- The first of the modules is the one just declared, or it is one of the others.
      constructor
      · rintro (⟨rfl, rfl, haccepts⟩ | ⟨⟨front, rfl, hfront⟩, haccepts⟩)
        · exact ⟨⟨[], (List.append_nil _).symm, by simp⟩, haccepts⟩
        · refine ⟨⟨name :: front, by simp, ?_⟩, haccepts⟩
          exact List.cons_prefix_cons.mpr ⟨rfl, hfront⟩
      · rintro ⟨⟨front, rfl, hfront⟩, haccepts⟩
        cases front with
        | nil =>
          obtain ⟨rfl, -⟩ := List.cons_prefix_cons.mp hfront
          exact Or.inl ⟨List.append_nil _, rfl, haccepts⟩
        | cons first front =>
          obtain ⟨rfl, htail⟩ := List.cons_prefix_cons.mp hfront
          exact Or.inr ⟨⟨front, by simp, htail⟩, haccepts⟩

/-- What declaring by a path does: what is declared is there, below its owners. -/
theorem definePath_spec (h : c.Orderly) (hd : d.Named) (hkind : d.kind ≠ .root) :
    let declared := c.definePath d.path d.kind
    declared.1.Orderly ∧ c.Grows declared.1 ∧
      (∃ e p, declared.1.entity? declared.2 = some e ∧ e.parent = some p ∧
        declared.1.trail p = d.owners ∧ e.name = d.name ∧
          (e.kind = d.kind ∨ (d.kind = .moduleDef ∧ e.kind = .classDef))) ∧
      ∀ accepts, Upward accepts → ∀ owners name,
        declared.1.Has owners name accepts ↔
          c.Has owners name accepts ∨ d.Gives owners name accepts := by
  obtain ⟨howners, hname⟩ : (∀ owner ∈ d.owners, Name.isWord owner = true) ∧
    (d.kind.isNamespace = true → Name.isWord d.name = true) := hd
  have hrootTrail := h.trail_root
  obtain ⟨horderly, hgrows, hnamespace, htrail, hhas⟩ :=
    defineOwners_spec h h.isNamespaceAt_root howners
  rw [hrootTrail, List.nil_append] at htrail
  rw [definePath_eq]
  refine ⟨horderly.define hnamespace hname hkind,
    hgrows.trans (grows_define horderly hnamespace _ _), ?_, ?_⟩
  · obtain ⟨e, he, hp, hkept, hsame, hentityKind⟩ :=
      exists_entity_define horderly hnamespace hname hkind
    exact ⟨e, _, he, hp, hkept.trans htrail, hsame, hentityKind⟩
  · intro accepts hupward owners name
    rw [has_define horderly hnamespace hname hkind hupward, hhas accepts hupward, or_assoc,
      hrootTrail, htrail, Declaration.Gives]
    refine or_congr_right (or_comm.trans (or_congr_right ?_))
    simp

theorem Orderly.declare (h : c.Orderly) (hd : d.Named) (hkind : d.kind ≠ .root) :
    (c.declare d).Orderly := (definePath_spec h hd hkind).1

theorem has_declare (h : c.Orderly) (hd : d.Named) (hkind : d.kind ≠ .root)
    (hupward : Upward accepts) :
    (c.declare d).Has owners name accepts ↔
      c.Has owners name accepts ∨ d.Gives owners name accepts :=
  (definePath_spec h hd hkind).2.2.2 accepts hupward owners name

/-- **A corpus holds what its declarations give.** -/
theorem has_ofDeclarations (hds : ∀ d ∈ ds, d.Named ∧ d.kind ≠ .root) (hupward : Upward accepts) :
    (ofDeclarations ds).Has owners name accepts ↔ ∃ d ∈ ds, d.Gives owners name accepts := by
  have hfrom : ∀ c : Corpus, c.Orderly → ((ds.foldl declare c).Has owners name accepts ↔
      c.Has owners name accepts ∨ ∃ d ∈ ds, d.Gives owners name accepts) := by
    induction ds with
    | nil => simp
    | cons d ds ih =>
      intro c h
      obtain ⟨⟨hd, hkind⟩, hrest⟩ := List.forall_mem_cons.mp hds
      rw [List.foldl_cons, ih hrest _ (h.declare hd hkind), has_declare h hd hkind hupward,
        or_assoc]
      simp
  have hempty : ¬empty.Has owners name accepts := by
    rintro ⟨id, e, p, he, hp, -⟩
    obtain rfl : id = 0 := Nat.lt_one_iff.mp (lt_size_of_entity he)
    obtain rfl := Option.some.inj he
    cases hp
  rw [ofDeclarations, hfrom empty orderly_empty, or_iff_right hempty]

/-! ## Ways to namespaces -/

/-- Only the root has no words on the way to it. -/
theorem Orderly.trail_eq_nil_iff (h : c.Orderly) (hid : c.isNamespaceAt id = true) :
    c.trail id = [] ↔ id = rootId := by
  obtain ⟨e, he, hnamespace⟩ := isNamespaceAt_iff.mp hid
  by_cases hroot : e.kind = .root
  · rw [trail_of_root he hroot]
    exact ⟨fun _ => h.one_root id e he hroot, fun _ => rfl⟩
  · obtain ⟨p, hp, -⟩ := h.parent id e he (h.ne_root he hroot)
    rw [trail_eq h.toWellFormed he hp hnamespace hroot]
    constructor
    · intro hnil
      simp at hnil
    · intro hid
      exact absurd hid (h.ne_root he hroot)

/-- A namespace below the root has a parent, and the way to it is the way to that and its name. -/
theorem Orderly.exists_parent (h : c.Orderly) (hid : c.isNamespaceAt id = true)
    (hroot : id ≠ rootId) :
    ∃ e p, c.entity? id = some e ∧ e.parent = some p ∧ p < id ∧ c.isNamespaceAt p = true ∧
      e.kind.isNamespace = true ∧ c.trail id = c.trail p ++ [e.name] := by
  obtain ⟨e, he, hnamespace⟩ := isNamespaceAt_iff.mp hid
  obtain ⟨p, hp, hlt, hparent⟩ := h.parent id e he hroot
  have hkind : e.kind ≠ .root := fun hkind => hroot (h.one_root id e he hkind)
  exact ⟨e, p, he, hp, hlt, hparent, hnamespace, trail_eq h.toWellFormed he hp hnamespace hkind⟩

/-- **There is one namespace at the end of a way.** -/
theorem Orderly.eq_of_trail (h : c.Orderly) (hp : c.isNamespaceAt p = true)
    (hq : c.isNamespaceAt q = true) (heq : c.trail p = c.trail q) : p = q := by
  induction p using Nat.strongRecOn generalizing q with
  | ind p ih =>
    by_cases hroot : p = rootId
    · rw [(h.trail_eq_nil_iff hp).mpr hroot] at heq
      rw [hroot, (h.trail_eq_nil_iff hq).mp heq.symm]
    · have hother : q ≠ rootId := by
        intro hother
        rw [(h.trail_eq_nil_iff hq).mpr hother] at heq
        exact hroot ((h.trail_eq_nil_iff hp).mp heq)
      obtain ⟨e, pp, he, hpp, hlt, hppNamespace, hkind, htrail⟩ := h.exists_parent hp hroot
      obtain ⟨f, qq, hf, hqq, -, hqqNamespace, hotherKind, hotherTrail⟩ :=
        h.exists_parent hq hother
      rw [htrail, hotherTrail] at heq
      obtain ⟨houter, hname⟩ := List.append_inj' heq rfl
      obtain rfl := ih pp hlt hppNamespace hqqNamespace houter
      have hmerges : e.kind.merges f.kind = true :=
        EntityKind.merges_iff.mpr (Or.inr ⟨hotherKind, hkind⟩)
      exact h.apart p q e f he hf (hpp.trans hqq.symm) (List.singleton_inj.mp hname) hmerges

/-- What is looked for among the children of a namespace is found when the corpus holds it there. -/
theorem Orderly.isSome_child?_iff (h : c.Orderly) (hp : c.isNamespaceAt p = true) :
    (c.child? p name accepts).isSome = true ↔ c.Has (c.trail p) name accepts := by
  constructor
  · intro hsome
    obtain ⟨id, hid⟩ := Option.isSome_iff_exists.mp hsome
    obtain ⟨e, he, hparent, hname, haccepts⟩ := h.rooted.exists_of_child? hid
    exact ⟨id, e, p, he, hparent, rfl, hname, haccepts⟩
  · rintro ⟨id, e, q, he, hparent, htrail, rfl, haccepts⟩
    obtain rfl := h.eq_of_trail (h.parent_lt he hparent).2 hp htrail
    refine List.find?_isSome.mpr ⟨id, h.listed id e q he hparent, ?_⟩
    simp [isCalled, he, haccepts]

/-- A namespace is there when the corpus holds it on the way. -/
theorem Orderly.exists_namespace_iff (h : c.Orderly) :
    (∃ id, c.isNamespaceAt id = true ∧ c.trail id = owners ++ [name]) ↔
      c.Has owners name EntityKind.isNamespace := by
  constructor
  · rintro ⟨id, hid, htrail⟩
    have hroot : id ≠ rootId := by
      intro hroot
      rw [(h.trail_eq_nil_iff hid).mpr hroot] at htrail
      simp at htrail
    obtain ⟨e, p, he, hp, -, -, hkind, hsplit⟩ := h.exists_parent hid hroot
    rw [hsplit] at htrail
    obtain ⟨howners, hname⟩ := List.append_inj' htrail rfl
    exact ⟨id, e, p, he, hp, howners, List.singleton_inj.mp hname, hkind⟩
  · rintro ⟨id, e, p, he, hp, rfl, rfl, hkind⟩
    have hroot : e.kind ≠ .root :=
      fun hroot => h.rooted.ne_root_of_parent he hp (h.one_root id e he hroot)
    refine ⟨id, ?_, trail_eq h.toWellFormed he hp hkind hroot⟩
    rw [isNamespaceAt_of_entity he, hkind]

end Corpus
end DocTypes
