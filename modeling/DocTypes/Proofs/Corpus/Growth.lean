import DocTypes.Proofs.Corpus.Places

/-! # Corpora grow

If nothing is ever declared as a root, declaring leaves what is there where it is, with its name and
its parent, at most makes a class of a module, and adds children behind those that there are
(`Becomes`, `Grows`).  So paths stay as they are (`Grows.path_eq`), and what is found once is found
forever, by lookups that take modules and classes alike (`Grows.child?_eq`).

What can be said about corpora that are declared by words as well is `Orderly`. -/

namespace DocTypes

/-- Whether modules and classes are accepted alike. -/
def EntityKind.Steady (accepts : EntityKind → Bool) : Prop := accepts .moduleDef = accepts .classDef

namespace EntityKind

theorem steady_isNamespace : Steady isNamespace := rfl

end EntityKind

namespace Corpus

variable {c c' : Corpus} {id p parent found : EntityId} {name : Text} {kind : EntityKind}
variable {e e' : Entity} {accepts : EntityKind → Bool}

/-! ## Growing -/

/-- What may become of an entity when more is declared. -/
structure Becomes (e e' : Entity) : Prop where
  name : e'.name = e.name
  parent : e'.parent = e.parent
  kind : e'.kind = e.kind ∨ (e.kind = .moduleDef ∧ e'.kind = .classDef)
  children : e.children <+: e'.children

namespace Becomes

theorem refl (e : Entity) : Becomes e e := ⟨rfl, rfl, Or.inl rfl, List.prefix_refl _⟩

theorem trans {e'' : Entity} (h : Becomes e e') (h' : Becomes e' e'') : Becomes e e'' := by
  refine ⟨h'.name.trans h.name, h'.parent.trans h.parent, ?_, h.children.trans h'.children⟩
  rcases h.kind with hkind | ⟨hmodule, hclass⟩
  · rw [← hkind]
    exact h'.kind
  · rcases h'.kind with hkind | ⟨hmodule', -⟩
    · exact Or.inr ⟨hmodule, hkind.trans hclass⟩
    · rw [hclass] at hmodule'
      cases hmodule'

theorem accepts_eq (h : Becomes e e') (hsteady : EntityKind.Steady accepts) :
    accepts e'.kind = accepts e.kind := by
  rcases h.kind with hkind | ⟨hmodule, hclass⟩
  · rw [hkind]
  · rw [hmodule, hclass]
    exact hsteady.symm

theorem merges_eq (h : Becomes e e') (kind : EntityKind) :
    e'.kind.merges kind = e.kind.merges kind := by
  rcases h.kind with hkind | ⟨hmodule, hclass⟩
  · rw [hkind]
  · rw [hmodule, hclass]
    cases kind <;> rfl

theorem isRoot_iff (h : Becomes e e') : e'.kind = .root ↔ e.kind = .root := by
  rcases h.kind with hkind | ⟨hmodule, hclass⟩
  · rw [hkind]
  · simp [hmodule, hclass]

theorem isMethod_iff (h : Becomes e e') : e'.kind = .methodDef ↔ e.kind = .methodDef := by
  rcases h.kind with hkind | ⟨hmodule, hclass⟩
  · rw [hkind]
  · simp [hmodule, hclass]

end Becomes

/-- Whether all that is in the one corpus is in the other, at the same place. -/
def Grows (c c' : Corpus) : Prop :=
  ∀ id e, c.entity? id = some e → ∃ e', c'.entity? id = some e' ∧ Becomes e e'

theorem Grows.refl (c : Corpus) : c.Grows c := fun _ e he => ⟨e, he, .refl e⟩

theorem Grows.trans {c'' : Corpus} (h : c.Grows c') (h' : c'.Grows c'') : c.Grows c'' := by
  intro id e he
  obtain ⟨e', he', hbecomes⟩ := h id e he
  obtain ⟨e'', he'', hbecomes'⟩ := h' id e' he'
  exact ⟨e'', he'', hbecomes.trans hbecomes'⟩

theorem Grows.becomes (h : c.Grows c') (he : c.entity? id = some e)
    (he' : c'.entity? id = some e') : Becomes e e' := by
  obtain ⟨e'', he'', hbecomes⟩ := h id e he
  obtain rfl : e' = e'' := Option.some.inj (he'.symm.trans he'')
  exact hbecomes

theorem OneRoot.becomes_reopened (hone : c.OneRoot) (h : c.Rooted) (he : c.entity? id = some e)
    (hp : e.parent = some p) (hmerges : kind.merges e.kind = true) :
    Becomes e (e.reopened kind) := by
  unfold Entity.reopened
  split
  · next hclass =>
    refine ⟨rfl, rfl, ?_, List.prefix_refl _⟩
    subst hclass
    have hnamespace := EntityKind.isNamespace_of_merges_classDef hmerges
    rcases hone.kind_of_namespace h he hp hnamespace with hmodule | hclass
    · exact Or.inr ⟨hmodule, rfl⟩
    · exact Or.inl hclass.symm
  · exact .refl e

theorem Outcome.grows (h : c.Rooted) (hone : c.OneRoot)
    (houtcome : c.Outcome parent name kind c' id) : c.Grows c' := by
  intro place e he
  cases houtcome with
  | reopened old hchild hold hname hmerges hafter =>
    rw [hafter]
    split
    · next hplace =>
      obtain rfl : old = e := Option.some.inj (hold.symm.trans (hplace ▸ he))
      exact ⟨_, rfl, hone.becomes_reopened h hold (h.parent_of_mem hchild hold) hmerges⟩
    · exact ⟨e, he, .refl e⟩
  | added hid hnone hafter =>
    have hplace : place ≠ c.size := Nat.ne_of_lt (lt_size_of_entity he)
    rw [hafter, if_neg hplace, he]
    split
    · exact ⟨_, rfl, rfl, rfl, Or.inl rfl, List.prefix_append _ _⟩
    · exact ⟨e, rfl, .refl e⟩

/-! ## What corpora declared by words have in common -/

/-- What can be said about corpora in which no root was declared. -/
structure Orderly (c : Corpus) : Prop extends WellFormed c where
  one_root : ∀ id e, c.entity? id = some e → e.kind = .root → id = rootId
  /-- Parents know their children. -/
  listed : ∀ id e p, c.entity? id = some e → e.parent = some p → id ∈ c.childrenOf p
  /-- Children of the same name are of kinds that do not merge. -/
  apart : ∀ id id' e e', c.entity? id = some e → c.entity? id' = some e' → e.parent = e'.parent →
    e.name = e'.name → e.kind.merges e'.kind = true → id = id'

theorem Orderly.regular (h : c.Orderly) : c.Regular := ⟨h.rooted, h.listed, h.apart⟩

/-- What is declared is found at its place, with its parent and its name, as what it was declared
unless it was a class already. -/
theorem Outcome.exists_entity (h : c.Rooted) (hone : c.OneRoot) (hparent : parent < c.size)
    (hkind : kind ≠ .root) (houtcome : c.Outcome parent name kind c' id) :
    ∃ e, c'.entity? id = some e ∧ e.parent = some parent ∧ e.name = name ∧
      (e.kind = kind ∨ (kind = .moduleDef ∧ e.kind = .classDef)) := by
  have hstep := houtcome.step h hparent
  have hone' : c'.OneRoot := hone.step hstep hkind
  obtain ⟨e, he, hp, hname, hmerges, hclass⟩ := houtcome.exists_declared h
  refine ⟨e, he, hp, hname, ?_⟩
  rcases EntityKind.merges_iff.mp hmerges with hsame | ⟨hold, hnew⟩
  · exact Or.inl hsame
  · rcases hone'.kind_of_namespace (h.step hstep hparent) he hp hold with hmodule | hclassDef
    · cases kind with
      | root => exact absurd rfl hkind
      | moduleDef => exact Or.inl hmodule
      | classDef => exact Or.inl (hclass rfl)
      | methodDef | constantDef => cases hnew
    · cases kind with
      | root => exact absurd rfl hkind
      | moduleDef => exact Or.inr ⟨rfl, hclassDef⟩
      | classDef => exact Or.inl hclassDef
      | methodDef | constantDef => cases hnew

/-- What is there afterwards was there before, and as what it was unless it is declared again; or it
is what was added. -/
theorem Outcome.old (h : c.Orderly) (houtcome : c.Outcome parent name kind c' id)
    {place : EntityId} (he' : c'.entity? place = some e') :
    (∃ e, c.entity? place = some e ∧ Becomes e e' ∧
        (e'.kind = e.kind ∨ (place = id ∧ e'.kind = kind))) ∨
      (place = id ∧ c.child? parent name kind.merges = none ∧
        e' = ⟨name, kind, some parent, []⟩) := by
  have hbecomes : ∀ {e}, c.entity? place = some e → Becomes e e' :=
    fun he => (houtcome.grows h.rooted h.one_root).becomes he he'
  cases houtcome with
  | reopened e hchild he hname hmerges hafter =>
    left
    rw [hafter] at he'
    split at he'
    · next hplace =>
      subst hplace
      refine ⟨e, he, hbecomes he, ?_⟩
      obtain rfl : e.reopened kind = e' := Option.some.inj he'
      unfold Entity.reopened
      split
      · next hclass => exact Or.inr ⟨rfl, hclass.symm⟩
      · exact Or.inl rfl
    · exact ⟨e', he', hbecomes he', Or.inl rfl⟩
  | added hid hnone hafter =>
    rw [hafter] at he'
    split at he'
    · next hplace => exact Or.inr ⟨hplace.trans hid.symm, hnone, (Option.some.inj he').symm⟩
    · left
      split at he'
      · obtain ⟨e, he, rfl⟩ := Option.map_eq_some_iff.mp he'
        exact ⟨e, he, hbecomes he, Or.inl rfl⟩
      · exact ⟨e', he', hbecomes he', Or.inl rfl⟩

theorem orderly_empty : Orderly .empty :=
  ⟨wellFormed_empty, oneRoot_empty, regular_empty.listed, regular_empty.apart⟩

theorem Orderly.outcome (h : c.Orderly) (hwell : c'.WellFormed) (hparent : parent < c.size)
    (hkind : kind ≠ .root) (houtcome : c.Outcome parent name kind c' id) : c'.Orderly := by
  have hregular := h.regular.outcome hparent houtcome
  have hone : c'.OneRoot := OneRoot.step h.one_root (houtcome.step h.rooted hparent) hkind
  exact ⟨hwell, hone, hregular.listed, hregular.apart⟩

/-- Declaring makes a corpus grow, and keeps it in order. -/
theorem keeps_orderly_grows (c₀ : Corpus) :
    Keeps (· ≠ .root) fun c => c.Orderly ∧ c₀.Grows c := by
  intro c parent name kind hwell ⟨h, hgrows⟩ hparent hname hkind
  have hsize := lt_size_of_isNamespaceAt hparent
  have houtcome := outcome_define hsize name kind
  exact ⟨h.outcome (wellFormed_define hwell hparent hname) hsize hkind houtcome,
    hgrows.trans (houtcome.grows h.rooted h.one_root)⟩

variable {ds : List Declaration}

theorem Orderly.foldl_declare (h : c.Orderly) (hds : ∀ d ∈ ds, d.Named ∧ d.kind ≠ .root) :
    (ds.foldl declare c).Orderly ∧ c.Grows (ds.foldl declare c) :=
  (Keeps.foldl (keeps_orderly_grows c) EntityKind.noConfusion hds h.toWellFormed ⟨h, .refl c⟩).2

theorem orderly_ofDeclarations (hds : ∀ d ∈ ds, d.Named ∧ d.kind ≠ .root) :
    (ofDeclarations ds).Orderly := (orderly_empty.foldl_declare hds).1

/-- **A corpus with further declarations is one that has grown.** -/
theorem grows_ofDeclarations_append {before after : List Declaration}
    (hds : ∀ d ∈ before ++ after, d.Named ∧ d.kind ≠ .root) :
    (ofDeclarations before).Grows (ofDeclarations (before ++ after)) := by
  obtain ⟨hbefore, hafter⟩ := List.forall_mem_append.mp hds
  rw [ofDeclarations, ofDeclarations, List.foldl_append]
  exact ((orderly_ofDeclarations hbefore).foldl_declare hafter).2

/-! ## What growing leaves as it is -/

namespace Grows

/-- **The path of an entity stays as it is.** -/
theorem path_eq (hgrows : c.Grows c') (h : c.Rooted) (h' : c'.Rooted)
    (he : c.entity? id = some e) : c'.path id = c.path id := by
  induction id using Nat.strongRecOn generalizing e with
  | ind id ih =>
    obtain ⟨e', he', hbecomes⟩ := hgrows id e he
    by_cases hid : id = rootId
    · rw [hid, path_root h, path_root h']
    · obtain ⟨p, hp, hlt⟩ := h.parent id e he hid
      obtain ⟨pe, hpe⟩ := h.exists_parent_entity he hp
      obtain ⟨pe', hpe', hbecomesParent⟩ := hgrows p pe hpe
      rw [Corpus.path_eq h' he' (hbecomes.parent.trans hp) hpe', Corpus.path_eq h he hp hpe,
        hbecomes.name, ih p hlt hpe]
      simp only [hbecomesParent.isRoot_iff, hbecomes.isMethod_iff]

theorem trail_eq (hgrows : c.Grows c') (h : c.WellFormed) (h' : c'.WellFormed)
    (he : c.entity? id = some e) : c'.trail id = c.trail id := by
  obtain ⟨e', he', hbecomes⟩ := hgrows id e he
  have hroot : c'.isRootAt id = c.isRootAt id := by
    rw [isRootAt, isRootAt, he, he', Bool.eq_iff_iff, beq_iff_eq, beq_iff_eq]
    exact hbecomes.isRoot_iff
  rw [trail, trail, hroot, hgrows.path_eq h.rooted h'.rooted he]

theorem isNamespaceAt (hgrows : c.Grows c') (hid : c.isNamespaceAt id = true) :
    c'.isNamespaceAt id = true := by
  obtain ⟨e, he, hkind⟩ := isNamespaceAt_iff.mp hid
  obtain ⟨e', he', hbecomes⟩ := hgrows id e he
  have hsame := hbecomes.accepts_eq EntityKind.steady_isNamespace
  exact isNamespaceAt_iff.mpr ⟨e', he', hsame.trans hkind⟩

theorem isCalled_eq (hgrows : c.Grows c') (hsteady : EntityKind.Steady accepts)
    (he : c.entity? id = some e) : c'.isCalled name accepts id = c.isCalled name accepts id := by
  obtain ⟨e', he', hbecomes⟩ := hgrows id e he
  simp only [isCalled, he, he', hbecomes.name, hbecomes.accepts_eq hsteady]

/-- **What a lookup among children has found, it finds from then on.** -/
theorem child?_eq (hgrows : c.Grows c') (h : c.Rooted) (hsteady : EntityKind.Steady accepts)
    (hfound : c.child? p name accepts = some found) : c'.child? p name accepts = some found := by
  obtain ⟨pe, hpe, -⟩ := Corpus.mem_childrenOf.mp (child?_eq_some hfound).1
  obtain ⟨pe', hpe', hbecomes⟩ := hgrows p pe hpe
  obtain ⟨more, hmore⟩ := hbecomes.children
  have hchildren : c'.childrenOf p = c.childrenOf p ++ more := by
    rw [childrenOf, childrenOf, hpe, hpe']
    exact hmore.symm
  have hsame : ∀ id ∈ c.childrenOf p,
      c'.isCalled name accepts id = c.isCalled name accepts id := by
    intro id hid
    obtain ⟨e, he, -⟩ := h.child p id hid
    exact hgrows.isCalled_eq hsteady he
  -- Nothing has come before the child that was found, and what stood there is called as it was.
  obtain ⟨hcalled, front, back, hsplit, hfront⟩ := List.find?_eq_some_iff_append.mp hfound
  refine List.find?_eq_some_iff_append.mpr ⟨?_, front, back ++ more, ?_, ?_⟩
  · rw [hsame found (by simp [hsplit])]
    exact hcalled
  · rw [hchildren, hsplit, List.append_assoc, List.cons_append]
  · intro id hid
    rw [hsame id (by simp [hsplit, hid])]
    exact hfront id hid

end Grows

end Corpus
end DocTypes
