import DocTypes.Proofs.Corpus.MemberPath

/-! # Corpora with the same declarations

A corpus lists what it holds, each entity with its kind and with the path that is put together from
its owners and its name (`Orderly.mem_listing_iff`).  What it holds is what its declarations give, so
corpora with the same declarations list the same, in whatever order these are made and however often
(`mem_listing_congr`).

A module has to be told from a class here, and whether there is a module is not only a matter of
what is declared but also of what is not: it is a namespace that is no class
(`Orderly.has_module_iff`).  A class is listed when it is declared as one
(`classDef_mem_listing_iff`), and any other namespace when it is declared or something below it is
(`moduleDef_mem_listing_iff`). -/

namespace DocTypes

namespace Declaration

/-- The path of what is declared, if that is no method. -/
def fullName (d : Declaration) : Text := Name.join (d.owners ++ [d.name])

/-- Whether what is declared lies below the namespace of a path. -/
def LiesBelow (d : Declaration) (path : Text) : Prop :=
  ∃ way, way ≠ [] ∧ way <+: d.owners ∧ path = Name.join way

/-- What gives a namespace declares it, or something below it. -/
theorem exists_gives_isNamespace_iff {d : Declaration} {path : Text} :
    (∃ owners name, d.Gives owners name EntityKind.isNamespace ∧
        path = Name.join (owners ++ [name])) ↔
      (d.kind.isNamespace = true ∧ d.fullName = path) ∨ d.LiesBelow path := by
  constructor
  · rintro ⟨owners, name, ⟨rfl, rfl, hkind⟩ | ⟨hbegins, -⟩, rfl⟩
    · exact Or.inl ⟨hkind, rfl⟩
    · exact Or.inr ⟨owners ++ [name], List.append_ne_nil_of_right_ne_nil _ (List.cons_ne_nil _ _),
        hbegins, rfl⟩
  · rintro (⟨hkind, rfl⟩ | ⟨way, hne, hbegins, rfl⟩)
    · exact ⟨d.owners, d.name, Or.inl ⟨rfl, rfl, hkind⟩, rfl⟩
    · have hsplit := List.dropLast_concat_getLast hne
      exact ⟨way.dropLast, way.getLast hne, Or.inr ⟨hsplit.symm ▸ hbegins, rfl⟩, by rw [hsplit]⟩

/-- The way to a namespace that is given is one of words. -/
theorem Gives.words {d : Declaration} {owners : List Text} {name : Text} (hd : d.Named)
    (h : d.Gives owners name EntityKind.isNamespace) : Name.Words (owners ++ [name]) := by
  obtain ⟨howners, hname⟩ : (∀ owner ∈ d.owners, Name.isWord owner = true) ∧
    (d.kind.isNamespace = true → Name.isWord d.name = true) := hd
  rcases h with ⟨rfl, rfl, hkind⟩ | ⟨hbegins, -⟩
  · exact Name.words_concat howners (hname hkind)
  · refine ⟨List.append_ne_nil_of_right_ne_nil _ (List.cons_ne_nil _ _), fun w hw => ?_⟩
    exact howners w (hbegins.subset hw)

end Declaration

namespace Corpus

variable {c : Corpus} {id : EntityId} {name path : Text} {owners : List Text} {kind : EntityKind}
variable {ds ds' : List Declaration}

/-! ## What is listed -/

/-- **What is listed is what the corpus holds.** -/
theorem Orderly.mem_listing_iff (h : c.Orderly) :
    (kind, path) ∈ c.listing ↔
      ∃ owners name, c.Has owners name (· == kind) ∧ path = memberPath owners name kind := by
  simp only [listing, List.mem_filterMap, Option.map_eq_some_iff, Prod.mk.injEq, mem_ids]
  constructor
  · rintro ⟨id, ⟨hroot, -⟩, e, he, rfl, rfl⟩
    obtain ⟨p, hp, -⟩ := h.parent id e he hroot
    exact ⟨c.trail p, e.name, ⟨id, e, p, he, hp, rfl, rfl, beq_self_eq_true _⟩,
      h.path_eq_memberPath he hp⟩
  · rintro ⟨owners, name, ⟨id, e, p, he, hp, rfl, rfl, hkind⟩, rfl⟩
    obtain rfl := beq_iff_eq.mp hkind
    exact ⟨id, ⟨h.rooted.ne_root_of_parent he hp, lt_size_of_entity he⟩, e, he, rfl,
      h.path_eq_memberPath he hp⟩

/-- **A module is a namespace that is no class.** -/
theorem Orderly.has_module_iff (h : c.Orderly) :
    c.Has owners name (· == .moduleDef) ↔
      c.Has owners name EntityKind.isNamespace ∧ ¬c.Has owners name (· == .classDef) := by
  constructor
  · rintro ⟨id, e, p, he, hp, rfl, rfl, hkind⟩
    rw [beq_iff_eq] at hkind
    refine ⟨⟨id, e, p, he, hp, rfl, rfl, by rw [hkind]; rfl⟩, ?_⟩
    -- A class with the same way would be the same entity.
    rintro ⟨other, f, q, hf, hq, htrail, hname, hclass⟩
    rw [beq_iff_eq] at hclass
    obtain rfl := h.eq_of_trail (h.parent_lt he hp).2 (h.parent_lt hf hq).2 htrail.symm
    have hmerges : e.kind.merges f.kind = true := by rw [hkind, hclass]; rfl
    obtain rfl := h.apart id other e f he hf (hp.trans hq.symm) hname.symm hmerges
    obtain rfl : e = f := Option.some.inj (he.symm.trans hf)
    rw [hkind] at hclass
    cases hclass
  · rintro ⟨⟨id, e, p, he, hp, rfl, rfl, hkind⟩, hnone⟩
    rcases OneRoot.kind_of_namespace h.one_root h.rooted he hp hkind with hmodule | hclass
    · exact ⟨id, e, p, he, hp, rfl, rfl, beq_iff_eq.mpr hmodule⟩
    · exact absurd ⟨id, e, p, he, hp, rfl, rfl, beq_iff_eq.mpr hclass⟩ hnone

/-! ## The same declarations -/

section Same

variable (hds : ∀ d ∈ ds, d.Named ∧ d.kind ≠ .root) (hsame : ∀ d, d ∈ ds ↔ d ∈ ds')

include hds hsame

/-- A corpus holds the same in whatever order and however often it is declared. -/
theorem has_congr {accepts : EntityKind → Bool} (hupward : EntityKind.Upward accepts) :
    (ofDeclarations ds').Has owners name accepts ↔ (ofDeclarations ds).Has owners name accepts := by
  have hds' : ∀ d ∈ ds', d.Named ∧ d.kind ≠ .root := fun d hd => hds d ((hsame d).mpr hd)
  rw [has_ofDeclarations hds hupward, has_ofDeclarations hds' hupward]
  simp only [hsame]

/-- It holds it as the same, too. -/
theorem has_kind_congr :
    (ofDeclarations ds').Has owners name (· == kind) ↔
      (ofDeclarations ds).Has owners name (· == kind) := by
  by_cases hmodule : kind = .moduleDef
  · subst hmodule
    have h' := orderly_ofDeclarations fun d hd => hds d ((hsame d).mpr hd)
    rw [(orderly_ofDeclarations hds).has_module_iff, h'.has_module_iff,
      has_congr hds hsame EntityKind.steady_isNamespace.upward, has_congr hds hsame fun _ => rfl]
  · exact has_congr hds hsame fun hkind => absurd (beq_iff_eq.mp hkind).symm hmodule

/-- **Corpora with the same declarations list the same.** -/
theorem mem_listing_congr :
    (kind, path) ∈ (ofDeclarations ds').listing ↔ (kind, path) ∈ (ofDeclarations ds).listing := by
  have h' := orderly_ofDeclarations fun d hd => hds d ((hsame d).mpr hd)
  rw [(orderly_ofDeclarations hds).mem_listing_iff, h'.mem_listing_iff]
  simp only [has_kind_congr hds hsame]

end Same

/-! ## Which namespaces are listed -/

section Namespaces

variable (hds : ∀ d ∈ ds, d.Named ∧ d.kind ≠ .root)

include hds

theorem has_classDef_iff :
    (ofDeclarations ds).Has owners name (· == .classDef) ↔
      ∃ d ∈ ds, d.kind = .classDef ∧ owners = d.owners ∧ name = d.name := by
  rw [has_ofDeclarations hds fun _ => rfl]
  simp [Declaration.Gives, and_assoc, and_left_comm, and_comm]

/-- **A class is listed when it is declared as one.** -/
theorem classDef_mem_listing_iff :
    (.classDef, path) ∈ (ofDeclarations ds).listing ↔
      ∃ d ∈ ds, d.kind = .classDef ∧ d.fullName = path := by
  have hpath : ∀ owners name, memberPath owners name .classDef = Name.join (owners ++ [name]) :=
    memberPath_of_ne_method EntityKind.noConfusion
  rw [(orderly_ofDeclarations hds).mem_listing_iff]
  simp only [has_classDef_iff hds, hpath]
  constructor
  · rintro ⟨_, _, ⟨d, hd, hkind, rfl, rfl⟩, rfl⟩
    exact ⟨d, hd, hkind, rfl⟩
  · rintro ⟨d, hd, hkind, rfl⟩
    exact ⟨_, _, ⟨d, hd, hkind, rfl, rfl⟩, rfl⟩

/-- **Any other namespace is listed when it is declared or something below it is.** -/
theorem moduleDef_mem_listing_iff :
    (.moduleDef, path) ∈ (ofDeclarations ds).listing ↔
      (∃ d ∈ ds, (d.kind.isNamespace = true ∧ d.fullName = path) ∨ d.LiesBelow path) ∧
        ¬∃ d ∈ ds, d.kind = .classDef ∧ d.fullName = path := by
  have h := orderly_ofDeclarations hds
  have hpath : ∀ owners name, memberPath owners name .moduleDef = Name.join (owners ++ [name]) :=
    memberPath_of_ne_method EntityKind.noConfusion
  rw [h.mem_listing_iff]
  simp only [h.has_module_iff, hpath, ← Declaration.exists_gives_isNamespace_iff,
    has_ofDeclarations hds EntityKind.steady_isNamespace.upward, has_classDef_iff hds]
  constructor
  · rintro ⟨owners, name, ⟨⟨d, hd, hgives⟩, hnone⟩, rfl⟩
    refine ⟨⟨d, hd, owners, name, hgives, rfl⟩, ?_⟩
    rintro ⟨other, hother, hclass, hpath⟩
    have hotherGives : other.Gives other.owners other.name EntityKind.isNamespace :=
      Or.inl ⟨rfl, rfl, by rw [hclass]; rfl⟩
    have hparts := Name.join_injective (hotherGives.words (hds other hother).1)
      (hgives.words (hds d hd).1) hpath
    obtain ⟨howners, hname⟩ := List.append_inj' hparts rfl
    exact hnone ⟨other, hother, hclass, howners.symm, (List.singleton_inj.mp hname).symm⟩
  · rintro ⟨⟨d, hd, owners, name, hgives, rfl⟩, hnone⟩
    refine ⟨owners, name, ⟨⟨d, hd, hgives⟩, ?_⟩, rfl⟩
    rintro ⟨other, hother, hclass, rfl, rfl⟩
    exact hnone ⟨other, hother, hclass, rfl⟩

end Namespaces

end Corpus
end DocTypes
