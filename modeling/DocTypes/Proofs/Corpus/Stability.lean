import DocTypes.Proofs.Corpus.Growth

/-! # What is declared stays

Ids and paths are held on to while more is declared, below whatever and by whatever paths, as long
as nothing is declared as a root.  This goes well since the corpus only grows (`GrownFrom.leads`):
the entity of an id keeps its name and its path, a path that leads to an entity leads there from
then on (`Grows.find?_eq`), and a path that is declared a second time leads to what it made the
first time and makes nothing new (`definePath_again`). -/

namespace DocTypes

namespace EntityKind

theorem steady_isPathStep : Steady Corpus.isPathStep := rfl

theorem steady_isNameStep : Steady Corpus.isNameStep := rfl

theorem steady_isMethod : Steady (· == .methodDef) := rfl

end EntityKind

namespace Corpus

variable {c c' c₀ : Corpus} {id parent found : EntityId} {name : Text} {kind : EntityKind}
variable {accepts : EntityKind → Bool}

/-! ## Growing by declarations -/

/-- Whether a corpus in which no root was declared has grown out of another one. -/
structure GrownFrom (c₀ c : Corpus) : Prop extends Regular c where
  one_root : c.OneRoot
  grows : c₀.Grows c

theorem grownFrom_empty : GrownFrom .empty .empty := ⟨regular_empty, oneRoot_empty, .refl _⟩

/-- What has grown out of something is a corpus to start from. -/
theorem GrownFrom.self (h : GrownFrom c₀ c) : GrownFrom c c := ⟨h.toRegular, h.one_root, .refl c⟩

theorem GrownFrom.define (h : GrownFrom c₀ c) (hparent : parent < c.size) (hkind : kind ≠ .root)
    (name : Text) : GrownFrom c₀ (c.define parent name kind).1 := by
  have houtcome := outcome_define hparent name kind
  refine ⟨h.toRegular.outcome hparent houtcome, ?_, ?_⟩
  · exact h.one_root.step (houtcome.step h.toRooted hparent) hkind
  · exact h.grows.trans (houtcome.grows h.toRooted h.one_root)

/-- **A corpus grows, whatever is declared.** -/
theorem GrownFrom.leads (h : GrownFrom c₀ c) (hleads : Leads (· ≠ .root) c c') :
    GrownFrom c₀ c' :=
  hleads.keeps (P := GrownFrom c₀) (fun h => h.toRooted) GrownFrom.define
    EntityKind.noConfusion h

theorem GrownFrom.defineOwners (h : GrownFrom c₀ c) (hid : id < c.size) (owners : List Text) :
    GrownFrom c₀ (c.defineOwners id owners).1 ∧
      (c.defineOwners id owners).2 < (c.defineOwners id owners).1.size :=
  keeps_defineOwners (P := GrownFrom c₀) (fun h => h.toRooted) GrownFrom.define
    EntityKind.noConfusion owners h hid

/-! ## Looking up again -/

/-- Names that lead to an entity lead there from then on. -/
theorem Grows.descend?_eq (hgrows : c.Grows c') (h : c.Rooted)
    (hsteady : EntityKind.Steady accepts) {names : List Text}
    (hfound : c.descend? accepts id names = some found) :
    c'.descend? accepts id names = some found := by
  induction names generalizing id with
  | nil => exact hfound
  | cons name names ih =>
    rw [descend?] at hfound ⊢
    cases hchild : c.child? id name accepts with
    | none =>
      rw [hchild] at hfound
      cases hfound
    | some child =>
      rw [hchild] at hfound
      rw [hgrows.child?_eq h hsteady hchild]
      exact ih hfound

/-- **A path that leads to an entity leads there from then on.** -/
theorem Grows.find?_eq (hgrows : c.Grows c') (h : c.Rooted) {path : Text}
    (hfound : c.find? path = some id) : c'.find? path = some id := by
  rw [find?] at hfound ⊢
  split at hfound
  · next owner name hcut =>
    obtain ⟨place, howner, hchild⟩ := Option.bind_eq_some_iff.mp hfound
    refine Option.bind_eq_some_iff.mpr ⟨place, ?_, ?_⟩
    · exact hgrows.descend?_eq h EntityKind.steady_isPathStep howner
    · exact hgrows.child?_eq h EntityKind.steady_isMethod hchild
  · exact hgrows.descend?_eq h EntityKind.steady_isPathStep hfound

/-! ## Declaring again -/

/-- What was declared once is there, and declaring it again finds it. -/
theorem define_again (h : c.Rooted) (hparent : parent < c.size) (h' : c'.Regular)
    (hgrows : (c.define parent name kind).1.Grows c') :
    c'.define parent name kind = (c', (c.define parent name kind).2) := by
  obtain ⟨e, he, hp, hname, hmerges, hclass⟩ :=
    (outcome_define hparent name kind).exists_declared h
  obtain ⟨e', he', hbecomes⟩ := hgrows _ e he
  refine h'.define_eq_self he' (hbecomes.parent.trans hp) (hbecomes.name.trans hname) ?_ ?_
  · rwa [EntityKind.merges_comm, hbecomes.merges_eq, EntityKind.merges_comm]
  · intro hkind
    rcases hbecomes.kind with hsame | ⟨-, hclass'⟩
    · exact hsame.trans (hclass hkind)
    · exact hclass'

/-- The modules that a path led through are there, and the path leads through them again. -/
theorem defineOwners_again (h : GrownFrom c₀ c) (hid : id < c.size) (h' : c'.Regular)
    {owners : List Text} (hgrows : (c.defineOwners id owners).1.Grows c') :
    c'.defineOwners id owners = (c', (c.defineOwners id owners).2) := by
  induction owners generalizing c c₀ id with
  | nil => rfl
  | cons owner owners ih =>
    have hfirst : GrownFrom c (c.define id owner .moduleDef).1 :=
      h.self.define hid EntityKind.noConfusion owner
    obtain ⟨e, he, -⟩ := (outcome_define hid owner .moduleDef).exists_declared h.toRooted
    have hlater := (hfirst.self.defineOwners (lt_size_of_entity he) owners).1
    have hagain := define_again h.toRooted hid h' (hlater.grows.trans hgrows)
    calc c'.defineOwners id (owner :: owners)
        = (c'.define id owner .moduleDef).1.defineOwners (c'.define id owner .moduleDef).2 owners :=
          rfl
      _ = c'.defineOwners (c.define id owner .moduleDef).2 owners := by rw [hagain]
      _ = (c', (c.defineOwners id (owner :: owners)).2) := ih hfirst (lt_size_of_entity he) hgrows

/-- **A path that is declared a second time leads to what it made the first time**, and makes nothing
new. -/
theorem definePath_again (h : GrownFrom c₀ c) {path : Text} (hkind : kind ≠ .root)
    (hleads : Leads (· ≠ .root) (c.definePath path kind).1 c') :
    c'.definePath path kind = (c', (c.definePath path kind).2) := by
  have hroot := lt_size_of_isNamespaceAt h.toRooted.isNamespaceAt_root
  obtain ⟨howners, howner⟩ := h.self.defineOwners hroot (ownerAndName path kind).1
  have hdeclared := howners.self.define howner hkind (ownerAndName path kind).2
  have hlater := hdeclared.self.leads hleads
  have hagain := defineOwners_again h hroot hlater.toRegular (hdeclared.grows.trans hlater.grows)
  calc c'.definePath path kind
      = (c'.defineOwners rootId (ownerAndName path kind).1).1.define
          (c'.defineOwners rootId (ownerAndName path kind).1).2 (ownerAndName path kind).2 kind := rfl
    _ = c'.define (c.defineOwners rootId (ownerAndName path kind).1).2 (ownerAndName path kind).2
          kind := by rw [hagain]
    _ = (c', (c.definePath path kind).2) :=
        define_again howners.toRooted howner hlater.toRegular hlater.grows

/-! ## Whatever is declared later -/

/-- **Whatever is declared later, what is there stays.**

An entity keeps its id, its name, its parent and its path, and its kind changes at most once, when a
module becomes a class, which it stays.  A path that leads to an entity leads there from then on,
and so does a name that leads from an entity to a child.  Declaring by a path once more, whatever
was declared since, gives the id that it gave then and leaves the corpus as it is. -/
theorem stable_of_leads (h : Leads (· ≠ .root) .empty c) (h' : Leads (· ≠ .root) c c') :
    (∀ id e, c.entity? id = some e → ∃ e', c'.entity? id = some e' ∧ e'.name = e.name ∧
      e'.parent = e.parent ∧ c'.path id = c.path id ∧
      (e'.kind = e.kind ∨ (e.kind = .moduleDef ∧ e'.kind = .classDef ∧
        ∀ c'', Leads (· ≠ .root) c' c'' → ∃ e'', c''.entity? id = some e'' ∧ e''.kind = .classDef))) ∧
    (∀ path id, c.find? path = some id → c'.find? path = some id) ∧
    (∀ accepts ∈ [isPathStep, (· == .methodDef), isNameStep], ∀ parent name id,
      c.child? parent name accepts = some id → c'.child? parent name accepts = some id) ∧
    ∀ path kind, kind ≠ .root → Leads (· ≠ .root) (c.definePath path kind).1 c' →
      c'.definePath path kind = (c', (c.definePath path kind).2) := by
  have hbefore := grownFrom_empty.leads h
  have hafter := hbefore.self.leads h'
  have hrooted := hbefore.toRooted
  refine ⟨?_, ?_, ?_, ?_⟩
  · intro id e he
    obtain ⟨e', he', hbecomes⟩ := hafter.grows id e he
    refine ⟨e', he', hbecomes.name, hbecomes.parent,
      hafter.grows.path_eq hrooted hafter.toRooted he, ?_⟩
    rcases hbecomes.kind with hsame | ⟨hmodule, hclass⟩
    · exact Or.inl hsame
    · refine Or.inr ⟨hmodule, hclass, fun c'' hlater => ?_⟩
      obtain ⟨e'', he'', hbecomes'⟩ := (hafter.self.leads hlater).grows id e' he'
      rcases hbecomes'.kind with hsame | ⟨-, hclass'⟩
      · exact ⟨e'', he'', hsame.trans hclass⟩
      · exact ⟨e'', he'', hclass'⟩
  · exact fun path id => hafter.grows.find?_eq hrooted
  · intro accepts haccepts parent name id
    simp only [List.mem_cons, List.not_mem_nil, or_false] at haccepts
    rcases haccepts with rfl | rfl | rfl
    · exact hafter.grows.child?_eq hrooted EntityKind.steady_isPathStep
    · exact hafter.grows.child?_eq hrooted EntityKind.steady_isMethod
    · exact hafter.grows.child?_eq hrooted EntityKind.steady_isNameStep
  · exact fun path kind => definePath_again hbefore

/-- A class in a module that becomes a class later, when there is a method beside the class as
well. -/
theorem stable_of_leads_reopened :
    let c := (empty.definePath "A::B" .classDef).1
    let c₁ := (c.definePath "A" .classDef).1
    let c' := (c₁.define 1 "B" .methodDef).1
    Leads (· ≠ .root) .empty c ∧ Leads (· ≠ .root) c c' ∧
      (c.entity? 1).map (·.kind) = some .moduleDef ∧
      (c'.entity? 1).map (·.kind) = some .classDef ∧
      c'.find? "A::B" = some 2 ∧ c'.child? 1 "B" isNameStep = some 2 ∧
      c'.definePath "A::B" .classDef = (c', 2) := by
  intro c c₁ c'
  have hbefore : Leads (· ≠ .root) .empty c := Leads.refl.definePath _ (by decide)
  have hafter : Leads (· ≠ .root) c c' :=
    (Leads.refl.definePath _ (by decide)).define (by decide +kernel) _ (by decide)
  have hrun : Leads (· ≠ .root) .empty c' :=
    (hbefore.definePath _ (by decide)).define (by decide +kernel) _ (by decide)
  obtain ⟨-, hfind, hchild, -⟩ := stable_of_leads hbefore hafter
  obtain ⟨-, -, -, hagain⟩ := stable_of_leads Leads.refl hrun
  refine ⟨hbefore, hafter, by decide +kernel, by decide +kernel, ?_, ?_, ?_⟩
  · exact hfind "A::B" 2 (by decide +kernel)
  · exact hchild isNameStep (by simp) 1 "B" 2 (by decide +kernel)
  · exact (hagain "A::B" .classDef (by decide) hafter).trans (by decide +kernel)

end Corpus
end DocTypes
