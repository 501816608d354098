import DocTypes.Corpus.Declaration
import DocTypes.Proofs.Corpus.Outcome
import DocTypes.Proofs.Name.Components

/-! # Corpora of words

A corpus comes about by declaring one entity after another, each below a namespace that is there
already (`Corpus.Declared`); declaration lists make nothing else (`declared_ofDeclarations`).  What
can be said about all of these is `Corpus.WellFormed`: beyond being trees (`Corpus.Rooted`), every
parent in them is a namespace, and namespaces are called by words.

Declaring does no more than `Step` allows, and what a step keeps, all declared corpora have
(`WellFormed.step`, `Keeps.ofDeclarations`). -/

namespace DocTypes.Corpus

/-- The corpora that come about by declaring below namespaces, when namespaces are called by
words. -/
inductive Declared : Corpus → Prop where
  | empty : Declared .empty
  | define {c : Corpus} (h : Declared c) {parent : EntityId} {name : Text} {kind : EntityKind}
      (hparent : c.isNamespaceAt parent = true)
      (hname : kind.isNamespace = true → Name.isWord name = true) :
      Declared (c.define parent name kind).1

/-- What all declared corpora have in common. -/
structure WellFormed (c : Corpus) : Prop where
  root : ∃ e, c.entity? rootId = some e ∧ e.kind = .root ∧ e.parent = none
  /-- The parent of an entity stands before it and is a namespace. -/
  parent : ∀ id e, c.entity? id = some e → id ≠ rootId →
    ∃ p, e.parent = some p ∧ p < id ∧ c.isNamespaceAt p = true
  /-- Children know their parent. -/
  child : ∀ id, ∀ child ∈ c.childrenOf id, ∃ e, c.entity? child = some e ∧ e.parent = some id
  word : ∀ id e, c.entity? id = some e → id ≠ rootId → e.kind.isNamespace = true →
    Name.isWord e.name = true

variable {c : Corpus} {id p parent : EntityId} {name : Text} {kind : EntityKind} {e : Entity}

theorem WellFormed.rooted (h : c.WellFormed) : c.Rooted := by
  refine ⟨h.root, fun id e he hid => ?_, h.child⟩
  obtain ⟨p, hp, hlt, -⟩ := h.parent id e he hid
  exact ⟨p, hp, hlt⟩

/-! ## What declaring keeps -/

theorem WellFormed.step_define (h : c.WellFormed) (hparent : c.isNamespaceAt parent = true) :
    c.Step parent name kind (c.define parent name kind).1 :=
  Corpus.step_define h.rooted (lt_size_of_isNamespaceAt hparent)

theorem WellFormed.step {c' : Corpus} (h : c.WellFormed) (hstep : c.Step parent name kind c')
    (hparent : c.isNamespaceAt parent = true)
    (hname : kind.isNamespace = true → Name.isWord name = true) : c'.WellFormed := by
  have hrooted := h.rooted.step hstep (lt_size_of_isNamespaceAt hparent)
  refine ⟨hrooted.root, ?_, hrooted.child, ?_⟩
  · intro id e' he' hid
    rcases hstep.old he' with ⟨e, he, hcontinues⟩ | ⟨rfl, -, -, hp⟩
    · obtain ⟨p, hp, hlt, hnamespace⟩ := h.parent id e he hid
      exact ⟨p, hcontinues.parent.trans hp, hlt, hstep.isNamespaceAt hnamespace⟩
    · exact ⟨parent, hp, lt_size_of_isNamespaceAt hparent, hstep.isNamespaceAt hparent⟩
  · intro id e' he' hid hkind
    rcases hstep.old he' with ⟨e, he, hcontinues⟩ | ⟨-, hsame, hsameKind, -⟩
    · rw [hcontinues.name]
      exact h.word id e he hid (hcontinues.isNamespace ▸ hkind)
    · rw [hsame]
      exact hname (hsameKind ▸ hkind)

theorem wellFormed_empty : WellFormed .empty := by
  refine ⟨rooted_empty.root, ?_, rooted_empty.child, ?_⟩
  · exact fun id e he hid => absurd (eq_root_of_empty he).1 hid
  · exact fun id e he hid => absurd (eq_root_of_empty he).1 hid

/-- **A declared corpus is well formed.** -/
theorem Declared.wellFormed (h : Declared c) : c.WellFormed := by
  induction h with
  | empty => exact wellFormed_empty
  | define _ hparent hname ih => exact ih.step (ih.step_define hparent) hparent hname

/-- What is of another kind than the root is not the root. -/
theorem WellFormed.ne_root (h : c.WellFormed) (he : c.entity? id = some e)
    (hkind : e.kind ≠ .root) : id ≠ rootId := by
  rintro rfl
  obtain ⟨root, hroot, hrootKind, -⟩ := h.root
  obtain rfl : e = root := Option.some.inj (he.symm.trans hroot)
  exact hkind hrootKind

/-! ## Declaration lists -/

theorem wellFormed_define (h : c.WellFormed) (hparent : c.isNamespaceAt parent = true)
    (hname : kind.isNamespace = true → Name.isWord name = true) :
    (c.define parent name kind).1.WellFormed := h.step (h.step_define hparent) hparent hname

/-- What is declared as a namespace is one, whether it was there or not. -/
theorem isNamespaceAt_define (h : c.WellFormed) (hparent : c.isNamespaceAt parent = true)
    (hkind : kind.isNamespace = true) :
    (c.define parent name kind).1.isNamespaceAt (c.define parent name kind).2 = true := by
  cases hfound : c.child? parent name kind.merges with
  | some id =>
    have hplace : (c.define parent name kind).2 = id := by simp [define, hfound]
    obtain ⟨-, e, he, -, hmerges⟩ := child?_eq_some hfound
    have hid : c.isNamespaceAt id = true := by
      rw [isNamespaceAt_of_entity he]
      simp only [EntityKind.merges, Bool.or_eq_true, Bool.and_eq_true, beq_iff_eq] at hmerges
      rcases hmerges with hsame | ⟨hnamespace, -⟩
      · rw [hsame, hkind]
      · exact hnamespace
    rw [hplace]
    exact (h.step_define hparent).isNamespaceAt hid
  | none =>
    have hnew : c.define parent name kind = (c.append parent name kind, c.size) := by
      simp [define, hfound]
    rw [hnew, isNamespaceAt, entity?_append (lt_size_of_isNamespaceAt hparent), if_pos rfl]
    exact hkind

/-- Whether declaring below a namespace keeps a property of corpora, when the kind is allowed and
namespaces are called by words. -/
def Keeps (allowed : EntityKind → Prop) (P : Corpus → Prop) : Prop :=
  ∀ {c : Corpus} {parent : EntityId} {name : Text} {kind : EntityKind}, c.WellFormed → P c →
    c.isNamespaceAt parent = true → (kind.isNamespace = true → Name.isWord name = true) →
      allowed kind → P (c.define parent name kind).1

section Keeps

variable {allowed : EntityKind → Prop} {P : Corpus → Prop}

theorem Keeps.defineOwners (hkeeps : Keeps allowed P) (hmodule : allowed .moduleDef)
    {owners : List Text} (hwords : ∀ owner ∈ owners, Name.isWord owner = true)
    (h : c.WellFormed) (hP : P c) (hid : c.isNamespaceAt id = true) :
    let declared := c.defineOwners id owners
    declared.1.WellFormed ∧ P declared.1 ∧ declared.1.isNamespaceAt declared.2 = true := by
  induction owners generalizing c id with
  | nil => exact ⟨h, hP, hid⟩
  | cons owner owners ih =>
    obtain ⟨howner, howners⟩ := List.forall_mem_cons.mp hwords
    have hname : EntityKind.moduleDef.isNamespace = true → Name.isWord owner = true :=
      fun _ => howner
    exact ih howners (wellFormed_define h hid hname) (hkeeps h hP hid hname hmodule)
      (isNamespaceAt_define h hid rfl)

end Keeps

end DocTypes.Corpus

namespace DocTypes

/-- Whether the components of the path that is declared are words.  What is no namespace may be
called by anything. -/
def Declaration.Named (d : Declaration) : Prop :=
  (∀ owner ∈ (Corpus.ownerAndName d.path d.kind).1, Name.isWord owner = true) ∧
    (d.kind.isNamespace = true → Name.isWord (Corpus.ownerAndName d.path d.kind).2 = true)

instance (d : Declaration) : Decidable d.Named := inferInstanceAs (Decidable (_ ∧ _))

namespace Corpus

variable {allowed : EntityKind → Prop} {P : Corpus → Prop} {c : Corpus} {ds : List Declaration}

theorem WellFormed.isNamespaceAt_root (h : c.WellFormed) : c.isNamespaceAt rootId = true :=
  h.rooted.isNamespaceAt_root

theorem Keeps.declare (hkeeps : Keeps allowed P) (hmodule : allowed .moduleDef) {d : Declaration}
    (hd : d.Named) (hkind : allowed d.kind) (h : c.WellFormed) (hP : P c) :
    (c.declare d).WellFormed ∧ P (c.declare d) := by
  obtain ⟨howners, hname⟩ := hd
  obtain ⟨hwell, hkept, hnamespace⟩ :=
    hkeeps.defineOwners hmodule howners h hP h.isNamespaceAt_root
  exact ⟨wellFormed_define hwell hnamespace hname, hkeeps hwell hkept hnamespace hname hkind⟩

/-- What declaring keeps, it keeps through a whole list, if the paths in it are made of words. -/
theorem Keeps.foldl (hkeeps : Keeps allowed P) (hmodule : allowed .moduleDef)
    (hds : ∀ d ∈ ds, d.Named ∧ allowed d.kind) (h : c.WellFormed) (hP : P c) :
    (ds.foldl Corpus.declare c).WellFormed ∧ P (ds.foldl Corpus.declare c) := by
  induction ds generalizing c with
  | nil => exact ⟨h, hP⟩
  | cons d ds ih =>
    obtain ⟨⟨hd, hkind⟩, hrest⟩ := List.forall_mem_cons.mp hds
    obtain ⟨hwell, hkept⟩ := hkeeps.declare hmodule hd hkind h hP
    exact ih hrest hwell hkept

/-- **What the empty corpus has and declaring keeps, the corpus of a declaration list has**, if the
paths in the list are made of words. -/
theorem Keeps.ofDeclarations (hkeeps : Keeps allowed P) (hmodule : allowed .moduleDef)
    (hempty : P .empty) (hds : ∀ d ∈ ds, d.Named ∧ allowed d.kind) : P (.ofDeclarations ds) :=
  (hkeeps.foldl hmodule hds wellFormed_empty hempty).2

theorem declared_ofDeclarations (hds : ∀ d ∈ ds, d.Named) : Declared (.ofDeclarations ds) := by
  have hkeeps : Keeps (fun _ => True) Declared :=
    fun _ hdeclared hparent hname _ => .define hdeclared hparent hname
  exact hkeeps.ofDeclarations trivial .empty fun d hd => ⟨hds d hd, trivial⟩

/-- There is one root, if none is declared. -/
theorem eq_root_of_kind (hds : ∀ d ∈ ds, d.Named ∧ d.kind ≠ .root) {id : EntityId} {e : Entity}
    (he : (ofDeclarations ds).entity? id = some e) (hkind : e.kind = .root) : id = rootId := by
  have hkeeps : Keeps (· ≠ .root) OneRoot :=
    fun h hone hparent _ hother => hone.step (h.step_define hparent) hother
  exact hkeeps.ofDeclarations EntityKind.noConfusion oneRoot_empty hds id e he hkind

end Corpus
end DocTypes
