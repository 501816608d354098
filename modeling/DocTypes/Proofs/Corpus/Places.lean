import DocTypes.Proofs.Corpus.Path
import DocTypes.Resolver.Lexical

/-! # Places of entities

Whatever is declared below whatever, and in whatever order, the places of a corpus hang together.
Parents and children know each other, no two children of one entity have the same name and may be
merged (`Regular`), and children are listed in the order of their places (`InOrder`).  One
declaration keeps all this (`Regular.outcome`, `InOrder.outcome`), so a whole sequence of them does
(`Leads.keeps`).  As the parent of an entity stands before it, every way up ends at the root
(`places_of_leads`).

Since no more than one child of a name merges with a kind, declaring again what is there finds it
and changes nothing (`Regular.define_eq_self`). -/

namespace DocTypes

/-- Where the last member of a list is not dropped, it stays the last. -/
theorem getLast?_dropWhile {α : Type} {drops : α → Bool} {l : List α} {last : α}
    (h : l.getLast? = some last) (hlast : drops last = false) :
    (l.dropWhile drops).getLast? = some last := by
  induction l with
  | nil => cases h
  | cons x l ih =>
    by_cases hx : drops x = true
    · rw [List.dropWhile_cons_of_pos hx]
      cases l with
      | nil =>
        obtain rfl : x = last := Option.some.inj h
        rw [hx] at hlast
        cases hlast
      | cons y l => exact ih (by rwa [List.getLast?_cons_cons] at h)
    · rw [List.dropWhile_cons_of_neg hx]
      exact h

namespace Corpus

variable {c c' : Corpus} {id p parent : EntityId} {name : Text} {kind : EntityKind} {e : Entity}

/-! ## Parents and children -/

/-- What can be said about the children in a corpus, in whatever way it was declared. -/
structure Regular (c : Corpus) : Prop extends Rooted c where
  /-- Parents know their children. -/
  listed : ∀ id e p, c.entity? id = some e → e.parent = some p → id ∈ c.childrenOf p
  /-- Children of the same name are of kinds that do not merge. -/
  apart : ∀ id id' e e', c.entity? id = some e → c.entity? id' = some e' → e.parent = e'.parent →
    e.name = e'.name → e.kind.merges e'.kind = true → id = id'

/-- Whether children are listed in the order of their places. -/
def InOrder (c : Corpus) : Prop := ∀ p, (c.childrenOf p).Pairwise (· < ·)

theorem Regular.mem_childrenOf_iff (h : c.Regular) :
    id ∈ c.childrenOf p ↔ ∃ e, c.entity? id = some e ∧ e.parent = some p :=
  ⟨h.child p id, fun ⟨e, he, hp⟩ => h.listed id e p he hp⟩

/-- No child of the name is of a kind that would have been merged. -/
theorem Regular.not_merges_of_child?_eq_none (h : c.Regular)
    (hnone : c.child? parent name kind.merges = none) (he : c.entity? id = some e)
    (hp : e.parent = some parent) (hname : e.name = name) : kind.merges e.kind = false := by
  have hcalled := List.find?_eq_none.mp hnone id (h.listed id e parent he hp)
  rw [isCalled, he] at hcalled
  simpa [hname] using hcalled

/-- **There is one child of a name that merges with a kind**, and it is found. -/
theorem Regular.child?_merges (h : c.Regular) (he : c.entity? id = some e)
    (hp : e.parent = some parent) (hname : e.name = name) (hmerges : kind.merges e.kind = true) :
    c.child? parent name kind.merges = some id := by
  cases hfound : c.child? parent name kind.merges with
  | none =>
    rw [h.not_merges_of_child?_eq_none hfound he hp hname] at hmerges
    cases hmerges
  | some other =>
    obtain ⟨e', he', hp', hname', hmerges'⟩ := h.exists_of_child? hfound
    rw [EntityKind.merges_comm] at hmerges'
    rw [h.apart other id e' e he' he (hp'.trans hp.symm) (hname'.trans hname.symm)
      (EntityKind.merges_trans hmerges' hmerges)]

/-- **Declaring again what is there, as what it is, changes nothing.** -/
theorem Regular.define_eq_self (h : c.Regular) (he : c.entity? id = some e)
    (hp : e.parent = some parent) (hname : e.name = name) (hmerges : kind.merges e.kind = true)
    (hclass : kind = .classDef → e.kind = .classDef) : c.define parent name kind = (c, id) := by
  have hfound := h.child?_merges he hp hname hmerges
  have hsame : (if kind = .classDef then c.update id fun e => { e with kind := .classDef } else c) =
      c := by
    split
    · next hkind =>
      refine eq_of_entity? fun place => ?_
      rw [entity?_update]
      split
      · next hplace => rw [← hplace, he, Option.map_some, ← hclass hkind]
      · rfl
    · rfl
  simp only [define, hfound, hsame]

/-! ## One declaration -/

theorem Regular.outcome (h : c.Regular) (hparent : parent < c.size)
    (houtcome : c.Outcome parent name kind c' id) : c'.Regular := by
  have hstep := houtcome.step h.toRooted hparent
  refine ⟨h.step hstep hparent, ?_, ?_⟩
  · intro place e' p he' hp
    rcases houtcome.old_or_added he' with ⟨e, he⟩ | ⟨rfl, -, -, rfl⟩
    · have hcontinues := hstep.continues he he'
      have hmem := h.listed place e p he (hcontinues.parent ▸ hp)
      rcases houtcome.childrenOf_eq hparent p with hsame | ⟨-, -, hmore⟩
      · rwa [hsame]
      · rw [hmore]
        exact List.mem_append_left _ hmem
    · obtain rfl : parent = p := Option.some.inj hp
      exact houtcome.mem_childrenOf hparent
  · intro place place' e e' he he' hp hname hmerges
    rcases houtcome.old_or_added he with ⟨old, hentity⟩ | ⟨rfl, -, hnone, rfl⟩
    · have hcontinues := hstep.continues hentity he
      rcases houtcome.old_or_added he' with ⟨old', hentity'⟩ | ⟨rfl, -, hnone, rfl⟩
      · have hcontinues' := hstep.continues hentity' he'
        refine h.apart place place' old old' hentity hentity' ?_ ?_ ?_
        · rw [← hcontinues.parent, ← hcontinues'.parent, hp]
        · rw [← hcontinues.name, ← hcontinues'.name, hname]
        · rw [← hcontinues.merges_eq, EntityKind.merges_comm, ← hcontinues'.merges_eq,
            EntityKind.merges_comm]
          exact hmerges
      · have hother := h.not_merges_of_child?_eq_none hnone hentity (hcontinues.parent ▸ hp)
          (hcontinues.name ▸ hname)
        rw [EntityKind.merges_comm, ← hcontinues.merges_eq, hmerges] at hother
        cases hother
    · rcases houtcome.old_or_added he' with ⟨old', hentity'⟩ | ⟨rfl, -, -, -⟩
      · have hcontinues' := hstep.continues hentity' he'
        have hother := h.not_merges_of_child?_eq_none hnone hentity'
          (hcontinues'.parent ▸ hp.symm) (hcontinues'.name ▸ hname.symm)
        rw [EntityKind.merges_comm, ← hcontinues'.merges_eq, EntityKind.merges_comm, hmerges]
          at hother
        cases hother
      · rfl

/-- What is added stands behind all children that there are. -/
theorem InOrder.outcome (hinOrder : c.InOrder) (h : c.Rooted) (hparent : parent < c.size)
    (houtcome : c.Outcome parent name kind c' id) : c'.InOrder := by
  intro p
  rcases houtcome.childrenOf_eq hparent p with hsame | ⟨-, hid, hmore⟩
  · rw [hsame]
    exact hinOrder p
  · rw [hmore, List.pairwise_append]
    refine ⟨hinOrder p, List.pairwise_singleton _ id, fun child hchild new hnew => ?_⟩
    obtain ⟨e, he, -⟩ := h.child p child hchild
    rw [List.mem_singleton.mp hnew, hid]
    exact lt_size_of_entity he

theorem regular_empty : Regular .empty := by
  refine ⟨rooted_empty, ?_, ?_⟩
  · intro id e p he hp
    rw [(eq_root_of_empty he).2] at hp
    cases hp
  · intro id id' e e' he he' _ _ _
    rw [(eq_root_of_empty he).1, (eq_root_of_empty he').1]

theorem inOrder_empty : InOrder .empty := by
  intro p
  rw [childrenOf_empty]
  exact List.Pairwise.nil

/-! ## Many declarations -/

/-- Whether declarations of allowed kinds make the one corpus of the other, one after another.  Each
is made below any entity that is there, whatever that is, or by any path. -/
inductive Leads (allowed : EntityKind → Prop) (c : Corpus) : Corpus → Prop where
  | refl : Leads allowed c c
  | define {c' : Corpus} {parent : EntityId} {kind : EntityKind} (h : Leads allowed c c')
      (hparent : parent < c'.size) (name : Text) (hkind : allowed kind) :
      Leads allowed c (c'.define parent name kind).1
  | definePath {c' : Corpus} {kind : EntityKind} (h : Leads allowed c c') (path : Text)
      (hkind : allowed kind) : Leads allowed c (c'.definePath path kind).1

section Keeps

variable {allowed : EntityKind → Prop} {P : Corpus → Prop}
variable (hrooted : ∀ {c}, P c → c.Rooted)
variable (hdefine : ∀ {c parent kind}, P c → parent < c.size → allowed kind → ∀ name,
  P (c.define parent name kind).1)

include hrooted hdefine

/-- What one declaration keeps, it keeps through all the modules that a path leads through, and the
last of them is there. -/
theorem keeps_defineOwners (hmodule : allowed .moduleDef) (owners : List Text) (hP : P c)
    (hid : id < c.size) :
    P (c.defineOwners id owners).1 ∧
      (c.defineOwners id owners).2 < (c.defineOwners id owners).1.size := by
  induction owners generalizing c id with
  | nil => exact ⟨hP, hid⟩
  | cons owner owners ih =>
    obtain ⟨e, he, -⟩ := (outcome_define hid owner .moduleDef).exists_declared (hrooted hP)
    exact ih (hdefine hP hid hmodule owner) (lt_size_of_entity he)

/-- **What one declaration keeps, all of them keep.** -/
theorem Leads.keeps (hmodule : allowed .moduleDef) (h : Leads allowed c c') (hP : P c) : P c' := by
  induction h with
  | refl => exact hP
  | define _ hparent name hkind ih => exact hdefine ih hparent hkind name
  | definePath _ path hkind ih =>
    obtain ⟨root, hroot, -⟩ := (hrooted ih).root
    obtain ⟨howners, howner⟩ := keeps_defineOwners hrooted hdefine hmodule
      (ownerAndName path _).1 ih (lt_size_of_entity hroot)
    exact hdefine howners howner hkind _

end Keeps

theorem Leads.regular {allowed : EntityKind → Prop} (hmodule : allowed .moduleDef)
    (h : Leads allowed c c') (hregular : c.Regular) (hinOrder : c.InOrder) :
    c'.Regular ∧ c'.InOrder := by
  refine h.keeps (P := fun c => c.Regular ∧ c.InOrder) (fun h => h.1.toRooted) ?_ hmodule
    ⟨hregular, hinOrder⟩
  intro c parent kind ⟨hregular, hinOrder⟩ hparent _ name
  have houtcome := outcome_define hparent name kind
  exact ⟨hregular.outcome hparent houtcome, hinOrder.outcome hregular.toRooted hparent houtcome⟩

theorem Leads.foldl_declare {allowed : EntityKind → Prop} {ds : List Declaration}
    (h : Leads allowed c c') (hds : ∀ d ∈ ds, allowed d.kind) :
    Leads allowed c (ds.foldl declare c') := by
  induction ds generalizing c' with
  | nil => exact h
  | cons d ds ih =>
    obtain ⟨hd, hrest⟩ := List.forall_mem_cons.mp hds
    exact ih (h.definePath d.path hd) hrest

/-- The corpora of declaration lists are like that, whatever the paths in them are. -/
theorem regular_ofDeclarations (ds : List Declaration) :
    (ofDeclarations ds).Regular ∧ (ofDeclarations ds).InOrder := by
  have hleads : Leads (fun _ => True) .empty (ofDeclarations ds) :=
    Leads.refl.foldl_declare fun _ _ => trivial
  exact hleads.regular trivial regular_empty inOrder_empty

/-! ## The way up -/

/-- The way up from the nearest namespace ends at the root. -/
theorem getLast?_nesting (h : c.Rooted) (he : c.entity? id = some e) :
    (c.nesting id).getLast? = some rootId :=
  getLast?_dropWhile (getLast?_lineage h he) (by rw [h.isNamespaceAt_root]; rfl)

/-- The nearest namespace is one. -/
theorem isNamespaceAt_namespaceOf (h : c.Rooted) (he : c.entity? id = some e) :
    c.isNamespaceAt (c.namespaceOf id) = true := by
  have hlast := getLast?_nesting h he
  have hhead := List.head?_dropWhile_not (fun outer => !c.isNamespaceAt outer) (c.lineage id)
  rw [namespaceOf]
  cases hnesting : c.nesting id with
  | nil =>
    rw [hnesting] at hlast
    cases hlast
  | cons inner outer =>
    rw [nesting] at hnesting
    rw [hnesting] at hhead
    simpa using hhead

/-- A walk up to the root stops at a root. -/
theorem exists_getLast?_upToRoot {ids : List EntityId} (hlast : ids.getLast? = some id)
    (hroot : c.isRootAt id = true) :
    ∃ outer, (c.upToRoot ids).getLast? = some outer ∧ c.isRootAt outer = true := by
  induction ids with
  | nil => cases hlast
  | cons first ids ih =>
    rw [upToRoot]
    split
    · next hfirst => exact ⟨first, rfl, hfirst⟩
    · next hfirst =>
      cases ids with
      | nil =>
        obtain rfl : first = id := Option.some.inj hlast
        exact absurd hroot hfirst
      | cons second ids =>
        rw [List.getLast?_cons_cons] at hlast
        obtain ⟨outer, houter, hkind⟩ := ih hlast
        exact ⟨outer, by rw [List.getLast?_cons, houter]; rfl, hkind⟩

/-- **The places of a corpus hang together**, whatever is declared below whatever.

The root is the only entity without a parent, and any other has its parent before it.  So the way up
from an entity leads to smaller and smaller places and ends at the root; on it there is a nearest
namespace, and a walk up from there stops at a root.  An entity is listed once by its parent and
never by another, and children are listed in the order of their places.  No two children of one
entity have the same name when they are of the same kind or both are namespaces.  What is declared
next will be at the place that is given for it, with its parent and its name. -/
theorem places_of_leads (h : Leads (fun _ => True) .empty c) :
    rootId < c.size ∧
      (∀ id, id < c.size → ∃ e, c.entity? id = some e ∧ (e.parent = none ↔ id = rootId) ∧
        ∀ p, e.parent = some p → p < id) ∧
      (∀ id, id < c.size →
        (c.lineage id).Pairwise (· > ·) ∧ (c.lineage id).getLast? = some rootId ∧
          c.isNamespaceAt (c.namespaceOf id) = true ∧
          ∃ outer, (c.upToRoot (c.nesting id)).getLast? = some outer ∧ c.isRootAt outer = true) ∧
      (∀ id p, (c.childrenOf p).count id =
        if (c.entity? id).bind (·.parent) = some p then 1 else 0) ∧
      (∀ p, (c.childrenOf p).Pairwise (· < ·)) ∧
      (∀ p, ∀ id ∈ c.childrenOf p, ∀ id' ∈ c.childrenOf p, ∀ e e', c.entity? id = some e →
        c.entity? id' = some e' → e.name = e'.name →
          (e.kind = e'.kind ∨ (e.kind.isNamespace = true ∧ e'.kind.isNamespace = true)) →
            id = id') ∧
      ∀ parent name kind, parent < c.size →
        ∃ e, (c.define parent name kind).1.entity? (c.define parent name kind).2 = some e ∧
          e.parent = some parent ∧ e.name = name := by
  obtain ⟨hregular, hinOrder⟩ := h.regular trivial regular_empty inOrder_empty
  have hrooted := hregular.toRooted
  refine ⟨lt_size_of_isNamespaceAt hrooted.isNamespaceAt_root, ?_, ?_, ?_, hinOrder, ?_, ?_⟩
  · intro id hid
    obtain ⟨e, he⟩ := exists_entity_of_lt hid
    exact ⟨e, he, hrooted.parent_eq_none_iff he, fun p hp => hrooted.parent_lt he hp⟩
  · intro id hid
    obtain ⟨e, he⟩ := exists_entity_of_lt hid
    exact ⟨pairwise_lineage hrooted he, getLast?_lineage hrooted he,
      isNamespaceAt_namespaceOf hrooted he,
      exists_getLast?_upToRoot (getLast?_nesting hrooted he) hrooted.isRootAt_root⟩
  · intro id p
    have hnodup : (c.childrenOf p).Nodup := (hinOrder p).imp Nat.ne_of_lt
    rw [hnodup.count]
    simp only [hregular.mem_childrenOf_iff, Option.bind_eq_some_iff]
  · intro p id hid id' hid' e e' he he' hname hkind
    have hp := hrooted.parent_of_mem hid he
    have hp' := hrooted.parent_of_mem hid' he'
    refine hregular.apart id id' e e' he he' (hp.trans hp'.symm) hname ?_
    rw [EntityKind.merges_iff]
    exact hkind.imp Eq.symm And.symm
  · intro parent name kind hparent
    obtain ⟨e, he, hp, hname, -⟩ := (outcome_define hparent name kind).exists_declared hrooted
    exact ⟨e, he, hp, hname⟩

/-- A module that becomes a class, with a method and a class of the same name in it, and a constant
below the method. -/
theorem places_of_leads_below_method :
    let c₁ := (empty.definePath "A::B" .classDef).1
    let c₂ := (c₁.define 1 "B" .methodDef).1
    let c₃ := (c₂.define 3 "LIMIT" .constantDef).1
    let c := (c₃.definePath "::A" .classDef).1
    Leads (fun _ => True) .empty c ∧ c.isRootAt rootId = true ∧
      c.childrenOf 1 = [2, 3] ∧ (c.childrenOf 1).count 3 = 1 ∧
        c.lineage 4 = [4, 3, 1, 0] ∧ (c.lineage 4).getLast? = some rootId := by
  intro c₁ c₂ c₃ c
  have hleads : Leads (fun _ => True) .empty c :=
    (((Leads.refl.definePath _ trivial).define (by decide +kernel) _ trivial).define
      (by decide +kernel) _ trivial).definePath _ trivial
  have hsize : 4 < c.size := by decide +kernel
  have hparent : (c.entity? 3).bind (·.parent) = some 1 := by decide +kernel
  obtain ⟨-, -, hways, hlisted, -⟩ := places_of_leads hleads
  refine ⟨hleads, by decide +kernel, by decide +kernel, ?_, by decide +kernel, (hways 4 hsize).2.1⟩
  rw [hlisted 3 1, if_pos hparent]

end Corpus
end DocTypes
