import DocTypes.Corpus

/-! # What declaring does

Declaring an entity below another has one of two outcomes (`Outcome`): a child of the name that is
there is declared again, or one is added at the end of the corpus and of its parent's children.  All
else that is said about declaring is read off these two.

Either outcome leaves what is there with its name and its parent, at most makes a class of a
namespace that was declared, and adds at most one entity, the one that is declared (`Outcome.step`).
So corpora stay trees, whatever is declared below whatever (`Rooted.define`): there is a root, every
other entity has its parent before it, and what an entity lists as a child has it for its
parent. -/

namespace DocTypes

/-- A child that is declared again. -/
def Entity.reopened (e : Entity) (kind : EntityKind) : Entity :=
  if kind = .classDef then { e with kind := .classDef } else e

@[simp] theorem Entity.name_reopened (e : Entity) (kind : EntityKind) :
    (e.reopened kind).name = e.name := by
  unfold reopened
  split <;> rfl

@[simp] theorem Entity.parent_reopened (e : Entity) (kind : EntityKind) :
    (e.reopened kind).parent = e.parent := by
  unfold reopened
  split <;> rfl

@[simp] theorem Entity.children_reopened (e : Entity) (kind : EntityKind) :
    (e.reopened kind).children = e.children := by
  unfold reopened
  split <;> rfl

namespace EntityKind

variable {kind old : EntityKind}

theorem merges_comm (kind old : EntityKind) : kind.merges old = old.merges kind := by
  cases kind <;> cases old <;> rfl

theorem merges_iff :
    kind.merges old = true ↔ old = kind ∨ (old.isNamespace = true ∧ kind.isNamespace = true) := by
  simp [merges]

theorem merges_self (kind : EntityKind) : kind.merges kind = true := merges_iff.mpr (Or.inl rfl)

theorem merges_trans {new : EntityKind} (h : new.merges kind = true) (h' : kind.merges old = true) :
    new.merges old = true := by
  rcases merges_iff.mp h with rfl | ⟨hkind, hnew⟩
  · exact h'
  · rcases merges_iff.mp h' with rfl | ⟨hold, -⟩
    · exact h
    · exact merges_iff.mpr (Or.inr ⟨hold, hnew⟩)

/-- What is declared as a namespace merges with namespaces. -/
theorem merges_of_isNamespace (h : kind.isNamespace = true) (old : EntityKind) :
    kind.merges old = old.isNamespace := by
  rw [Bool.eq_iff_iff, merges_iff, and_iff_left h]
  exact ⟨fun hmerges => hmerges.elim (fun hsame => hsame ▸ h) id, Or.inr⟩

theorem ne_method_of_isNamespace (h : kind.isNamespace = true) : kind ≠ .methodDef := by
  rintro rfl
  cases h

/-- What is declared as a class reopens namespaces only. -/
theorem isNamespace_of_merges_classDef (h : merges .classDef old = true) :
    old.isNamespace = true := (merges_of_isNamespace rfl old).symm.trans h

end EntityKind

namespace Corpus

variable {c c' : Corpus} {id p parent place : EntityId} {name : Text} {kind : EntityKind}
variable {e e' : Entity}

/-! ## Places -/

/-- Corpora with the same entities at all places are the same. -/
theorem eq_of_entity? (h : ∀ place, c.entity? place = c'.entity? place) : c = c' := by
  obtain ⟨entities⟩ := c
  obtain ⟨entities'⟩ := c'
  exact congrArg Corpus.mk (Array.ext_getElem? h)

theorem isNamespaceAt_of_entity (he : c.entity? id = some e) :
    c.isNamespaceAt id = e.kind.isNamespace := by
  rw [isNamespaceAt, he]

theorem isNamespaceAt_iff :
    c.isNamespaceAt id = true ↔ ∃ e, c.entity? id = some e ∧ e.kind.isNamespace = true := by
  constructor
  · intro h
    cases he : c.entity? id with
    | none => simp [isNamespaceAt, he] at h
    | some e => exact ⟨e, rfl, (isNamespaceAt_of_entity he).symm.trans h⟩
  · rintro ⟨e, he, hkind⟩
    rw [isNamespaceAt_of_entity he, hkind]

theorem mem_childrenOf {child : EntityId} :
    child ∈ c.childrenOf id ↔ ∃ e, c.entity? id = some e ∧ child ∈ e.children := by
  unfold childrenOf
  cases c.entity? id with
  | none => simp
  | some e => simp

theorem lt_size_of_entity (he : c.entity? id = some e) : id < c.size :=
  (Array.getElem?_eq_some_iff.mp he).1

theorem exists_entity_of_lt (h : id < c.size) : ∃ e, c.entity? id = some e :=
  ⟨_, Array.getElem?_eq_getElem h⟩

theorem entity?_eq_none (h : c.size ≤ id) : c.entity? id = none := Array.getElem?_eq_none h

theorem lt_size_of_isNamespaceAt (h : c.isNamespaceAt id = true) : id < c.size := by
  obtain ⟨e, he, -⟩ := isNamespaceAt_iff.mp h
  exact lt_size_of_entity he

/-- The places of a listing are those of all entities but the root. -/
theorem mem_ids : id ∈ c.ids ↔ id ≠ rootId ∧ id < c.size := by
  have hrange : ∀ size place : Nat,
      place ∈ (List.range size).drop 1 ↔ place ≠ 0 ∧ place < size := by
    intro size place
    rw [List.range_eq_range', List.drop_range', List.mem_range'_1]
    omega
  exact hrange c.size id

/-- What a lookup among children finds is a child with the name and a kind that was asked for. -/
theorem child?_eq_some {accepts : EntityKind → Bool} (h : c.child? parent name accepts = some id) :
    id ∈ c.childrenOf parent ∧
      ∃ e, c.entity? id = some e ∧ e.name = name ∧ accepts e.kind = true := by
  refine ⟨List.mem_of_find?_eq_some h, ?_⟩
  have hcalled := List.find?_some h
  unfold isCalled at hcalled
  cases he : c.entity? id with
  | none => simp [he] at hcalled
  | some e => exact ⟨e, rfl, by simpa [he] using hcalled⟩

theorem entity?_update (change : Entity → Entity) (place : EntityId) :
    (c.update id change).entity? place =
      if id = place then (c.entity? place).map change else c.entity? place :=
  Array.getElem?_modify

theorem entity?_append (hparent : parent < c.size) (name : Text) (kind : EntityKind)
    (place : EntityId) :
    (c.append parent name kind).entity? place =
      if place = c.size then some ⟨name, kind, some parent, []⟩
      else if parent = place then
        (c.entity? place).map fun e => { e with children := e.children ++ [c.size] }
      else c.entity? place := by
  have hpush : ∀ e : Entity, (⟨c.entities.push e⟩ : Corpus).entity? place =
      if place = c.size then some e else c.entity? place := fun e => Array.getElem?_push
  rw [append, entity?_update, hpush]
  by_cases hplace : place = c.size
  · have hother : parent ≠ place := fun h => Nat.ne_of_lt hparent (h.trans hplace)
    rw [if_neg hother, if_pos hplace, if_pos hplace]
  · rw [if_neg hplace, if_neg hplace]

/-! ## The two outcomes -/

/-- What comes of declaring an entity: the corpus `c'`, with the entity at `id`. -/
inductive Outcome (c : Corpus) (parent : EntityId) (name : Text) (kind : EntityKind) (c' : Corpus)
    (id : EntityId) : Prop where
  /-- A child of the name is there, and the two are merged. -/
  | reopened (e : Entity) (hchild : id ∈ c.childrenOf parent) (he : c.entity? id = some e)
      (hname : e.name = name) (hmerges : kind.merges e.kind = true)
      (hafter : ∀ place, c'.entity? place =
        if id = place then some (e.reopened kind) else c.entity? place)
  /-- None is there that could be merged, and the entity is added at the end. -/
  | added (hid : id = c.size) (hnone : c.child? parent name kind.merges = none)
      (hafter : ∀ place, c'.entity? place =
        if place = c.size then some ⟨name, kind, some parent, []⟩
        else if parent = place then
          (c.entity? place).map fun e => { e with children := e.children ++ [c.size] }
        else c.entity? place)

theorem outcome_define (hparent : parent < c.size) (name : Text) (kind : EntityKind) :
    c.Outcome parent name kind (c.define parent name kind).1 (c.define parent name kind).2 := by
  cases hfound : c.child? parent name kind.merges with
  | none =>
    have hdefine : c.define parent name kind = (c.append parent name kind, c.size) := by
      simp [define, hfound]
    rw [hdefine]
    exact .added rfl hfound (entity?_append hparent name kind)
  | some id =>
    obtain ⟨hchild, e, he, hname, hmerges⟩ := child?_eq_some hfound
    by_cases hclass : kind = .classDef
    · have hdefine : c.define parent name kind =
          (c.update id fun e => { e with kind := .classDef }, id) := by
        simp only [define, hfound, if_pos hclass]
      rw [hdefine]
      refine .reopened e hchild he hname hmerges fun place => ?_
      rw [entity?_update]
      split
      · next hplace =>
        rw [← hplace, he, Entity.reopened, if_pos hclass]
        rfl
      · rfl
    · have hdefine : c.define parent name kind = (c, id) := by simp [define, hfound, hclass]
      rw [hdefine]
      refine .reopened e hchild he hname hmerges fun place => ?_
      split
      · next hplace => rw [← hplace, he, Entity.reopened, if_neg hclass]
      · rfl

/-- The children of an entity stay as they are, except that the parent may have one more. -/
theorem Outcome.childrenOf_eq (hparent : parent < c.size)
    (houtcome : c.Outcome parent name kind c' id) (place : EntityId) :
    c'.childrenOf place = c.childrenOf place ∨
      (place = parent ∧ id = c.size ∧ c'.childrenOf place = c.childrenOf place ++ [id]) := by
  cases houtcome with
  | reopened e hchild he hname hmerges hafter =>
    left
    unfold childrenOf
    rw [hafter]
    by_cases hplace : id = place
    · rw [if_pos hplace, ← hplace, he]
      exact e.children_reopened kind
    · rw [if_neg hplace]
  | added hid hnone hafter =>
    unfold childrenOf
    rw [hafter]
    by_cases hnew : place = c.size
    · left
      rw [if_pos hnew, entity?_eq_none (Nat.le_of_eq hnew.symm)]
    · rw [if_neg hnew]
      by_cases hplace : parent = place
      · right
        subst hplace
        obtain ⟨pe, hpe⟩ := exists_entity_of_lt hparent
        rw [if_pos rfl, hpe, hid]
        exact ⟨rfl, rfl, rfl⟩
      · left
        rw [if_neg hplace]

/-- What is declared is listed by its parent. -/
theorem Outcome.mem_childrenOf (hparent : parent < c.size)
    (houtcome : c.Outcome parent name kind c' id) : id ∈ c'.childrenOf parent := by
  have hchildren := houtcome.childrenOf_eq hparent parent
  cases houtcome with
  | reopened e hchild he hname hmerges hafter =>
    rcases hchildren with hsame | ⟨-, hid, -⟩
    · rwa [hsame]
    · exact absurd hid (Nat.ne_of_lt (lt_size_of_entity he))
  | added hid hnone hafter =>
    obtain ⟨pe, hpe⟩ := exists_entity_of_lt hparent
    refine Corpus.mem_childrenOf.mpr ⟨{ pe with children := pe.children ++ [c.size] }, ?_, ?_⟩
    · rw [hafter, if_neg (Nat.ne_of_lt hparent), if_pos rfl, hpe]
      rfl
    · rw [hid]
      exact List.mem_append_right _ List.mem_cons_self

/-! ## Trees -/

/-- What can be said about all corpora, in whatever way they were declared. -/
structure Rooted (c : Corpus) : Prop where
  root : ∃ e, c.entity? rootId = some e ∧ e.kind = .root ∧ e.parent = none
  /-- The parent of an entity stands before it. -/
  parent : ∀ id e, c.entity? id = some e → id ≠ rootId → ∃ p, e.parent = some p ∧ p < id
  /-- Children know their parent. -/
  child : ∀ id, ∀ child ∈ c.childrenOf id, ∃ e, c.entity? child = some e ∧ e.parent = some id

theorem Rooted.parent_lt (h : c.Rooted) (he : c.entity? id = some e) (hp : e.parent = some p) :
    p < id := by
  by_cases hid : id = rootId
  · obtain ⟨root, hroot, -, hnone⟩ := h.root
    obtain rfl : e = root := Option.some.inj (he.symm.trans (hid ▸ hroot))
    exact absurd (hp.symm.trans hnone) (Option.some_ne_none p)
  · obtain ⟨p', hp', hlt⟩ := h.parent id e he hid
    obtain rfl : p = p' := Option.some.inj (hp.symm.trans hp')
    exact hlt

/-- The parent of an entity is there. -/
theorem Rooted.exists_parent_entity (h : c.Rooted) (he : c.entity? id = some e)
    (hp : e.parent = some p) : ∃ pe, c.entity? p = some pe :=
  exists_entity_of_lt (Nat.lt_trans (h.parent_lt he hp) (lt_size_of_entity he))

theorem Rooted.parent_eq_none_iff (h : c.Rooted) (he : c.entity? id = some e) :
    e.parent = none ↔ id = rootId := by
  constructor
  · intro hnone
    by_cases hid : id = rootId
    · exact hid
    · obtain ⟨p, hp, -⟩ := h.parent id e he hid
      rw [hnone] at hp
      cases hp
  · rintro rfl
    obtain ⟨root, hroot, -, hnone⟩ := h.root
    obtain rfl : e = root := Option.some.inj (he.symm.trans hroot)
    exact hnone

/-- What has a parent is not the root. -/
theorem Rooted.ne_root_of_parent (h : c.Rooted) (he : c.entity? id = some e)
    (hp : e.parent = some p) : id ≠ rootId := by
  intro hid
  have hnone := (h.parent_eq_none_iff he).mpr hid
  rw [hp] at hnone
  cases hnone

/-- What is listed as a child of an entity has it for its parent. -/
theorem Rooted.parent_of_mem (h : c.Rooted) (hchild : id ∈ c.childrenOf parent)
    (he : c.entity? id = some e) : e.parent = some parent := by
  obtain ⟨child, hentity, hp⟩ := h.child parent id hchild
  obtain rfl : e = child := Option.some.inj (he.symm.trans hentity)
  exact hp

theorem Rooted.isNamespaceAt_root (h : c.Rooted) : c.isNamespaceAt rootId = true := by
  obtain ⟨e, he, hkind, -⟩ := h.root
  rw [isNamespaceAt_of_entity he, hkind]
  rfl

theorem Rooted.isRootAt_root (h : c.Rooted) : c.isRootAt rootId = true := by
  obtain ⟨e, he, hkind, -⟩ := h.root
  simp [isRootAt, he, hkind]

theorem Rooted.exists_of_child? (h : c.Rooted) {accepts : EntityKind → Bool}
    (hfound : c.child? parent name accepts = some id) :
    ∃ e, c.entity? id = some e ∧ e.parent = some parent ∧ e.name = name ∧
      accepts e.kind = true := by
  obtain ⟨hmem, e, he, hname, haccepts⟩ := child?_eq_some hfound
  exact ⟨e, he, h.parent_of_mem hmem he, hname, haccepts⟩

/-- What is declared is at its place, with its parent and its name, and of a kind that merges with
what it was declared as. -/
theorem Outcome.exists_declared (h : c.Rooted) (houtcome : c.Outcome parent name kind c' id) :
    ∃ e, c'.entity? id = some e ∧ e.parent = some parent ∧ e.name = name ∧
      kind.merges e.kind = true ∧ (kind = .classDef → e.kind = .classDef) := by
  cases houtcome with
  | reopened e hchild he hname hmerges hafter =>
    have hp := h.parent_of_mem hchild he
    refine ⟨e.reopened kind, by rw [hafter, if_pos rfl], by simpa using hp, by simpa using hname, ?_⟩
    by_cases hclass : kind = .classDef
    · subst hclass
      exact ⟨rfl, fun _ => rfl⟩
    · rw [Entity.reopened, if_neg hclass]
      exact ⟨hmerges, fun hkind => absurd hkind hclass⟩
  | added hid hnone hafter =>
    refine ⟨⟨name, kind, some parent, []⟩, ?_, rfl, rfl, kind.merges_self, fun hkind => hkind⟩
    rw [hafter, if_pos hid]

/-! ## Steps -/

/-- What becomes of an entity when another one is declared: a namespace that was declared itself may
become a class. -/
structure Continues (e e' : Entity) : Prop where
  name : e'.name = e.name
  parent : e'.parent = e.parent
  kind : e'.kind = e.kind ∨
    (e.parent ≠ none ∧ e.kind.isNamespace = true ∧ e'.kind = .classDef)

/-- All that declaring an entity may do to a corpus. -/
structure Step (c : Corpus) (parent : EntityId) (name : Text) (kind : EntityKind) (c' : Corpus) :
    Prop where
  kept : ∀ id e, c.entity? id = some e → ∃ e', c'.entity? id = some e' ∧ Continues e e'
  /-- There is at most one entity more, and it is the one that is declared. -/
  new : ∀ id e', c'.entity? id = some e' → (∃ e, c.entity? id = some e) ∨
    (id = c.size ∧ e'.name = name ∧ e'.kind = kind ∧ e'.parent = some parent)
  children : ∀ id, ∀ child ∈ c'.childrenOf id, child ∈ c.childrenOf id ∨
    ∃ e', c'.entity? child = some e' ∧ e'.parent = some id

theorem Continues.refl (e : Entity) : Continues e e := ⟨rfl, rfl, Or.inl rfl⟩

theorem Continues.isNamespace (h : Continues e e') : e'.kind.isNamespace = e.kind.isNamespace := by
  rcases h.kind with hkind | ⟨-, hnamespace, hkind⟩
  · rw [hkind]
  · rw [hkind, hnamespace]
    rfl

theorem Continues.merges_eq (h : Continues e e') (kind : EntityKind) :
    e'.kind.merges kind = e.kind.merges kind := by
  rcases h.kind with hkind | ⟨-, hnamespace, hkind⟩
  · rw [hkind]
  · rw [hkind, EntityKind.merges_of_isNamespace rfl, EntityKind.merges_of_isNamespace hnamespace]

/-- A child that is declared again goes on. -/
theorem Rooted.continues_reopened (h : c.Rooted) (hchild : id ∈ c.childrenOf parent)
    (he : c.entity? id = some e) (hmerges : kind.merges e.kind = true) :
    Continues e (e.reopened kind) := by
  refine ⟨e.name_reopened kind, e.parent_reopened kind, ?_⟩
  by_cases hclass : kind = .classDef
  · right
    subst hclass
    have hparent : e.parent ≠ none := by
      rw [h.parent_of_mem hchild he]
      exact Option.some_ne_none parent
    exact ⟨hparent, EntityKind.isNamespace_of_merges_classDef hmerges, rfl⟩
  · left
    rw [Entity.reopened, if_neg hclass]

/-- What is there goes on. -/
theorem Outcome.exists_continues (h : c.Rooted) (houtcome : c.Outcome parent name kind c' id)
    (he : c.entity? place = some e) : ∃ e', c'.entity? place = some e' ∧ Continues e e' := by
  cases houtcome with
  | reopened old hchild hold hname hmerges hafter =>
    rw [hafter]
    by_cases hplace : id = place
    · subst hplace
      obtain rfl : old = e := Option.some.inj (hold.symm.trans he)
      exact ⟨_, if_pos rfl, h.continues_reopened hchild hold hmerges⟩
    · rw [if_neg hplace]
      exact ⟨e, he, .refl e⟩
  | added hid hnone hafter =>
    rw [hafter, if_neg (Nat.ne_of_lt (lt_size_of_entity he)), he]
    split
    · exact ⟨_, rfl, rfl, rfl, Or.inl rfl⟩
    · exact ⟨e, rfl, .refl e⟩

/-- What is there afterwards was there before, or it is what was added. -/
theorem Outcome.old_or_added (houtcome : c.Outcome parent name kind c' id)
    (he' : c'.entity? place = some e') :
    (∃ e, c.entity? place = some e) ∨
      (place = id ∧ id = c.size ∧ c.child? parent name kind.merges = none ∧
        e' = ⟨name, kind, some parent, []⟩) := by
  cases houtcome with
  | reopened old hchild hold hname hmerges hafter =>
    left
    rw [hafter] at he'
    split at he'
    · next hplace => exact ⟨old, hplace ▸ hold⟩
    · exact ⟨e', he'⟩
  | added hid hnone hafter =>
    rw [hafter] at he'
    split at he'
    · next hplace =>
      exact Or.inr ⟨hplace.trans hid.symm, hid, hnone, (Option.some.inj he').symm⟩
    · left
      cases he : c.entity? place with
      | some e => exact ⟨e, rfl⟩
      | none =>
        rw [he] at he'
        split at he' <;> cases he'

/-- **Declaring does no more than a step.** -/
theorem Outcome.step (h : c.Rooted) (hparent : parent < c.size)
    (houtcome : c.Outcome parent name kind c' id) : c.Step parent name kind c' := by
  refine ⟨fun place e he => houtcome.exists_continues h he, ?_, ?_⟩
  · intro place e' he'
    rcases houtcome.old_or_added he' with hold | ⟨rfl, hid, -, rfl⟩
    · exact Or.inl hold
    · exact Or.inr ⟨hid, rfl, rfl, rfl⟩
  · intro place child hchild
    rcases houtcome.childrenOf_eq hparent place with hsame | ⟨rfl, -, hmore⟩
    · exact Or.inl (hsame ▸ hchild)
    · rw [hmore] at hchild
      rcases List.mem_append.mp hchild with hold | hnew
      · exact Or.inl hold
      · obtain rfl := List.mem_singleton.mp hnew
        obtain ⟨e, he, hp, -⟩ := houtcome.exists_declared h
        exact Or.inr ⟨e, he, hp⟩

theorem step_define (h : c.Rooted) (hparent : parent < c.size) :
    c.Step parent name kind (c.define parent name kind).1 :=
  (outcome_define hparent name kind).step h hparent

theorem Step.isNamespaceAt (hstep : c.Step parent name kind c')
    (h : c.isNamespaceAt id = true) : c'.isNamespaceAt id = true := by
  obtain ⟨e, he, hkind⟩ := isNamespaceAt_iff.mp h
  obtain ⟨e', he', hcontinues⟩ := hstep.kept id e he
  exact isNamespaceAt_iff.mpr ⟨e', he', hcontinues.isNamespace.trans hkind⟩

theorem Step.continues (hstep : c.Step parent name kind c') (he : c.entity? id = some e)
    (he' : c'.entity? id = some e') : Continues e e' := by
  obtain ⟨e'', he'', hcontinues⟩ := hstep.kept id e he
  obtain rfl : e' = e'' := Option.some.inj (he'.symm.trans he'')
  exact hcontinues

/-- What was there before a step, as it was then. -/
theorem Step.old (hstep : c.Step parent name kind c') (he' : c'.entity? id = some e') :
    (∃ e, c.entity? id = some e ∧ Continues e e') ∨
      (id = c.size ∧ e'.name = name ∧ e'.kind = kind ∧ e'.parent = some parent) := by
  rcases hstep.new id e' he' with ⟨e, he⟩ | hnew
  · exact Or.inl ⟨e, he, hstep.continues he he'⟩
  · exact Or.inr hnew

theorem Rooted.step (h : c.Rooted) (hstep : c.Step parent name kind c') (hparent : parent < c.size) :
    c'.Rooted := by
  refine ⟨?_, ?_, ?_⟩
  · obtain ⟨e, he, hkind, hnone⟩ := h.root
    obtain ⟨e', he', hcontinues⟩ := hstep.kept rootId e he
    refine ⟨e', he', ?_, hcontinues.parent.trans hnone⟩
    rcases hcontinues.kind with hsame | ⟨hsome, -⟩
    · exact hsame.trans hkind
    · exact absurd hnone hsome
  · intro id e' he' hid
    rcases hstep.old he' with ⟨e, he, hcontinues⟩ | ⟨rfl, -, -, hp⟩
    · obtain ⟨p, hp, hlt⟩ := h.parent id e he hid
      exact ⟨p, hcontinues.parent.trans hp, hlt⟩
    · exact ⟨parent, hp, hparent⟩
  · intro id child hchild
    rcases hstep.children id child hchild with hold | hnew
    · obtain ⟨e, he, hp⟩ := h.child id child hold
      obtain ⟨e', he', hcontinues⟩ := hstep.kept child e he
      exact ⟨e', he', hcontinues.parent.trans hp⟩
    · exact hnew

/-- **Declaring keeps corpora trees.** -/
theorem Rooted.define (h : c.Rooted) (hparent : parent < c.size) (name : Text) (kind : EntityKind) :
    (c.define parent name kind).1.Rooted := h.step (step_define h hparent) hparent

/-- In the empty corpus there is the root, and nothing else. -/
theorem eq_root_of_empty (he : empty.entity? id = some e) :
    id = rootId ∧ e = ⟨[], .root, none, []⟩ := by
  have hid : id < 1 := lt_size_of_entity he
  obtain rfl : id = 0 := Nat.lt_one_iff.mp hid
  exact ⟨rfl, (Option.some.inj he).symm⟩

theorem childrenOf_empty (id : EntityId) : empty.childrenOf id = [] := by
  unfold childrenOf
  split
  · next e he => rw [(eq_root_of_empty he).2]
  · rfl

theorem rooted_empty : Rooted .empty := by
  refine ⟨⟨_, rfl, rfl, rfl⟩, ?_, ?_⟩
  · exact fun id e he hid => absurd (eq_root_of_empty he).1 hid
  · intro id child hchild
    rw [childrenOf_empty] at hchild
    cases hchild

/-! ## One root -/

/-- Whether nothing but the root is of its kind. -/
def OneRoot (c : Corpus) : Prop := ∀ id e, c.entity? id = some e → e.kind = .root → id = rootId

theorem OneRoot.step (h : c.OneRoot) (hstep : c.Step parent name kind c') (hkind : kind ≠ .root) :
    c'.OneRoot := by
  intro id e' he' hroot
  rcases hstep.old he' with ⟨e, he, hcontinues⟩ | ⟨-, -, hsame, -⟩
  · rcases hcontinues.kind with hsame | ⟨-, -, hclass⟩
    · exact h id e he (hsame ▸ hroot)
    · rw [hclass] at hroot
      cases hroot
  · exact absurd (hsame ▸ hroot) hkind

theorem oneRoot_empty : OneRoot .empty := fun _ _ he _ => (eq_root_of_empty he).1

/-- A namespace that was declared is a module or a class. -/
theorem OneRoot.kind_of_namespace (hone : c.OneRoot) (h : c.Rooted) (he : c.entity? id = some e)
    (hp : e.parent = some p) (hnamespace : e.kind.isNamespace = true) :
    e.kind = .moduleDef ∨ e.kind = .classDef := by
  cases hkind : e.kind with
  | moduleDef => exact Or.inl rfl
  | classDef => exact Or.inr rfl
  | root => exact absurd (hone id e he hkind) (h.ne_root_of_parent he hp)
  | methodDef | constantDef =>
    rw [hkind] at hnamespace
    cases hnamespace

end Corpus
end DocTypes
