import DocTypes.Proofs.Corpus.Contents

/-! # Walking down a corpus

A walk goes from child to child, takes the first that has the name and a kind that it accepts, and
never goes back.  Besides modules and classes it accepts things of one kind that contain nothing
(`EntityKind.Walks`), and one of these may stand beside a namespace of the same name.  Children
stand in the order in which they were declared, so it is the first declaration of the name that
decides which of the two is taken (`Declaration.ComesFirst`): where the namespace comes first the
walk goes on through it (`exists_namespace_of_not_comesFirst`), and where it does not the walk ends
(`exists_leaf_of_comesFirst`).

A walk thus arrives at a namespace when there is one at the end of the way and nothing came first on
the way (`descend?_namespace_iff`), and one step further it finds whatever the corpus holds there
(`isSome_walk_iff`, `exists_of_walk`). -/

namespace DocTypes

/-- Whether modules, classes and things of one kind that contain nothing are accepted. -/
structure EntityKind.Walks (accepts : EntityKind → Bool) (leaf : EntityKind) : Prop where
  isNamespace_leaf : leaf.isNamespace = false
  accepts_iff : ∀ kind, accepts kind = true ↔ kind = .moduleDef ∨ kind = .classDef ∨ kind = leaf

namespace EntityKind.Walks

variable {accepts : EntityKind → Bool} {leaf : EntityKind}

theorem root (h : Walks accepts leaf) : accepts .root = false := by
  rw [Bool.eq_false_iff]
  intro hroot
  rcases (h.accepts_iff .root).mp hroot with hkind | hkind | hkind
  · cases hkind
  · cases hkind
  · have hleaf := h.isNamespace_leaf
    rw [← hkind] at hleaf
    cases hleaf

theorem steady (h : Walks accepts leaf) : Steady accepts := by
  have hmodule : accepts .moduleDef = true := (h.accepts_iff _).mpr (Or.inl rfl)
  have hclass : accepts .classDef = true := (h.accepts_iff _).mpr (Or.inr (Or.inl rfl))
  exact hmodule.trans hclass.symm

theorem steady_leaf (h : Walks accepts leaf) : Steady (· == leaf) := by
  have hleaf := h.isNamespace_leaf
  cases leaf with
  | root | moduleDef | classDef => cases hleaf
  | methodDef | constantDef => rfl

/-- What is a namespace below the root is accepted. -/
theorem of_isNamespace (h : Walks accepts leaf) {kind : EntityKind}
    (hnamespace : kind.isNamespace = true) (hroot : kind ≠ .root) : accepts kind = true := by
  rw [h.accepts_iff]
  cases kind with
  | root => exact absurd rfl hroot
  | moduleDef => exact Or.inl rfl
  | classDef => exact Or.inr (Or.inl rfl)
  | methodDef | constantDef => cases hnamespace

theorem eq_leaf (h : Walks accepts leaf) {kind : EntityKind} (haccepts : accepts kind = true)
    (hnamespace : kind.isNamespace ≠ true) : kind = leaf := by
  rcases (h.accepts_iff kind).mp haccepts with rfl | rfl | hleaf
  · exact absurd rfl hnamespace
  · exact absurd rfl hnamespace
  · exact hleaf

end EntityKind.Walks

namespace Declaration

variable {ds : List Declaration} {leaf : EntityKind} {owners names : List Text} {name : Text}

/-- Whether something of a kind that contains nothing is declared under a name before any namespace
of that name is. -/
def ComesFirst (ds : List Declaration) (leaf : EntityKind) (owners : List Text) (name : Text) :
    Prop :=
  ∃ before d after, ds = before ++ d :: after ∧ d.Gives owners name (· == leaf) ∧
    ∀ earlier ∈ before, ¬earlier.Gives owners name EntityKind.isNamespace

/-- Whether nothing of the kind comes first anywhere on the way from the owners through the names. -/
def ClearWay (ds : List Declaration) (leaf : EntityKind) (owners names : List Text) : Prop :=
  ∀ front word back, names = front ++ word :: back → ¬ComesFirst ds leaf (owners ++ front) word

theorem clearWay_nil : ClearWay ds leaf owners [] := by
  intro front word back hsplit
  simp at hsplit

theorem clearWay_cons_iff :
    ClearWay ds leaf owners (name :: names) ↔
      ¬ComesFirst ds leaf owners name ∧ ClearWay ds leaf (owners ++ [name]) names := by
  constructor
  · intro hclear
    refine ⟨?_, ?_⟩
    · have hfirst := hclear [] name names rfl
      rwa [List.append_nil] at hfirst
    · rintro front word back rfl
      have hlater := hclear (name :: front) word back rfl
      rwa [List.append_assoc]
  · rintro ⟨hfirst, hlater⟩ front word back hsplit
    cases front with
    | nil =>
      obtain ⟨rfl, -⟩ := List.cons.inj hsplit
      rwa [List.append_nil]
    | cons first front =>
      obtain ⟨rfl, hrest⟩ := List.cons.inj hsplit
      have hword := hlater front word back hrest
      rwa [List.append_assoc] at hword

/-- Nothing of the kind comes first where nothing of the kind is declared. -/
theorem clearWay_of_forall (hleaf : leaf.isNamespace = false)
    (h : ∀ d ∈ ds, d.kind = leaf → ¬d.owners ++ [d.name] <+: owners ++ names) :
    ClearWay ds leaf owners names := by
  rintro front word back rfl ⟨before, d, after, rfl, hgives, -⟩
  rcases hgives with ⟨howners, rfl, hkind⟩ | ⟨-, hmodule⟩
  · refine h d (by simp) (beq_iff_eq.mp hkind) ⟨back, ?_⟩
    rw [← howners]
    simp
  · rw [← beq_iff_eq.mp hmodule] at hleaf
    cases hleaf

/-- What declares a thing that contains nothing declares no namespace of its name. -/
theorem Gives.not_isNamespace {d : Declaration} (hleaf : leaf.isNamespace = false)
    (h : d.Gives owners name (· == leaf)) : ¬d.Gives owners name EntityKind.isNamespace := by
  have hown : owners = d.owners ∧ d.kind = leaf := by
    rcases h with ⟨howners, -, hkind⟩ | ⟨-, hmodule⟩
    · exact ⟨howners, beq_iff_eq.mp hkind⟩
    · rw [← beq_iff_eq.mp hmodule] at hleaf
      cases hleaf
  rintro (⟨-, -, hkind⟩ | ⟨hbegins, -⟩)
  · rw [hown.2, hleaf] at hkind
    cases hkind
  · have hlength := hbegins.length_le
    rw [← hown.1, List.length_append, List.length_singleton] at hlength
    omega

end Declaration

/-- What some members of a list have, a first one has. -/
theorem exists_first {α : Type} {l : List α} {P : α → Prop} (h : ∃ x ∈ l, P x) :
    ∃ before x after, l = before ++ x :: after ∧ P x ∧ ∀ y ∈ before, ¬P y := by
  induction l with
  | nil =>
    obtain ⟨x, hx, -⟩ := h
    cases hx
  | cons y l ih =>
    by_cases hy : P y
    · exact ⟨[], y, l, rfl, hy, fun _ hz => absurd hz List.not_mem_nil⟩
    · obtain ⟨x, hx, hPx⟩ := h
      have hrest : x ∈ l := by
        rcases List.mem_cons.mp hx with rfl | hx
        · exact absurd hPx hy
        · exact hx
      obtain ⟨before, x, after, rfl, hx, hbefore⟩ := ih ⟨x, hrest, hPx⟩
      exact ⟨y :: before, x, after, rfl, hx, List.forall_mem_cons.mpr ⟨hy, hbefore⟩⟩

namespace Corpus
open Declaration (ComesFirst ClearWay)
open EntityKind (Walks Steady Upward)

variable {c c' : Corpus} {p q found : EntityId} {name last : Text} {names owners : List Text}
variable {accepts wanted : EntityKind → Bool} {leaf : EntityKind} {ds : List Declaration}

/-! ## The first child of a name -/

theorem Has.mono (h : c.Has owners name accepts)
    (himp : ∀ kind, accepts kind = true → wanted kind = true) : c.Has owners name wanted := by
  obtain ⟨id, e, p, he, hp, htrail, hname, haccepts⟩ := h
  exact ⟨id, e, p, he, hp, htrail, hname, himp e.kind haccepts⟩

/-- What a lookup among children could find early, it finds late, and as what it could be then. -/
theorem Grows.exists_child (hgrows : c.Grows c') (h : c.Orderly) (h' : c'.Orderly)
    (hsteady : Steady accepts) (hp : c'.isNamespaceAt p = true)
    (hhas : c.Has (c'.trail p) name accepts) :
    ∃ x e, c'.child? p name accepts = some x ∧ c'.entity? x = some e ∧
      ∀ wanted, Steady wanted → wanted e.kind = true → c.Has (c'.trail p) name wanted := by
  obtain ⟨id, f, q, hf, hq, htrail, -⟩ := id hhas
  have hnamespace := (h.parent_lt hf hq).2
  obtain ⟨qe, hqe, -⟩ := isNamespaceAt_iff.mp hnamespace
  have hsame := hgrows.trail_eq h.toWellFormed h'.toWellFormed hqe
  obtain rfl := h'.eq_of_trail (hgrows.isNamespaceAt hnamespace) hp (hsame.trans htrail)
  rw [hsame] at hhas ⊢
  obtain ⟨x, hx⟩ := Option.isSome_iff_exists.mp ((h.isSome_child?_iff hnamespace).mpr hhas)
  obtain ⟨e, he, hparent, hname, -⟩ := h.rooted.exists_of_child? hx
  obtain ⟨e', he', hbecomes⟩ := hgrows x e he
  refine ⟨x, e', hgrows.child?_eq h.rooted hsteady hx, he', fun wanted hwanted hkind => ?_⟩
  exact ⟨x, e, q, he, hparent, rfl, hname, hbecomes.accepts_eq hwanted ▸ hkind⟩

section Declarations

variable (hds : ∀ d ∈ ds, d.Named ∧ d.kind ≠ .root) (hwalks : Walks accepts leaf)
variable (hp : (ofDeclarations ds).isNamespaceAt p = true)

include hds in
/-- The declarations up to some point make a corpus that has grown since. -/
theorem grows_of_eq_append {before after : List Declaration} (hsplit : ds = before ++ after) :
    (∀ d ∈ before, d.Named ∧ d.kind ≠ .root) ∧
      (ofDeclarations before).Grows (ofDeclarations ds) := by
  subst hsplit
  exact ⟨fun d hd => hds d (List.mem_append_left _ hd), grows_ofDeclarations_append hds⟩

include hds hwalks hp

/-- What contains nothing and came first is what a walk takes. -/
theorem exists_leaf_of_comesFirst
    (hfirst : ComesFirst ds leaf ((ofDeclarations ds).trail p) name) :
    ∃ x, (ofDeclarations ds).child? p name accepts = some x ∧
      (ofDeclarations ds).isNamespaceAt x ≠ true := by
  obtain ⟨before, d, after, hsplit, hgives, hbefore⟩ := hfirst
  rw [List.append_cons] at hsplit
  obtain ⟨hearly, hgrows⟩ := grows_of_eq_append hds hsplit
  have hleaf : (ofDeclarations (before ++ [d])).Has ((ofDeclarations ds).trail p) name
      (· == leaf) :=
    (has_ofDeclarations hearly hwalks.steady_leaf.upward).mpr ⟨d, by simp, hgives⟩
  have haccepts : ∀ kind, (kind == leaf) = true → accepts kind = true :=
    fun kind hkind => (hwalks.accepts_iff kind).mpr (Or.inr (Or.inr (beq_iff_eq.mp hkind)))
  obtain ⟨x, e, hx, he, hearlier⟩ :=
    hgrows.exists_child (orderly_ofDeclarations hearly) (orderly_ofDeclarations hds)
      hwalks.steady hp (hleaf.mono haccepts)
  refine ⟨x, hx, fun hnamespace => ?_⟩
  -- A namespace would have been declared by then, and none was.
  rw [isNamespaceAt_of_entity he] at hnamespace
  have hnone := hearlier _ EntityKind.steady_isNamespace hnamespace
  rw [has_ofDeclarations hearly EntityKind.steady_isNamespace.upward] at hnone
  obtain ⟨d', hd', hother⟩ := hnone
  rcases List.mem_append.mp hd' with hd' | hd'
  · exact hbefore d' hd' hother
  · rw [List.mem_singleton.mp hd'] at hother
    exact hgives.not_isNamespace hwalks.isNamespace_leaf hother

/-- A namespace that came first is what a walk goes through. -/
theorem exists_namespace_of_not_comesFirst
    (hfirst : ¬ComesFirst ds leaf ((ofDeclarations ds).trail p) name)
    (hhas : (ofDeclarations ds).Has ((ofDeclarations ds).trail p) name EntityKind.isNamespace) :
    ∃ x, (ofDeclarations ds).child? p name accepts = some x ∧
      (ofDeclarations ds).isNamespaceAt x = true := by
  rw [has_ofDeclarations hds EntityKind.steady_isNamespace.upward] at hhas
  obtain ⟨before, d, after, hsplit, hgives, hbefore⟩ := exists_first hhas
  have hcut : ds = (before ++ [d]) ++ after := by rw [hsplit, List.append_cons]
  obtain ⟨hearly, hgrows⟩ := grows_of_eq_append hds hcut
  have haccepted : (ofDeclarations (before ++ [d])).Has ((ofDeclarations ds).trail p) name
      accepts := by
    refine (has_ofDeclarations hearly hwalks.steady.upward).mpr ⟨d, by simp, ?_⟩
    rcases hgives with ⟨howners, hname, hkind⟩ | ⟨hbegins, -⟩
    · exact Or.inl ⟨howners, hname, hwalks.of_isNamespace hkind (hearly d (by simp)).2⟩
    · exact Or.inr ⟨hbegins, (hwalks.accepts_iff _).mpr (Or.inl rfl)⟩
  obtain ⟨x, e, hx, he, hearlier⟩ :=
    hgrows.exists_child (orderly_ofDeclarations hearly) (orderly_ofDeclarations hds)
      hwalks.steady hp haccepted
  refine ⟨x, hx, ?_⟩
  rw [isNamespaceAt_of_entity he]
  refine Decidable.byContradiction fun hother => ?_
  obtain ⟨-, e', he', -, haccepts⟩ := child?_eq_some hx
  obtain rfl : e = e' := Option.some.inj (he.symm.trans he')
  -- What contains nothing would have been declared by then, and would have come first.
  have hleaf := hearlier (· == leaf) hwalks.steady_leaf
    (beq_iff_eq.mpr (hwalks.eq_leaf haccepts hother))
  rw [has_ofDeclarations hearly hwalks.steady_leaf.upward] at hleaf
  obtain ⟨d', hd', hgives'⟩ := hleaf
  apply hfirst
  rcases List.mem_append.mp hd' with hd' | hd'
  · obtain ⟨front, back, rfl⟩ := List.append_of_mem hd'
    refine ⟨front, d', back ++ d :: after, ?_, hgives', ?_⟩
    · rw [hsplit, List.append_assoc, List.cons_append]
    · exact fun earlier hmem => hbefore earlier (List.mem_append_left _ hmem)
  · rw [List.mem_singleton.mp hd'] at hgives'
    exact ⟨before, d, after, hsplit, hgives', hbefore⟩

end Declarations

/-! ## Walking through namespaces -/

theorem descend?_cons_of_child? {x : EntityId} (hx : c.child? p name accepts = some x)
    (names : List Text) : c.descend? accepts p (name :: names) = c.descend? accepts x names := by
  rw [descend?, hx]

theorem descend?_append (names more : List Text) :
    c.descend? accepts p (names ++ more) =
      (c.descend? accepts p names).bind (c.descend? accepts · more) := by
  induction names generalizing p with
  | nil => rfl
  | cons name names ih =>
    rw [List.cons_append, descend?, descend?]
    cases c.child? p name accepts with
    | none => rfl
    | some x => exact ih

theorem descend?_concat (names : List Text) (last : Text) :
    c.descend? accepts p (names ++ [last]) =
      (c.descend? accepts p names).bind (c.child? · last accepts) := by
  rw [descend?_append]
  congr 1
  funext q
  rw [descend?]
  cases c.child? q last accepts <;> rfl

/-- Where a way leads to a namespace, all on the way are namespaces. -/
theorem Orderly.exists_namespace_of_prefix (h : c.Orderly) (hq : c.isNamespaceAt q = true)
    (htrail : c.trail q = owners ++ names) :
    ∃ p, c.isNamespaceAt p = true ∧ c.trail p = owners := by
  induction q using Nat.strongRecOn generalizing names with
  | ind q ih =>
    by_cases hnames : names = []
    · rw [hnames, List.append_nil] at htrail
      exact ⟨q, hq, htrail⟩
    · have hroot : q ≠ rootId := by
        intro hroot
        rw [(h.trail_eq_nil_iff hq).mpr hroot] at htrail
        exact hnames (List.append_eq_nil_iff.mp htrail.symm).2
      obtain ⟨e, p, -, -, hlt, hp, -, hparent⟩ := h.exists_parent hq hroot
      rw [hparent, ← List.dropLast_concat_getLast hnames, ← List.append_assoc] at htrail
      exact ih p hlt hp (List.append_inj' htrail rfl).1

/-- The way to a child that is a namespace. -/
theorem Orderly.trail_child (h : c.Orderly) (hroot : accepts .root = false) {x : EntityId}
    (hx : c.child? p name accepts = some x) (hnamespace : c.isNamespaceAt x = true) :
    c.trail x = c.trail p ++ [name] := by
  have hdescend : c.descend? accepts p [name] = some x := by rw [descend?_cons_of_child? hx]; rfl
  exact trail_descend h.toWellFormed hroot hdescend hnamespace

section Declarations

variable (hds : ∀ d ∈ ds, d.Named ∧ d.kind ≠ .root) (hwalks : Walks accepts leaf)

include hds hwalks

/-- **A walk arrives at a namespace when there is one at the end of the way, and nothing came first
on the way.** -/
theorem descend?_namespace_iff (hp : (ofDeclarations ds).isNamespaceAt p = true) :
    (∃ q, (ofDeclarations ds).descend? accepts p names = some q ∧
        (ofDeclarations ds).isNamespaceAt q = true) ↔
      (∃ q, (ofDeclarations ds).isNamespaceAt q = true ∧
        (ofDeclarations ds).trail q = (ofDeclarations ds).trail p ++ names) ∧
        ClearWay ds leaf ((ofDeclarations ds).trail p) names := by
  have h := orderly_ofDeclarations hds
  induction names generalizing p with
  | nil =>
    rw [List.append_nil, and_iff_left Declaration.clearWay_nil]
    exact ⟨fun _ => ⟨p, hp, rfl⟩, fun _ => ⟨p, rfl, hp⟩⟩
  | cons name names ih =>
    rw [Declaration.clearWay_cons_iff]
    constructor
    · rintro ⟨q, hdescend, hq⟩
      cases hx : (ofDeclarations ds).child? p name accepts with
      | none => simp [descend?, hx] at hdescend
      | some x =>
        rw [descend?_cons_of_child? hx] at hdescend
        have hnamespace := isNamespaceAt_of_descend h.toWellFormed hdescend hq
        have htrail := h.trail_child hwalks.root hx hnamespace
        obtain ⟨⟨r, hr, hway⟩, hclear⟩ := (ih hnamespace).mp ⟨q, hdescend, hq⟩
        rw [htrail] at hway hclear
        refine ⟨⟨r, hr, by rw [hway, List.append_assoc]; rfl⟩, fun hfirst => ?_, hclear⟩
        obtain ⟨y, hy, hother⟩ := exists_leaf_of_comesFirst hds hwalks hp hfirst
        obtain rfl : x = y := Option.some.inj (hx.symm.trans hy)
        exact hother hnamespace
    · rintro ⟨⟨q, hq, hway⟩, hfirst, hclear⟩
      rw [List.append_cons] at hway
      have hthere := h.exists_namespace_iff.mp (h.exists_namespace_of_prefix hq hway)
      obtain ⟨x, hx, hnamespace⟩ :=
        exists_namespace_of_not_comesFirst hds hwalks hp hfirst hthere
      have htrail := h.trail_child hwalks.root hx hnamespace
      rw [← htrail] at hway hclear
      rw [descend?_cons_of_child? hx]
      exact (ih hnamespace).mpr ⟨⟨q, hq, hway⟩, hclear⟩

/-- What a walk finds when it takes one step further. -/
theorem exists_of_walk
    (hfound : ((ofDeclarations ds).descend? accepts p names).bind
      ((ofDeclarations ds).child? · last wanted) = some found) :
    (ofDeclarations ds).isNamespaceAt p = true ∧
      ∃ e q, (ofDeclarations ds).entity? found = some e ∧ e.parent = some q ∧
        (ofDeclarations ds).trail q = (ofDeclarations ds).trail p ++ names ∧ e.name = last ∧
          wanted e.kind = true := by
  have h := orderly_ofDeclarations hds
  obtain ⟨q, hq, hchild⟩ := Option.bind_eq_some_iff.mp hfound
  obtain ⟨e, he, hparent, hname, hkind⟩ := h.rooted.exists_of_child? hchild
  have hnamespace := (h.parent_lt he hparent).2
  exact ⟨isNamespaceAt_of_descend h.toWellFormed hq hnamespace, e, q, he, hparent,
    trail_descend h.toWellFormed hwalks.root hq hnamespace, hname, hkind⟩

/-- **A walk that takes one step further finds something when the corpus holds it there, and nothing
came first on the way.** -/
theorem isSome_walk_iff (hp : (ofDeclarations ds).isNamespaceAt p = true) :
    (((ofDeclarations ds).descend? accepts p names).bind
        ((ofDeclarations ds).child? · last wanted)).isSome = true ↔
      ClearWay ds leaf ((ofDeclarations ds).trail p) names ∧
        (ofDeclarations ds).Has ((ofDeclarations ds).trail p ++ names) last wanted := by
  have h := orderly_ofDeclarations hds
  have hway : (∃ q, (ofDeclarations ds).descend? accepts p names = some q ∧ _) ↔ _ :=
    descend?_namespace_iff hds hwalks hp
  constructor
  · intro hsome
    obtain ⟨found, hfound⟩ := Option.isSome_iff_exists.mp hsome
    obtain ⟨q, hq, hchild⟩ := Option.bind_eq_some_iff.mp hfound
    obtain ⟨-, e, q', he, hparent, htrail, hname, hkind⟩ := exists_of_walk hds hwalks hfound
    obtain ⟨e', he', hparent', -⟩ := h.rooted.exists_of_child? hchild
    refine ⟨(hway.mp ⟨q, hq, ?_⟩).2, found, e, q', he, hparent, htrail, hname, hkind⟩
    exact (h.parent_lt he' hparent').2
  · rintro ⟨hclear, hhas⟩
    obtain ⟨id, f, r, hf, hr, htrail, -⟩ := id hhas
    obtain ⟨q, hq, hnamespace⟩ := hway.mpr ⟨⟨r, (h.parent_lt hf hr).2, htrail⟩, hclear⟩
    rw [hq, Option.bind_some, h.isSome_child?_iff hnamespace,
      trail_descend h.toWellFormed hwalks.root hq hnamespace]
    exact hhas

end Declarations

end Corpus
end DocTypes
