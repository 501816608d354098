import DocTypes.Proofs.Corpus.MemberPath

/-! # Rebuilding a corpus

A corpus that was declared by words can be declared again from its own listing, entity by entity
(`rebuilt`).  By the time an entity is declared its owners are there, at the places that they had,
and lead to its parent without anything being made (`Orderly.defineOwners_upTo`).  Nothing that is
there has its name and may be merged with it, so it is added, at the place that it had
(`Orderly.define_upTo`).  What has been declared again after some entities is thus the corpus up to
the next one (`Corpus.upTo`).

The kinds of a listing are the last ones: a module that became a class later is declared as a class
at once.  And the path of a method has a number sign in it only when there are owners, so that of a
method at the top level has to be read as a name (`ownerAndName_memberPath`). -/

namespace DocTypes

/-- In an increasing list, a member comes directly behind the smaller ones. -/
theorem filter_lt_succ_of_mem {l : List Nat} {n : Nat} (hsorted : l.Pairwise (· < ·)) (h : n ∈ l) :
    l.filter (· < n + 1) = l.filter (· < n) ++ [n] := by
  induction l with
  | nil => cases h
  | cons x l ih =>
    obtain ⟨hx, hl⟩ := List.pairwise_cons.mp hsorted
    rcases List.mem_cons.mp h with rfl | hmem
    · have hlater : ∀ bound ≤ n + 1, l.filter (· < bound) = [] := by
        intro bound hbound
        refine List.filter_eq_nil_iff.mpr fun y hy => ?_
        have hlt := hx y hy
        simp only [decide_eq_true_eq]
        omega
      rw [List.filter_cons_of_pos (by simp), List.filter_cons_of_neg (by simp),
        hlater _ (Nat.le_refl _), hlater _ (Nat.le_succ _)]
      rfl
    · have hlt := hx n hmem
      rw [List.filter_cons_of_pos (by simp only [decide_eq_true_eq]; omega),
        List.filter_cons_of_pos (by simpa using hlt), ih hl hmem]
      rfl

/-- What is no member makes no difference. -/
theorem filter_lt_succ_of_not_mem {l : List Nat} {n : Nat} (h : n ∉ l) :
    l.filter (· < n + 1) = l.filter (· < n) := by
  refine List.filter_congr fun x hx => ?_
  have hne : x ≠ n := fun heq => h (heq ▸ hx)
  rw [decide_eq_decide]
  omega

/-- An entity with only those children that stand before a place. -/
def Entity.before (e : Entity) (place : EntityId) : Entity :=
  { e with children := e.children.filter (· < place) }

namespace Corpus

variable {c : Corpus} {id p n : EntityId} {e : Entity} {kind : EntityKind}
variable {owners : List Text} {name : Text}

/-! ## Reading a path again -/

/-- A path that was put together does not begin with a separator. -/
theorem dropLead_memberPath (howners : ∀ w ∈ owners, Name.isWord w = true) (hname : ':' ∉ name) :
    (memberPath owners name kind).dropLead Name.separator = memberPath owners name kind := by
  have hfirst : (memberPath owners name kind).head? ≠ some ':' := by
    intro hhead
    by_cases hnil : owners = []
    · rw [memberPath, if_pos hnil] at hhead
      exact hname (List.mem_of_head? hhead)
    · obtain ⟨first, rest, hjoin, hstart, -⟩ := Name.pathTailLength_join ⟨hnil, howners⟩
      rw [memberPath, if_neg hnil, hjoin] at hhead
      exact Name.not_colon_of_isWordPart (Name.isWordPart_of_isWordStart hstart)
        (Option.some.inj hhead)
  rcases Name.dropLead_separator (memberPath owners name kind) with ⟨rest, hsplit, -⟩ | hsame
  · rw [hsplit] at hfirst
    exact absurd rfl hfirst
  · exact hsame

/-- **What a path says of an entity is what it was put together from.** -/
theorem ownerAndName_memberPath (howners : ∀ w ∈ owners, Name.isWord w = true)
    (hfits : NameFits kind name) (hcolon : kind = .methodDef → ':' ∉ name) :
    ownerAndName (memberPath owners name kind) kind = (owners, name) := by
  by_cases hmethod : kind = .methodDef
  · subst hmethod
    rw [NameFits, if_pos rfl] at hfits
    simp only [ownerAndName, dropLead_memberPath howners (hcolon rfl), cutAtLast?_memberPath hfits]
    by_cases hnil : owners = []
    · rw [if_pos hnil, hnil, memberPath, if_pos rfl]
      by_cases hempty : name = []
      · rw [hempty]
        rfl
      · simp only [Name.properComponents_of_colon_not_mem (hcolon rfl) hempty]
        rfl
    · rw [if_neg hnil]
      simp only [Name.properComponents_join ⟨hnil, howners⟩]
  · rw [NameFits, if_neg hmethod] at hfits
    have hparts : Name.properComponents (memberPath owners name kind) = owners ++ [name] := by
      rw [memberPath_of_ne_method hmethod]
      exact Name.properComponents_join (Name.words_concat howners hfits)
    rw [ownerAndName_of_ne_method hmethod, hparts, List.dropLast_concat, List.getLast?_concat]
    rfl

/-! ## The first entities -/

/-- The first entities of a corpus, as if there were no others. -/
def upTo (c : Corpus) (size : Nat) : Corpus :=
  ⟨((c.entities.toList.take size).map (·.before size)).toArray⟩

theorem entity?_upTo (c : Corpus) (n : Nat) (id : EntityId) :
    (c.upTo n).entity? id = if id < n then (c.entity? id).map (·.before n) else none := by
  rw [entity?, upTo, List.getElem?_toArray, List.getElem?_map, List.getElem?_take,
    Array.getElem?_toList]
  split <;> rfl

theorem entity?_upTo_of_lt (he : c.entity? id = some e) (hid : id < n) :
    (c.upTo n).entity? id = some (e.before n) := by
  rw [entity?_upTo, if_pos hid, he]
  rfl

theorem size_upTo (hn : n ≤ c.size) : (c.upTo n).size = n := by
  have hn' : n ≤ c.entities.size := hn
  simp [upTo, size, Nat.min_eq_left hn']

/-- All entities are the corpus. -/
theorem Rooted.upTo_size (h : c.Rooted) : c.upTo c.size = c := by
  refine eq_of_entity? fun id => ?_
  rw [entity?_upTo]
  split
  · next hid =>
    obtain ⟨e, he⟩ := exists_entity_of_lt hid
    have hall : e.children.filter (· < c.size) = e.children := by
      refine List.filter_eq_self.mpr fun child hchild => ?_
      obtain ⟨ce, hce, -⟩ := h.child id child (mem_childrenOf.mpr ⟨e, he, hchild⟩)
      exact decide_eq_true (lt_size_of_entity hce)
    rw [he, Option.map_some, Entity.before, hall]
  · next hid => rw [entity?_eq_none (Nat.le_of_not_lt hid)]

/-- The children of an entity come after it. -/
theorem Rooted.lt_of_mem_children (h : c.Rooted) (he : c.entity? id = some e) {child : EntityId}
    (hchild : child ∈ e.children) : id < child := by
  obtain ⟨ce, hce, hp⟩ := h.child id child (mem_childrenOf.mpr ⟨e, he, hchild⟩)
  exact h.parent_lt hce hp

/-- An entity has no children when nothing comes after it. -/
theorem Rooted.before_succ (h : c.Rooted) (he : c.entity? id = some e) :
    e.before (id + 1) = { e with children := [] } := by
  have hnone : e.children.filter (· < id + 1) = [] := by
    refine List.filter_eq_nil_iff.mpr fun child hchild => ?_
    rw [decide_eq_true_eq]
    exact Nat.not_lt.mpr (h.lt_of_mem_children he hchild)
  rw [Entity.before, hnone]

/-! ## One entity more -/

/-- The way to a namespace leads there, and nothing is made. -/
theorem Orderly.defineOwners_upTo (h : c.Orderly) (hregular : (c.upTo n).Regular)
    (hp : c.isNamespaceAt p = true) (hlt : p < n) :
    (c.upTo n).defineOwners rootId (c.trail p) = (c.upTo n, p) := by
  induction p using Nat.strongRecOn with
  | ind p ih =>
    by_cases hroot : p = rootId
    · rw [(h.trail_eq_nil_iff hp).mpr hroot, hroot]
      rfl
    · obtain ⟨e, q, he, hq, hbefore, hparent, hkind, htrail⟩ := h.exists_parent hp hroot
      have hfound : (c.upTo n).define q e.name .moduleDef = (c.upTo n, p) :=
        hregular.define_eq_self (entity?_upTo_of_lt he hlt) hq rfl
          (EntityKind.merges_iff.mpr (Or.inr ⟨hkind, rfl⟩)) EntityKind.noConfusion
      rw [htrail, defineOwners_concat, ih q hbefore hparent (Nat.lt_trans hbefore hlt)]
      exact hfound

/-- With one entity more, that one stands at the end, and behind all other children of its parent. -/
theorem Orderly.entity?_upTo_succ (h : c.Orderly) (hinOrder : c.InOrder)
    (he : c.entity? n = some e) (hp : e.parent = some p) (place : EntityId) :
    (c.upTo (n + 1)).entity? place =
      if place = n then some ⟨e.name, e.kind, some p, []⟩
      else if p = place then
        ((c.upTo n).entity? place).map fun e => { e with children := e.children ++ [n] }
      else (c.upTo n).entity? place := by
  by_cases hlast : place = n
  · subst hlast
    rw [if_pos rfl, entity?_upTo_of_lt he (Nat.lt_succ_self _), h.rooted.before_succ he, hp]
  · rw [if_neg hlast]
    by_cases hlt : place < n
    · obtain ⟨f, hf⟩ := exists_entity_of_lt (Nat.lt_trans hlt (lt_size_of_entity he))
      have hchildren : c.childrenOf place = f.children := by rw [childrenOf, hf]
      rw [entity?_upTo_of_lt hf hlt, entity?_upTo_of_lt hf (Nat.lt_succ_of_lt hlt)]
      by_cases hparent : p = place
      · subst hparent
        have hmem : n ∈ f.children := hchildren ▸ h.listed n e p he hp
        rw [if_pos rfl, Entity.before, filter_lt_succ_of_mem (hchildren ▸ hinOrder p) hmem]
        rfl
      · have hnot : n ∉ f.children := by
          intro hmem
          have hplace := h.rooted.parent_of_mem (hchildren ▸ hmem) he
          exact hparent (Option.some.inj (hp.symm.trans hplace))
        rw [if_neg hparent, Entity.before, filter_lt_succ_of_not_mem hnot]
        rfl
    · have hlater : ¬place < n + 1 := fun hsucc =>
        hlt (Nat.lt_of_le_of_ne (Nat.le_of_lt_succ hsucc) hlast)
      rw [entity?_upTo, entity?_upTo, if_neg hlater, if_neg hlt]
      split <;> rfl

/-- **The next entity is added** when it is declared. -/
theorem Orderly.define_upTo (h : c.Orderly) (hinOrder : c.InOrder) (hregular : (c.upTo n).Regular)
    (he : c.entity? n = some e) (hp : e.parent = some p) :
    ((c.upTo n).define p e.name e.kind).1 = c.upTo (n + 1) := by
  have hsize := size_upTo (Nat.le_of_lt (lt_size_of_entity he))
  have hparent : p < (c.upTo n).size := hsize.symm ▸ h.rooted.parent_lt he hp
  cases outcome_define hparent e.name e.kind with
  | reopened old hchild hold hname hmerges hafter =>
    -- A child that might be declared again is one of the corpus, and stands before this one.
    have hparentOld := hregular.parent_of_mem hchild hold
    rw [entity?_upTo] at hold
    split at hold
    · next hlt =>
      obtain ⟨f, hf, rfl⟩ := Option.map_eq_some_iff.mp hold
      have hsame := h.apart n _ e f he hf (hp.trans hparentOld.symm) hname.symm hmerges
      exact absurd hsame.symm (Nat.ne_of_lt hlt)
    · cases hold
  | added hid hnone hafter =>
    refine eq_of_entity? fun place => ?_
    rw [hafter, hsize, h.entity?_upTo_succ hinOrder he hp]

/-- **What comes next in the corpus comes next when its entities are declared one by one.** -/
theorem Orderly.declare_upTo (h : c.Orderly) (hinOrder : c.InOrder) (hregular : (c.upTo n).Regular)
    (he : c.entity? n = some e) (hp : e.parent = some p)
    (hread : ownerAndName (c.path n) e.kind = (c.trail p, e.name)) :
    (c.upTo n).declare ⟨e.kind, c.path n⟩ = c.upTo (n + 1) := by
  obtain ⟨hlt, hparent⟩ := h.parent_lt he hp
  have howners := h.defineOwners_upTo hregular hparent hlt
  calc (c.upTo n).declare ⟨e.kind, c.path n⟩
      = (((c.upTo n).defineOwners rootId (c.trail p)).1.define
          ((c.upTo n).defineOwners rootId (c.trail p)).2 e.name e.kind).1 := by
        rw [Corpus.declare, definePath, hread]
    _ = ((c.upTo n).define p e.name e.kind).1 := by rw [howners]
    _ = c.upTo (n + 1) := h.define_upTo hinOrder hregular he hp

/-! ## All entities -/

/-- What a corpus lists, as declarations. -/
def declarations (c : Corpus) : List Declaration := c.listing.map fun (kind, path) => ⟨kind, path⟩

/-- What a corpus lists of the entity at a place. -/
def declaration? (c : Corpus) (id : EntityId) : Option Declaration :=
  (c.entity? id).map fun e => ⟨e.kind, c.path id⟩

theorem declarations_eq (c : Corpus) :
    c.declarations = ((List.range c.size).drop 1).filterMap c.declaration? := by
  rw [declarations, listing, List.map_filterMap, ids]
  refine congrArg (List.filterMap · _) (funext fun id => ?_)
  rw [declaration?, Option.map_map]
  rfl

/-- Declaring the first entities one by one makes the corpus up to the next one. -/
theorem Orderly.ofDeclarations_upTo (h : c.Orderly) (hinOrder : c.InOrder)
    (hfirst : c.upTo 1 = .empty)
    (hread : ∀ id e p, c.entity? id = some e → e.parent = some p →
      ownerAndName (c.path id) e.kind = (c.trail p, e.name)) (hn : n < c.size) :
    ofDeclarations (((List.range (n + 1)).drop 1).filterMap c.declaration?) = c.upTo (n + 1) := by
  induction n with
  | zero => exact hfirst.symm
  | succ n ih =>
    have hbefore := ih (Nat.lt_of_succ_lt hn)
    have hregular : (c.upTo (n + 1)).Regular := hbefore ▸ (regular_ofDeclarations _).1
    obtain ⟨e, he⟩ := exists_entity_of_lt hn
    obtain ⟨p, hp, -⟩ := h.parent (n + 1) e he (Nat.succ_ne_zero n)
    have hsplit : (List.range (n + 1 + 1)).drop 1 = (List.range (n + 1)).drop 1 ++ [n + 1] := by
      rw [List.range_succ, List.drop_append_of_le_length (by simp)]
    have hlast : c.declaration? (n + 1) = some ⟨e.kind, c.path (n + 1)⟩ := by
      rw [declaration?, he]
      rfl
    rw [hsplit, List.filterMap_append, ofDeclarations, List.foldl_append]
    rw [ofDeclarations] at hbefore
    rw [hbefore, List.filterMap_cons_some hlast]
    exact h.declare_upTo hinOrder hregular he hp (hread _ e p he hp)

variable {ds : List Declaration}

/-- The first entity is the root. -/
theorem upTo_one (hds : ∀ d ∈ ds, d.Named ∧ d.kind ≠ .root) :
    (ofDeclarations ds).upTo 1 = .empty := by
  obtain ⟨h, hgrows⟩ := orderly_empty.foldl_declare hds
  obtain ⟨root, hroot, hbecomes⟩ := hgrows rootId _ rfl
  have hcut : root.before 1 = ⟨[], .root, none, []⟩ := by
    have hname : root.name = [] := hbecomes.name
    have hkind : root.kind = .root := hbecomes.isRoot_iff.mpr rfl
    have hparent : root.parent = none := hbecomes.parent
    rw [← hname, ← hkind, ← hparent]
    exact h.rooted.before_succ hroot
  refine eq_of_entity? fun place => ?_
  by_cases hplace : place = rootId
  · subst hplace
    exact (entity?_upTo_of_lt hroot (Nat.zero_lt_succ 0)).trans (congrArg some hcut)
  · have hlater : 1 ≤ place := Nat.one_le_iff_ne_zero.mpr hplace
    rw [entity?_upTo, if_neg (Nat.not_lt.mpr hlater), entity?_eq_none hlater]

/-- **A corpus can be rebuilt from its own listing.**  The namespaces and constants in a declaration
list are called by words, and no method by a name with a colon.  Then declaring what the corpus
lists, in order, makes the same corpus, with all its places, names, kinds, parents and children.  So
it does for the corpus that is read from a text that lists these declarations. -/
theorem ofDeclarations_declarations
    (hds : ∀ d ∈ ds, d.Worded ∧ (d.kind = .methodDef → ':' ∉ d.name)) :
    ofDeclarations (ofDeclarations ds).declarations = ofDeclarations ds ∧
      ∀ source, Declaration.parse source = .ok ds →
        ∃ c, parse source = .ok c ∧ ofDeclarations c.declarations = c := by
  have hworded : ∀ d ∈ ds, d.Worded := fun d hd => (hds d hd).1
  have hnamed : ∀ d ∈ ds, d.Named ∧ d.kind ≠ .root := fun d hd => (hworded d hd).named
  have h := orderly_ofDeclarations hnamed
  have hread : ∀ id e p, (ofDeclarations ds).entity? id = some e → e.parent = some p →
      ownerAndName ((ofDeclarations ds).path id) e.kind = ((ofDeclarations ds).trail p, e.name) := by
    intro id e p he hp
    rw [h.path_eq_memberPath he hp]
    refine ownerAndName_memberPath (h.isWord_of_mem_trail (h.parent_lt he hp).2)
      (nameFits hworded he hp) fun hmethod => ?_
    obtain ⟨d, hd, hkind, hname⟩ := exists_declaration hnamed he hp (by rw [hmethod]; rfl)
    exact hname ▸ (hds d hd).2 (hkind.trans hmethod)
  have hrebuilt : ofDeclarations (ofDeclarations ds).declarations = ofDeclarations ds := by
    obtain ⟨last, hlast⟩ : ∃ last, (ofDeclarations ds).size = last + 1 :=
      Nat.exists_eq_add_one.mpr (lt_size_of_isNamespaceAt h.isNamespaceAt_root)
    have hall := h.ofDeclarations_upTo (regular_ofDeclarations ds).2 (upTo_one hnamed) hread
      (by rw [hlast]; exact Nat.lt_succ_self last)
    rw [declarations_eq, hlast, hall, ← hlast]
    exact h.rooted.upTo_size
  refine ⟨hrebuilt, fun source hsource => ⟨ofDeclarations ds, ?_, hrebuilt⟩⟩
  rw [parse, hsource]
  rfl

/-- A method at the top level, and a module that becomes a class when there are a constant and a
method in it. -/
theorem ofDeclarations_declarations_topLevel :
    let ds : List Declaration := [⟨.methodDef, "#run"⟩, ⟨.constantDef, "A::LIMIT"⟩,
      ⟨.methodDef, "A#run"⟩, ⟨.classDef, "::A"⟩, ⟨.constantDef, "A::LIMIT"⟩]
    let listed : List Declaration := [⟨.methodDef, "run"⟩, ⟨.classDef, "A"⟩,
      ⟨.constantDef, "A::LIMIT"⟩, ⟨.methodDef, "A#run"⟩]
    (ofDeclarations ds).declarations = listed ∧ ofDeclarations listed = ofDeclarations ds := by
  intro ds listed
  have hlisted : (ofDeclarations ds).declarations = listed := by decide +kernel
  obtain ⟨hrebuilt, -⟩ := ofDeclarations_declarations (by decide +kernel : ∀ d ∈ ds, _)
  exact ⟨hlisted, hlisted ▸ hrebuilt⟩

end Corpus
end DocTypes
