import DocTypes.Proofs.Corpus.Listing
import DocTypes.Proofs.Corpus.Walk
import DocTypes.Proofs.Text.Sorted
import DocTypes.Resolver.Lexical
import Mathlib.Data.List.Infix

/-! # The order of declarations

Two corpora with the same declarations in another order hold the same (`Corpus.has_congr`), at
other places.  So a scope of the one has its counterpart in the other, of the same kind and with the
same path (`exists_scope_of_perm`), with the same ways to the namespaces around it
(`forall₂_lineage`).  From each of these a name leads somewhere in both corpora or in neither, as
long as the way there is clear in both or in neither (`isSome_descend?_iff`).

No two of them lead to the same path, for they differ in the way that comes before the name
(`nodup_lexicalPaths`).  Whether a name resolves is thus a matter of how many of them lead somewhere,
and does not depend on the order of the declarations (`resolves_perm`).

The way is not clear where a method was declared before the first namespace of its name
(`Declaration.ComesFirst`): a walk stops at the method.  This is the only thing in which the order
matters, and only names with several components have such a way. -/

namespace DocTypes

/-- Lists that correspond leave as many members when the same are dropped. -/
theorem length_filterMap_of_forall₂ {α β γ δ : Type} {R : α → β → Prop} {f : α → Option γ}
    {g : β → Option δ} {l : List α} {l' : List β} (h : List.Forall₂ R l l')
    (hfg : ∀ a b, R a b → (f a).isSome = (g b).isSome) :
    (l.filterMap f).length = (l'.filterMap g).length := by
  induction h with
  | nil => rfl
  | cons hab _ ih =>
    have hsome := hfg _ _ hab
    rw [List.filterMap_cons, List.filterMap_cons]
    split <;> split <;> simp_all

namespace Corpus
open Declaration (ClearWay)
open EntityKind (Walks)

variable {c c' : Corpus} {id p inner inner' outer outer' found scope : EntityId} {e : Entity}
variable {name : Text} {ds ds' : List Declaration}

/-! ## The way up -/

/-- The way up from a namespace leads through namespaces with shorter and shorter ways, and ends at
the root. -/
theorem Orderly.upToRoot_lineage (h : c.Orderly) (hid : c.isNamespaceAt id = true) :
    c.upToRoot (c.lineage id) = c.lineage id := by
  induction id using Nat.strongRecOn with
  | ind id ih =>
    by_cases hroot : id = rootId
    · rw [hroot, lineage_root h.rooted, upToRoot, upToRoot]
      split <;> rfl
    · obtain ⟨e, p, he, hp, hlt, hparent, -, -⟩ := h.exists_parent hid hroot
      have hkind : c.isRootAt id = false := by
        rw [isRootAt, he, Bool.eq_false_iff]
        exact fun hkind => hroot (h.one_root id e he (beq_iff_eq.mp hkind))
      rw [lineage_eq_cons h.rooted he hp, upToRoot, hkind, ih p hlt hparent]
      rfl

/-- Whether two namespaces of two corpora have the same way, and it is the beginning of a given
one. -/
structure SameWay (c c' : Corpus) (way : List Text) (outer outer' : EntityId) : Prop where
  left : c.isNamespaceAt outer = true
  right : c'.isNamespaceAt outer' = true
  trail : c'.trail outer' = c.trail outer
  prefix_way : c.trail outer <+: way

theorem Orderly.eq_root_iff_of_trail (h : c.Orderly) (h' : c'.Orderly)
    (hinner : c.isNamespaceAt inner = true) (hinner' : c'.isNamespaceAt inner' = true)
    (htrail : c'.trail inner' = c.trail inner) : inner' = rootId ↔ inner = rootId := by
  rw [← h'.trail_eq_nil_iff hinner', htrail, h.trail_eq_nil_iff hinner]

/-- **The ways up from two namespaces with the same way have the same ways.** -/
theorem forall₂_lineage (h : c.Orderly) (h' : c'.Orderly) (hinner : c.isNamespaceAt inner = true)
    (hinner' : c'.isNamespaceAt inner' = true) (htrail : c'.trail inner' = c.trail inner) :
    List.Forall₂ (SameWay c c' (c.trail inner)) (c.lineage inner) (c'.lineage inner') := by
  induction inner using Nat.strongRecOn generalizing inner' with
  | ind inner ih =>
    have hhead : SameWay c c' (c.trail inner) inner inner' :=
      ⟨hinner, hinner', htrail, List.prefix_refl _⟩
    have hroots := h.eq_root_iff_of_trail h' hinner hinner' htrail
    by_cases hroot : inner = rootId
    · have hlineage : c.lineage inner = [inner] := by rw [hroot, lineage_root h.rooted]
      have hlineage' : c'.lineage inner' = [inner'] := by
        rw [hroots.mpr hroot, lineage_root h'.rooted]
      rw [hlineage, hlineage']
      exact .cons hhead .nil
    · have hroot' : inner' ≠ rootId := fun hroot' => hroot (hroots.mp hroot')
      obtain ⟨e, p, he, hp, hlt, hparent, -, hsplit⟩ := h.exists_parent hinner hroot
      obtain ⟨e', p', he', hp', -, hparent', -, hsplit'⟩ := h'.exists_parent hinner' hroot'
      rw [lineage_eq_cons h.rooted he hp, lineage_eq_cons h'.rooted he' hp']
      refine .cons hhead ?_
      rw [hsplit, hsplit'] at htrail
      refine (ih p hlt hparent hparent' (List.append_inj' htrail rfl).1).imp fun _ _ hsame => ?_
      exact ⟨hsame.left, hsame.right, hsame.trail,
        hsplit ▸ hsame.prefix_way.trans (List.prefix_append _ _)⟩

/-- Namespaces with the same way have the same path. -/
theorem Orderly.path_eq_of_trail (h : c.Orderly) (h' : c'.Orderly)
    (hinner : c.isNamespaceAt inner = true) (hinner' : c'.isNamespaceAt inner' = true)
    (htrail : c'.trail inner' = c.trail inner) : c'.path inner' = c.path inner := by
  have hroots := h.eq_root_iff_of_trail h' hinner hinner' htrail
  by_cases hroot : inner = rootId
  · rw [hroots.mpr hroot, hroot, path_root h.rooted, path_root h'.rooted]
  · have hroot' : inner' ≠ rootId := fun hroot' => hroot (hroots.mp hroot')
    rw [(h.words_trail hinner hroot).2, (h'.words_trail hinner' hroot').2, htrail]

/-! ## What a name leads to -/

theorem walks_isNameStep : Walks isNameStep .methodDef := by
  refine ⟨rfl, fun kind => ?_⟩
  cases kind <;> decide

section Names

variable (hds : ∀ d ∈ ds, d.Named ∧ d.kind ≠ .root) {init : List Text} {last : Text}

include hds

/-- A name leads somewhere when the corpus holds its last component there and the way is clear. -/
theorem isSome_descend?_iff (houter : (ofDeclarations ds).isNamespaceAt outer = true) :
    ((ofDeclarations ds).descend? isNameStep outer (init ++ [last])).isSome = true ↔
      ClearWay ds .methodDef ((ofDeclarations ds).trail outer) init ∧
        (ofDeclarations ds).Has ((ofDeclarations ds).trail outer ++ init) last isNameStep := by
  rw [descend?_concat]
  exact isSome_walk_iff hds walks_isNameStep houter

/-- From two places a name does not lead to the same path. -/
theorem outer_eq_of_path {other found' : EntityId}
    (hfound : (ofDeclarations ds).descend? isNameStep outer (init ++ [last]) = some found)
    (hfound' : (ofDeclarations ds).descend? isNameStep other (init ++ [last]) = some found')
    (hpath : (ofDeclarations ds).path found = (ofDeclarations ds).path found') : outer = other := by
  have h := orderly_ofDeclarations hds
  rw [descend?_concat] at hfound hfound'
  obtain ⟨houter, e, p, he, hp, htrail, hname, -⟩ :=
    exists_of_walk hds walks_isNameStep hfound
  obtain ⟨hother, e', p', he', hp', htrail', hname', -⟩ :=
    exists_of_walk hds walks_isNameStep hfound'
  rw [h.path_eq_memberPath he hp, h.path_eq_memberPath he' hp', hname, hname'] at hpath
  have howners := owners_eq_of_memberPath (h.isWord_of_mem_trail (h.parent_lt he hp).2)
    (h.isWord_of_mem_trail (h.parent_lt he' hp').2) hpath
  rw [htrail, htrail'] at howners
  exact h.eq_of_trail houter hother (List.append_cancel_right howners)

/-- The paths that a name leads to are counted once each. -/
theorem nodup_lexicalPaths (scope : EntityId) (name : Text) :
    ((ofDeclarations ds).lexicalPaths scope name).Nodup := by
  have h := orderly_ofDeclarations hds
  have hsplit := (List.dropLast_concat_getLast (Name.components_ne_nil name)).symm
  cases he : (ofDeclarations ds).entity? scope with
  | none =>
    rw [lexicalPaths, nesting_of_none he]
    exact List.nodup_nil
  | some e =>
    obtain ⟨inner, hinner, hnesting, -⟩ := exists_nesting_eq h.toWellFormed he
    obtain ⟨ie, hie, -⟩ := isNamespaceAt_iff.mp hinner
    rw [lexicalPaths, hnesting, h.upToRoot_lineage hinner, hsplit]
    have hnodup : ((ofDeclarations ds).lineage inner).Nodup :=
      (pairwise_lineage h.rooted hie).imp Nat.ne_of_gt
    refine hnodup.filterMap fun outer other path hpath hpath' => ?_
    obtain ⟨found, hfound, rfl⟩ := Option.map_eq_some_iff.mp hpath
    obtain ⟨found', hfound', hsame⟩ := Option.map_eq_some_iff.mp hpath'
    exact outer_eq_of_path hds hfound hfound' hsame.symm

end Names

/-! ## Scopes -/

/-- Two scopes of two corpora, of the same kind and with the same path, stand in namespaces with the
same way. -/
theorem exists_namespaces (hds : ∀ d ∈ ds, d.Worded) (hds' : ∀ d ∈ ds', d.Worded)
    {scope' : EntityId} {e' : Entity} (he : (ofDeclarations ds).entity? scope = some e)
    (he' : (ofDeclarations ds').entity? scope' = some e') (hkind : e'.kind = e.kind)
    (hpath : (ofDeclarations ds').path scope' = (ofDeclarations ds).path scope) :
    ∃ inner inner', (ofDeclarations ds).isNamespaceAt inner = true ∧
      (ofDeclarations ds').isNamespaceAt inner' = true ∧
      (ofDeclarations ds').trail inner' = (ofDeclarations ds).trail inner ∧
      (ofDeclarations ds).nesting scope = (ofDeclarations ds).lineage inner ∧
      (ofDeclarations ds').nesting scope' = (ofDeclarations ds').lineage inner' := by
  have h := orderly_ofDeclarations fun d hd => (hds d hd).named
  have h' := orderly_ofDeclarations fun d hd => (hds' d hd).named
  have hnamespaces : (ofDeclarations ds').isNamespaceAt scope' =
      (ofDeclarations ds).isNamespaceAt scope := by
    rw [isNamespaceAt_of_entity he, isNamespaceAt_of_entity he', hkind]
  by_cases hscope : (ofDeclarations ds).isNamespaceAt scope = true
  · have hscope' := hnamespaces.trans hscope
    refine ⟨scope, scope', hscope, hscope', ?_, nesting_of_isNamespaceAt h.toWellFormed hscope,
      nesting_of_isNamespaceAt h'.toWellFormed hscope'⟩
    simp only [trail, isRootAt, he, he', hkind, hpath]
  · have hscope' : (ofDeclarations ds').isNamespaceAt scope' ≠ true := hnamespaces ▸ hscope
    have hleaf : e.kind.isNamespace = false := by
      rw [isNamespaceAt_of_entity he] at hscope
      exact Bool.eq_false_iff.mpr hscope
    have hroot : e.kind ≠ .root := by
      intro hroot
      rw [hroot] at hleaf
      cases hleaf
    obtain ⟨p, hp, -, hparent⟩ := h.parent scope e he (h.ne_root he hroot)
    obtain ⟨p', hp', -, hparent'⟩ := h'.parent scope' e' he' (h'.ne_root he' (hkind ▸ hroot))
    have hfits' := nameFits hds' he' hp'
    rw [h.path_eq_memberPath he hp, h'.path_eq_memberPath he' hp', hkind] at hpath
    rw [hkind] at hfits'
    obtain ⟨htrail, -⟩ := memberPath_injective (h'.isWord_of_mem_trail hparent')
      (h.isWord_of_mem_trail hparent) hfits' (nameFits hds he hp) hpath
    exact ⟨p, p', hparent, hparent', htrail, nesting_of_parent h.toWellFormed he hp hscope,
      nesting_of_parent h'.toWellFormed he' hp' hscope'⟩

/-! ## Permutations -/

section Permutation

variable (hds : ∀ d ∈ ds, d.Named ∧ d.kind ≠ .root) (hperm : ds.Perm ds')

include hds hperm

/-- **Every scope has its counterpart**, of the same kind and with the same path. -/
theorem exists_scope_of_perm (he : (ofDeclarations ds).entity? scope = some e) :
    ∃ scope' e', (ofDeclarations ds').entity? scope' = some e' ∧ e'.kind = e.kind ∧
      (ofDeclarations ds').path scope' = (ofDeclarations ds).path scope := by
  have h := orderly_ofDeclarations hds
  have h' : (ofDeclarations ds').Orderly :=
    orderly_ofDeclarations fun d hd => hds d (hperm.mem_iff.mpr hd)
  by_cases hroot : scope = rootId
  · obtain ⟨root, hentity, hkind, -⟩ := h.root
    obtain ⟨root', hentity', hkind', -⟩ := h'.root
    obtain rfl : e = root := Option.some.inj (he.symm.trans (hroot ▸ hentity))
    refine ⟨rootId, root', hentity', hkind'.trans hkind.symm, ?_⟩
    rw [hroot, path_root h.rooted, path_root h'.rooted]
  · obtain ⟨p, hp, -⟩ := h.parent scope e he hroot
    have hhas : (ofDeclarations ds).Has ((ofDeclarations ds).trail p) e.name (· == e.kind) :=
      ⟨scope, e, p, he, hp, rfl, rfl, beq_self_eq_true _⟩
    obtain ⟨scope', e', p', he', hp', htrail, hname, hkind⟩ :=
      (has_kind_congr hds fun _ => hperm.mem_iff).mpr hhas
    refine ⟨scope', e', he', beq_iff_eq.mp hkind, ?_⟩
    rw [h.path_eq_memberPath he hp, h'.path_eq_memberPath he' hp', htrail, hname,
      beq_iff_eq.mp hkind]

/-- As many paths are led to from scopes with the same ways around them. -/
theorem length_lexicalPaths_of_perm {scope' : EntityId}
    (hinner : (ofDeclarations ds).isNamespaceAt inner = true)
    (hinner' : (ofDeclarations ds').isNamespaceAt inner' = true)
    (htrail : (ofDeclarations ds').trail inner' = (ofDeclarations ds).trail inner)
    (hnesting : (ofDeclarations ds).nesting scope = (ofDeclarations ds).lineage inner)
    (hnesting' : (ofDeclarations ds').nesting scope' = (ofDeclarations ds').lineage inner')
    (hclear : ∀ way, way <+: (ofDeclarations ds).trail inner →
      (ClearWay ds' .methodDef way (Name.components name).dropLast ↔
        ClearWay ds .methodDef way (Name.components name).dropLast)) :
    ((ofDeclarations ds').lexicalPaths scope' name).length =
      ((ofDeclarations ds).lexicalPaths scope name).length := by
  have hds' : ∀ d ∈ ds', d.Named ∧ d.kind ≠ .root := fun d hd => hds d (hperm.mem_iff.mpr hd)
  have h := orderly_ofDeclarations hds
  have h' := orderly_ofDeclarations hds'
  rw [lexicalPaths, lexicalPaths, hnesting, hnesting', h.upToRoot_lineage hinner,
    h'.upToRoot_lineage hinner', ← List.dropLast_concat_getLast (Name.components_ne_nil name)]
  symm
  refine length_filterMap_of_forall₂ (forall₂_lineage h h' hinner hinner' htrail) ?_
  intro outer outer' hsame
  rw [Option.isSome_map, Option.isSome_map, Bool.eq_iff_iff,
    isSome_descend?_iff hds hsame.left, isSome_descend?_iff hds' hsame.right, hsame.trail,
    hclear _ hsame.prefix_way,
    has_congr hds (fun _ => hperm.mem_iff) walks_isNameStep.steady.upward]

end Permutation

/-- **Whether a name resolves does not depend on the order of the declarations**, as long as no
method comes first on the way in one order only.  In two lists of the same declarations, made of
words, every scope of the one has its counterpart in the other, of the same kind and with the same
path.  In both of them a name resolves or in neither, if from every namespace around the scope the
way through the components before its last is clear in both or in neither. -/
theorem resolves_perm (hds : ∀ d ∈ ds, d.Worded) (hperm : ds.Perm ds')
    (he : (ofDeclarations ds).entity? scope = some e) :
    (∃ scope' e', (ofDeclarations ds').entity? scope' = some e' ∧ e'.kind = e.kind ∧
        (ofDeclarations ds').path scope' = (ofDeclarations ds).path scope) ∧
      ∀ scope' e', (ofDeclarations ds').entity? scope' = some e' → e'.kind = e.kind →
        (ofDeclarations ds').path scope' = (ofDeclarations ds).path scope →
          ∀ version name,
            (∀ way, way <+: (ofDeclarations ds).trail ((ofDeclarations ds).namespaceOf scope) →
              (ClearWay ds' .methodDef way (Name.components name).dropLast ↔
                ClearWay ds .methodDef way (Name.components name).dropLast)) →
            (ofDeclarations ds').resolves version scope' name =
              (ofDeclarations ds).resolves version scope name := by
  have hspelled : ∀ d ∈ ds, d.Named ∧ d.kind ≠ .root := fun d hd => (hds d hd).named
  have hds' : ∀ d ∈ ds', d.Worded := fun d hd => hds d (hperm.mem_iff.mpr hd)
  refine ⟨exists_scope_of_perm hspelled hperm he, ?_⟩
  intro scope' e' he' hkind hpath version name hclear
  have h := orderly_ofDeclarations hspelled
  have h' := orderly_ofDeclarations fun d hd => (hds' d hd).named
  obtain ⟨inner, inner', hinner, hinner', htrail, hnesting, hnesting'⟩ :=
    exists_namespaces hds hds' he he' hkind hpath
  have hplace := namespaceOf_eq h.toWellFormed hnesting hinner
  have hplace' := namespaceOf_eq h'.toWellFormed hnesting' hinner'
  rw [hplace] at hclear
  have henclosing : (ofDeclarations ds').isEnclosing scope' name =
      (ofDeclarations ds).isEnclosing scope name := by
    rw [isEnclosing, isEnclosing, hplace, hplace', h.path_eq_of_trail h' hinner hinner' htrail]
  have hlength :=
    length_lexicalPaths_of_perm hspelled hperm hinner hinner' htrail hnesting hnesting' hclear
  have hempty : ∀ paths : List Text, paths.isEmpty = (paths.length == 0) := by
    intro paths
    cases paths <;> rfl
  simp only [resolves, henclosing, hempty, hlength,
    eraseDups_of_nodup (nodup_lexicalPaths hspelled scope name),
    eraseDups_of_nodup (nodup_lexicalPaths (fun d hd => (hds' d hd).named) scope' name)]

/-- A class and a method beside it, in either order. -/
theorem resolves_perm_swap :
    let ds : List Declaration := [⟨.classDef, "A::B"⟩, ⟨.methodDef, "A#run"⟩]
    let ds' : List Declaration := [⟨.methodDef, "A#run"⟩, ⟨.classDef, "A::B"⟩]
    (ofDeclarations ds).resolves .default 2 "A::B" = true ∧
      (ofDeclarations ds').resolves .default 3 "A::B" =
        (ofDeclarations ds).resolves .default 2 "A::B" := by
  intro ds ds'
  have hperm : ds.Perm ds' := .swap _ _ _
  have hfacts : (∀ d ∈ ds, d.Worded) ∧
      (ofDeclarations ds).resolves .default 2 "A::B" = true ∧
      (ofDeclarations ds).entity? 2 = some ⟨"B", .classDef, some 1, []⟩ ∧
      (ofDeclarations ds').entity? 3 = some ⟨"B", .classDef, some 1, []⟩ ∧
      (ofDeclarations ds').path 3 = (ofDeclarations ds).path 2 ∧
      (ofDeclarations ds).trail ((ofDeclarations ds).namespaceOf 2) = [['A'], ['B']] ∧
      (Name.components "A::B").dropLast = [['A']] := by
    decide +kernel
  obtain ⟨hds, hresolves, he, he', hpath, htrail, hinit⟩ := hfacts
  have hfree : ∀ way ∈ List.inits [['A'], ['B']], ∀ d ∈ ds, d.kind = .methodDef →
      ¬d.owners ++ [d.name] <+: way ++ [['A']] := by
    decide +kernel
  obtain ⟨-, hsame⟩ := resolves_perm hds hperm he
  refine ⟨hresolves, hsame 3 _ he' rfl hpath .default "A::B" fun way hway => ?_⟩
  rw [htrail] at hway
  rw [hinit]
  have hclear := hfree way ((List.mem_inits _ _).mpr hway)
  have hclear' : ∀ d ∈ ds', d.kind = .methodDef → ¬d.owners ++ [d.name] <+: way ++ [['A']] :=
    fun d hd => hclear d (hperm.mem_iff.mpr hd)
  exact iff_of_true (Declaration.clearWay_of_forall rfl hclear')
    (Declaration.clearWay_of_forall rfl hclear)

/-- A method that is declared before a module of its name stands in the way of everything in the
module, and one that is declared after it does not. -/
theorem resolves_order_matters :
    let ds : List Declaration := [⟨.methodDef, "#A"⟩, ⟨.classDef, "A::B"⟩]
    let ds' : List Declaration := [⟨.classDef, "A::B"⟩, ⟨.methodDef, "#A"⟩]
    ds.Perm ds' ∧ (∀ d ∈ ds, d.Worded) ∧
      (ofDeclarations ds).resolves .default rootId "A::B" = false ∧
        (ofDeclarations ds').resolves .default rootId "A::B" = true := by
  intro ds ds'
  refine ⟨.swap _ _ _, ?_⟩
  decide +kernel

end Corpus
end DocTypes
