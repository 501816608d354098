import DocTypes.Proofs.Corpus.Rebuilding
import DocTypes.Proofs.Corpus.Walk

/-! # Methods and their paths

The path of a method leads back to it, if the method is below a namespace and no constant stands
beside a namespace of the same name on the way (`find?_path_of_method`).  The words on the way to a
namespace are followed one by one, and at each there is one child to go to (`descend?_trail`).

A method at the top level is different.  Its path is its name alone, without the number sign that
tells methods from everything else, so that what is found there is no method.  With the number
sign put in front of it, the method is found. -/

namespace DocTypes
namespace Corpus

/-- No constant is called like a namespace beside it. -/
def ConstantsApart (c : Corpus) : Prop :=
  ∀ e ∈ c.entities.toList, ∀ e' ∈ c.entities.toList, e.parent = e'.parent →
    e.kind = .constantDef → e'.kind.isNamespace = true → e.name ≠ e'.name

instance (c : Corpus) : Decidable c.ConstantsApart :=
  inferInstanceAs (Decidable (∀ e ∈ c.entities.toList, ∀ e' ∈ c.entities.toList, _))

variable {c : Corpus} {id p : EntityId} {e : Entity} {accepts : EntityKind → Bool}

theorem mem_entities (he : c.entity? id = some e) : e ∈ c.entities.toList :=
  Array.mem_toList_iff.mpr (Array.mem_of_getElem? he)

/-! ## One step down -/

/-- A child is found by its name if no other child of the name is of a kind that is looked for, but
for those that would be merged with it. -/
theorem Orderly.child?_of_parent (h : c.Orderly) (he : c.entity? id = some e)
    (hp : e.parent = some p) (haccepts : accepts e.kind = true)
    (hmerges : ∀ id' e', c.entity? id' = some e' → e'.parent = some p → e'.name = e.name →
      accepts e'.kind = true → e'.kind.merges e.kind = true) :
    c.child? p e.name accepts = some id := by
  have hsome : (c.child? p e.name accepts).isSome = true := by
    refine List.find?_isSome.mpr ⟨id, h.listed id e p he hp, ?_⟩
    simp [isCalled, he, haccepts]
  obtain ⟨found, hfound⟩ := Option.isSome_iff_exists.mp hsome
  obtain ⟨e', he', hp', hname, haccepts'⟩ := h.rooted.exists_of_child? hfound
  rw [hfound, h.apart found id e' e he' he (hp'.trans hp.symm) hname
    (hmerges found e' he' hp' hname haccepts')]

/-- A method is found among the methods of its parent. -/
theorem Orderly.child?_method (h : c.Orderly) (he : c.entity? id = some e)
    (hp : e.parent = some p) (hmethod : e.kind = .methodDef) :
    c.child? p e.name (· == .methodDef) = some id := by
  refine h.child?_of_parent he hp (beq_iff_eq.mpr hmethod) fun id' e' _ _ _ haccepts => ?_
  rw [hmethod, beq_iff_eq.mp haccepts]
  exact EntityKind.merges_self _

/-! ## All the way down -/

/-- **The words on the way to a namespace lead to it.** -/
theorem Orderly.descend?_trail (h : c.Orderly) (hapart : c.ConstantsApart)
    (hp : c.isNamespaceAt p = true) : c.descend? isPathStep rootId (c.trail p) = some p := by
  induction p using Nat.strongRecOn with
  | ind p ih =>
    by_cases hroot : p = rootId
    · rw [(h.trail_eq_nil_iff hp).mpr hroot, hroot]
      rfl
    · obtain ⟨e, q, he, hq, hlt, hqNamespace, hnamespace, htrail⟩ := h.exists_parent hp hroot
      have hstep : isPathStep e.kind = true := by
        have hkind : e.kind ≠ .root := fun hkind => hroot (h.one_root p e he hkind)
        cases hkinds : e.kind with
        | root => exact absurd hkinds hkind
        | moduleDef | classDef => rfl
        | methodDef | constantDef =>
          rw [hkinds] at hnamespace
          cases hnamespace
      have hchild : c.child? q e.name isPathStep = some p := by
        refine h.child?_of_parent he hq hstep fun id' e' he' hq' hname hstep' => ?_
        refine EntityKind.merges_iff.mpr (Or.inr ⟨hnamespace, ?_⟩)
        cases hkind : e'.kind with
        | moduleDef | classDef => rfl
        | root | methodDef =>
          rw [hkind] at hstep'
          cases hstep'
        | constantDef =>
          have hother := hapart e' (mem_entities he') e (mem_entities he) (hq'.trans hq.symm) hkind
          exact absurd hname (hother hnamespace)
      rw [htrail, descend?_concat, ih q hlt hqNamespace]
      exact hchild

/-! ## Paths of methods -/

/-- What stands after a number sign is looked for among methods. -/
theorem find?_numberSign {name : Text} (hname : '#' ∉ name) :
    c.find? ('#' :: name) = c.child? rootId name (· == .methodDef) := by
  have hfree : ∀ d ∈ name, (d == '#') = false := by
    intro d hd
    rw [beq_eq_false_iff_ne]
    rintro rfl
    exact hname hd
  have hdrop : Text.dropLead ('#' :: name) Name.separator = '#' :: name := by
    rcases Name.dropLead_separator ('#' :: name) with ⟨rest, hsplit, -⟩ | hsame
    · cases hsplit
    · exact hsame
  have hcut : Text.cutAtLast? (· == '#') ('#' :: name) = some ([], name) :=
    Text.cutAtLast?_append rfl hfree []
  rw [find?, hdrop]
  simp only [hcut]
  rfl

/-- A method below others is looked for at the end of their way. -/
theorem find?_memberPath {owners : List Text} {name : Text}
    (howners : ∀ w ∈ owners, Name.isWord w = true) (hne : owners ≠ []) (hsign : '#' ∉ name)
    (hcolon : ':' ∉ name) :
    c.find? (memberPath owners name .methodDef) =
      (c.descend? isPathStep rootId owners).bind (c.child? · name (· == .methodDef)) := by
  rw [find?, dropLead_memberPath howners hcolon]
  simp only [cutAtLast?_memberPath hsign, if_neg hne, Name.properComponents_join ⟨hne, howners⟩]
  rfl

/-- What is found at a name alone is the root or of a kind that a path leads through. -/
theorem Orderly.find?_name_ne (h : c.Orderly) (he : c.entity? id = some e) (hp : e.parent = some p)
    (hmethod : e.kind = .methodDef) {name : Text} (hsign : '#' ∉ name) (hcolon : ':' ∉ name) :
    c.find? name ≠ some id := by
  intro hfound
  have hpath : memberPath [] name .methodDef = name := if_pos rfl
  have hdrop : (memberPath [] name .methodDef).dropLead Name.separator =
      memberPath [] name .methodDef := dropLead_memberPath (by simp) hcolon
  have hcut : (memberPath [] name .methodDef).cutAtLast? (· == '#') = none := by
    rw [cutAtLast?_memberPath hsign, if_pos rfl]
  rw [hpath] at hdrop hcut
  rw [find?, hdrop] at hfound
  simp only [hcut] at hfound
  by_cases hempty : name = []
  · rw [hempty] at hfound
    cases hfound
    exact h.rooted.ne_root_of_parent he hp rfl
  · rw [Name.properComponents_of_colon_not_mem hcolon hempty, descend?] at hfound
    cases hchild : c.child? rootId name isPathStep with
    | none =>
      rw [hchild] at hfound
      cases hfound
    | some other =>
      rw [hchild] at hfound
      cases hfound
      obtain ⟨-, e', he', -, hstep⟩ := child?_eq_some hchild
      obtain rfl := Option.some.inj (he.symm.trans he')
      rw [hmethod] at hstep
      cases hstep

variable {ds : List Declaration}

/-- **The path of a method leads back to it exactly when the method is below a namespace**, in the
corpus of a list with words for the components of its paths, with no colon in the name of a method,
and with no constant called like a namespace beside it.  A method at the top level has its name for
its path, and is found when the number sign is put in front of that. -/
theorem find?_path_of_method
    (hds : ∀ d ∈ ds, d.Named ∧ d.kind ≠ .root ∧ (d.kind = .methodDef → ':' ∉ d.name))
    (hapart : (ofDeclarations ds).ConstantsApart) (he : (ofDeclarations ds).entity? id = some e)
    (hmethod : e.kind = .methodDef) :
    let c := ofDeclarations ds
    (c.find? (c.path id) = some id ↔ e.parent ≠ some rootId) ∧
      (e.parent = some rootId → c.path id = e.name ∧ c.find? ('#' :: c.path id) = some id) := by
  intro c
  have hnamed : ∀ d ∈ ds, d.Named ∧ d.kind ≠ .root := fun d hd => ⟨(hds d hd).1, (hds d hd).2.1⟩
  have h : c.Orderly := orderly_ofDeclarations hnamed
  have hroot : id ≠ rootId := h.ne_root he (by rw [hmethod]; exact EntityKind.noConfusion)
  obtain ⟨p, hp, -, hparent⟩ := h.parent id e he hroot
  -- The name is that of a declaration, which says what cannot be in it.
  obtain ⟨d, hd, hkind, hname⟩ := exists_declaration hnamed he hp (by rw [hmethod]; rfl)
  have hsign : '#' ∉ e.name := hname ▸ Declaration.numberSign_not_mem_name (hkind.trans hmethod)
  have hcolon : ':' ∉ e.name := hname ▸ (hds d hd).2.2 (hkind.trans hmethod)
  have hpath : c.path id = memberPath (c.trail p) e.name .methodDef := by
    rw [h.path_eq_memberPath he hp, hmethod]
  have hchild : c.child? p e.name (· == .methodDef) = some id := h.child?_method he hp hmethod
  by_cases htop : p = rootId
  · have hsame : c.path id = e.name := by
      rw [hpath, htop, h.trail_root, memberPath, if_pos rfl]
    have hparentRoot : e.parent = some rootId := htop ▸ hp
    refine ⟨iff_of_false ?_ (fun hne => hne hparentRoot), fun _ => ⟨hsame, ?_⟩⟩
    · rw [hsame]
      exact h.find?_name_ne he hp hmethod hsign hcolon
    · rw [hsame, find?_numberSign hsign, ← htop]
      exact hchild
  · have hbelow : e.parent ≠ some rootId := by
      rw [hp]
      exact fun heq => htop (Option.some.inj heq)
    refine ⟨iff_of_true ?_ hbelow, fun hparentRoot => absurd hparentRoot hbelow⟩
    have hne : c.trail p ≠ [] := fun hnil => htop ((h.trail_eq_nil_iff hparent).mp hnil)
    rw [hpath, find?_memberPath (h.isWord_of_mem_trail hparent) hne hsign hcolon,
      h.descend?_trail hapart hparent]
    exact hchild

/-- A method of a class with a constant beside it, and one of the same name at the top level. -/
theorem find?_path_of_method_below :
    let ds : List Declaration := [⟨.classDef, "A::B"⟩, ⟨.methodDef, "A::B#run"⟩,
      ⟨.constantDef, "A::LIMIT"⟩, ⟨.methodDef, "#run"⟩]
    let c := ofDeclarations ds
    ((∀ d ∈ ds, d.Named ∧ d.kind ≠ .root ∧ (d.kind = .methodDef → ':' ∉ d.name)) ∧
      c.ConstantsApart) ∧
      (c.path 3 = "A::B#run".toList ∧ c.find? "A::B#run" = some 3) ∧
      c.path 5 = "run".toList ∧ c.find? "#run" = some 5 := by
  intro ds c
  have hlist : (∀ d ∈ ds, d.Named ∧ d.kind ≠ .root ∧ (d.kind = .methodDef → ':' ∉ d.name)) ∧
      c.ConstantsApart := by decide +kernel
  have hbelow : c.entity? 3 = some ⟨"run", .methodDef, some 2, []⟩ := by decide +kernel
  have htop : c.entity? 5 = some ⟨"run", .methodDef, some rootId, []⟩ := by decide +kernel
  have hpath : c.path 3 = "A::B#run".toList := by decide +kernel
  obtain ⟨hfound, -⟩ := find?_path_of_method hlist.1 hlist.2 hbelow rfl
  obtain ⟨-, hsign⟩ := find?_path_of_method hlist.1 hlist.2 htop rfl
  obtain ⟨hname, hmethod⟩ := hsign rfl
  refine ⟨hlist, ⟨hpath, ?_⟩, hname, ?_⟩
  · exact hpath ▸ hfound.mpr (by decide)
  · rw [hname] at hmethod
    exact hmethod

/-- Nothing is found at the path of a method that is declared at the top level. -/
theorem find?_path_of_method_topLevel :
    let source : Text := "method #run\n"
    let ds : List Declaration := [⟨.methodDef, "#run"⟩]
    let c := ofDeclarations ds
    (Declaration.parse source = .ok ds ∧ parse source = .ok c) ∧
      ((∀ d ∈ ds, d.Named ∧ d.kind ≠ .root ∧ (d.kind = .methodDef → ':' ∉ d.name)) ∧
        c.ConstantsApart) ∧
      c.entity? 1 = some ⟨"run", .methodDef, some rootId, []⟩ ∧
      c.path 1 = "run".toList ∧ c.find? (c.path 1) = none := by
  intro source ds c
  refine ⟨⟨rfl, rfl⟩, ?_⟩
  decide +kernel

end Corpus
end DocTypes
