import DocTypes.Proofs.Corpus.MemberPath
import DocTypes.Proofs.Corpus.Walk

/-! # Declared paths and how they are looked up

A path that was declared is looked up by the walk through its owners and one step further
(`Corpus.find?_eq`).  Declaring goes through namespaces only, and looking up takes the first thing
of a name that is no method.  So the two meet unless a constant was declared before the first
namespace of its name on the way; then the lookup ends at the constant and finds nothing.  Where it
finds something, that has the path of what was declared (`Corpus.find?_declared`).

A constant may be called by anything, even by a name with a number sign.  Such a path reads as that
of a method, and it is never the constant that is found there. -/

namespace DocTypes

/-! ## Paths in declaration lists -/

theorem EntityKind.ofKeyword?_ne_root {word : Text} {kind : EntityKind}
    (h : ofKeyword? word = some kind) : kind ≠ .root := by
  rintro rfl
  unfold ofKeyword? at h
  split at h
  · cases h
  split at h
  · cases h
  split at h
  · cases h
  split at h <;> cases h

namespace Declaration

variable {d : Declaration} {ds : List Declaration} {line source : Text}

/-- A path all of whose components are empty is an empty path. -/
theorem isEmptyPath_of_properComponents {t : Text} (h : Name.properComponents t = []) :
    isEmptyPath t = true := by
  fun_induction isEmptyPath t with
  | case1 => rfl
  | case2 cs ih => exact ih h
  | case3 t hnil hstart =>
    -- The first component begins with the first character, which no separator has taken.
    cases t with
    | nil => exact absurd rfl hnil
    | cons c cs =>
      obtain ⟨piece, hpiece⟩ := Text.exists_mem_consFirst c (Name.components cs)
      have hcomponents : Name.components (c :: cs) = Text.consFirst c (Name.components cs) := by
        rw [Name.components]
        rintro cs' rfl rfl
        exact hstart cs' rfl
      have hmem : c :: piece ∈ Name.properComponents (c :: cs) :=
        List.mem_filter.mpr ⟨hcomponents ▸ hpiece, rfl⟩
      rw [h] at hmem
      cases hmem

theorem ofLine?_eq_some (h : ofLine? line = .ok (some d)) :
    d.kind ≠ .root ∧ isEmptyPath d.path = false := by
  unfold ofLine? at h
  dsimp only at h
  split at h
  · cases h
  split at h
  · split at h
    · cases h
    · next kind hkind =>
      split at h
      · cases h
      · next hempty =>
        cases h
        exact ⟨EntityKind.ofKeyword?_ne_root hkind, Bool.eq_false_iff.mpr hempty⟩
  · cases h

/-- What a list declares is no root, and has a path. -/
theorem forall_of_parse (h : parse source = .ok ds) :
    ∀ d ∈ ds, d.kind ≠ .root ∧ isEmptyPath d.path = false := by
  have hlines : ∀ (lines : List Text) (number : Nat) (ds : List Declaration),
      ofLines number lines = .ok ds → ∀ d ∈ ds, d.kind ≠ .root ∧ isEmptyPath d.path = false := by
    intro lines
    induction lines with
    | nil =>
      intro number ds h d hd
      cases h
      cases hd
    | cons line lines ih =>
      intro number ds h d hd
      rw [ofLines] at h
      split at h
      · cases h
      · next declared hline =>
        split at h
        · cases h
        · next rest hrest =>
          cases h
          rcases List.mem_append.mp hd with hd | hd
          · obtain rfl : declared = some d := Option.mem_toList.mp hd
            exact ofLine?_eq_some hline
          · exact ih (number + 1) rest hrest d hd
  exact hlines source.lines 1 ds h

/-- What is no method is named by the last component of its path, and the others own it. -/
theorem properComponents_eq (hkind : d.kind ≠ .methodDef)
    (hne : Name.properComponents (d.path.dropLead Name.separator) ≠ []) :
    Name.properComponents (d.path.dropLead Name.separator) = d.owners ++ [d.name] := by
  rw [Name.properComponents_dropLead] at hne ⊢
  rw [owners, name, Corpus.ownerAndName_of_ne_method hkind, List.getLast?_eq_some_getLast hne]
  exact (List.dropLast_concat_getLast hne).symm

/-- What a number sign in a path belongs to, if the path is made of words, is its last component. -/
theorem numberSign_mem_name (howners : ∀ w ∈ d.owners, Name.isWord w = true)
    (hkind : d.kind ≠ .methodDef) (hmem : '#' ∈ d.path) : '#' ∈ d.name := by
  have hnumberSign : '#' ∈ d.path.dropLead Name.separator :=
    (Name.mem_dropLead_separator (by decide)).mpr hmem
  obtain ⟨w, hw, hmemWord⟩ := Name.exists_component_of_mem hnumberSign (by decide)
  have hproper : w ∈ Name.properComponents (d.path.dropLead Name.separator) := by
    refine List.mem_filter.mpr ⟨hw, ?_⟩
    cases w with
    | nil => cases hmemWord
    | cons => rfl
  rw [properComponents_eq hkind (List.ne_nil_of_mem hproper)] at hproper
  rcases List.mem_append.mp hproper with howner | hname
  · have hpart := Name.isWordPart_of_mem (howners w howner) hmemWord
    exact absurd hpart (by decide)
  · rwa [List.mem_singleton.mp hname] at hmemWord

/-- In a path made of words, there is a number sign in front of the name of a method, in the name of
a constant, or nowhere. -/
theorem isMethod_iff_numberSign (hd : d.Named) (hmethod : d.kind = .methodDef → '#' ∈ d.path)
    (hconstant : d.kind = .constantDef → '#' ∉ d.path) : d.kind = .methodDef ↔ '#' ∈ d.path := by
  obtain ⟨howners, hname⟩ : (∀ w ∈ d.owners, Name.isWord w = true) ∧
    (d.kind.isNamespace = true → Name.isWord d.name = true) := hd
  refine ⟨hmethod, fun hmem => Decidable.byContradiction fun hother => ?_⟩
  have hsign := numberSign_mem_name howners hother hmem
  by_cases hnamespace : d.kind.isNamespace = true
  · have hpart := Name.isWordPart_of_mem (hname hnamespace) hsign
    exact absurd hpart (by decide)
  · have hkind : d.kind = .constantDef := by
      cases hkind : d.kind <;> simp_all [EntityKind.isNamespace]
    exact hconstant hkind hmem

end Declaration

namespace Corpus
open Declaration (ClearWay)
open EntityKind (Walks)

variable {c : Corpus} {d : Declaration} {ds before after : List Declaration} {source : Text}

theorem walks_isPathStep : Walks isPathStep .constantDef := by
  refine ⟨rfl, fun kind => ?_⟩
  cases kind <;> decide

/-- The kinds that are looked for at the end of a path that was declared. -/
def isPathEnd (kind : EntityKind) : EntityKind → Bool :=
  if kind = .methodDef then (· == .methodDef) else isPathStep

/-- **A path that was declared is looked up by walking through its owners**, and one step further. -/
theorem find?_eq (hpath : Declaration.isEmptyPath d.path = false)
    (hnumberSign : d.kind = .methodDef ↔ '#' ∈ d.path) :
    c.find? d.path = (c.descend? isPathStep rootId d.owners).bind
      (c.child? · d.name (isPathEnd d.kind)) := by
  have hmem : '#' ∈ d.path.dropLead Name.separator ↔ '#' ∈ d.path :=
    Name.mem_dropLead_separator (by decide)
  unfold find?
  cases hcut : (d.path.dropLead Name.separator).cutAtLast? (· == '#') with
  | some pair =>
    obtain ⟨owner, last⟩ := pair
    obtain ⟨sign, hsign, hsplit, -⟩ := Text.cutAtLast?_eq_some hcut
    have hmethod : d.kind = .methodDef := by
      rw [hnumberSign, ← hmem, hsplit, ← beq_iff_eq.mp hsign]
      simp
    have hparts : Corpus.ownerAndName d.path d.kind = (Name.properComponents owner, last) := by
      simp only [Corpus.ownerAndName, hmethod, hcut]
    rw [Declaration.owners, Declaration.name, hparts, isPathEnd, if_pos hmethod]
    simp only [hcut]
    rfl
  | none =>
    have hother : d.kind ≠ .methodDef := by
      intro hmethod
      rw [hnumberSign, ← hmem] at hmethod
      simpa using Text.cutAtLast?_eq_none_iff.mp hcut '#' hmethod
    have hne : Name.properComponents (d.path.dropLead Name.separator) ≠ [] := by
      rw [Name.properComponents_dropLead]
      intro hnil
      rw [Declaration.isEmptyPath_of_properComponents hnil] at hpath
      cases hpath
    simp only [hcut]
    rw [Declaration.properComponents_eq hother hne, descend?_concat, isPathEnd, if_neg hother]

/-- What is found at a path with a number sign is a method. -/
theorem isMethod_of_find? {path : Text} {found : EntityId} {e : Entity} (hnumberSign : '#' ∈ path)
    (hfound : c.find? path = some found) (he : c.entity? found = some e) : e.kind = .methodDef := by
  unfold find? at hfound
  cases hcut : (path.dropLead Name.separator).cutAtLast? (· == '#') with
  | none =>
    have hmem := (Name.mem_dropLead_separator (by decide)).mpr hnumberSign
    simpa using Text.cutAtLast?_eq_none_iff.mp hcut '#' hmem
  | some pair =>
    simp only [hcut] at hfound
    obtain ⟨owner, -, hchild⟩ := Option.bind_eq_some_iff.mp hfound
    obtain ⟨-, e', he', -, hkind⟩ := child?_eq_some hchild
    obtain rfl : e = e' := Option.some.inj (he.symm.trans he')
    exact beq_iff_eq.mp hkind

theorem isPathEnd_self (hroot : d.kind ≠ .root) : isPathEnd d.kind d.kind = true := by
  cases hkind : d.kind with
  | root => exact absurd hkind hroot
  | _ => rfl

/-- What is found at the end of a path is a method when a method is looked for. -/
theorem isMethod_iff_of_isPathEnd {kind found : EntityKind} (h : isPathEnd kind found = true) :
    found = .methodDef ↔ kind = .methodDef := by
  cases kind <;> cases found <;> simp_all [isPathEnd, isPathStep]

/-- The path of what is declared is put together from its owners and its name, whatever else is
declared. -/
theorem path_definePath
    (hds : ∀ other ∈ before ++ d :: after, other.Named ∧ other.kind ≠ .root) :
    (ofDeclarations (before ++ d :: after)).path
        ((ofDeclarations before).definePath d.path d.kind).2 =
      memberPath d.owners d.name d.kind := by
  rw [List.append_cons] at hds ⊢
  obtain ⟨hearly, hgrows⟩ := grows_of_eq_append hds rfl
  obtain ⟨hd, hkind⟩ := hearly d (by simp)
  have hbefore := orderly_ofDeclarations fun d' hd' => hearly d' (List.mem_append_left _ hd')
  have hdeclare : ofDeclarations (before ++ [d]) =
      ((ofDeclarations before).definePath d.path d.kind).1 := by
    simp [ofDeclarations, declare]
  obtain ⟨horderly, -, ⟨e, p, he, hp, htrail, hname, hentityKind⟩, -⟩ :=
    definePath_spec hbefore hd hkind
  rw [← hdeclare] at horderly he htrail
  rw [hgrows.path_eq horderly.rooted (orderly_ofDeclarations hds).rooted he,
    horderly.path_eq_memberPath he hp, htrail, hname]
  apply memberPath_congr
  rcases hentityKind with hsame | ⟨hmodule, hclass⟩
  · rw [hsame]
  · simp [hmodule, hclass]

section Found

variable (hds : ∀ other ∈ ds, other.Named ∧ other.kind ≠ .root)
variable (hpath : Declaration.isEmptyPath d.path = false)
variable (hsign : d.kind = .methodDef ↔ '#' ∈ d.path)

include hds hpath hsign

/-- A declared path leads somewhere when no constant came first on the way. -/
theorem isSome_find?_iff (hd : d ∈ ds) :
    ((ofDeclarations ds).find? d.path).isSome = true ↔ ClearWay ds .constantDef [] d.owners := by
  have h := orderly_ofDeclarations hds
  have hsteady : EntityKind.Steady (isPathEnd d.kind) := by
    unfold isPathEnd
    split <;> rfl
  have hhas : (ofDeclarations ds).Has d.owners d.name (isPathEnd d.kind) :=
    (has_ofDeclarations hds hsteady.upward).mpr
      ⟨d, hd, Or.inl ⟨rfl, rfl, isPathEnd_self (hds d hd).2⟩⟩
  rw [find?_eq hpath hsign, isSome_walk_iff hds walks_isPathStep h.isNamespaceAt_root, h.trail_root,
    List.nil_append]
  exact and_iff_left hhas

/-- What is found there has the declared path. -/
theorem path_of_find? {found : EntityId}
    (hfound : (ofDeclarations ds).find? d.path = some found) :
    (ofDeclarations ds).path found = memberPath d.owners d.name d.kind := by
  have h := orderly_ofDeclarations hds
  rw [find?_eq hpath hsign] at hfound
  obtain ⟨-, e, p, he, hp, htrail, hname, hkind⟩ := exists_of_walk hds walks_isPathStep hfound
  rw [h.path_eq_memberPath he hp, htrail, hname, h.trail_root, List.nil_append]
  exact memberPath_congr (isMethod_iff_of_isPathEnd hkind) _ _

end Found

/-- **What is found at a declared path has that path, and it is found unless a constant came first on
the way.**  In a list with words for the components of its paths, in which methods are written with
a number sign, this is so for each declaration, whatever is declared before and after it.  The
exception are constants with a number sign in their names, at whose paths no constant is found. -/
theorem find?_declared
    (hparse : Declaration.parse source = .ok (before ++ d :: after))
    (hds : ∀ other ∈ before ++ d :: after,
      other.Named ∧ (other.kind = .methodDef → '#' ∈ other.path)) :
    let c := ofDeclarations (before ++ d :: after)
    let declared := ((ofDeclarations before).definePath d.path d.kind).2
    parse source = .ok c ∧
      ((d.kind = .constantDef → '#' ∉ d.path) →
        (ClearWay (before ++ d :: after) .constantDef [] d.owners →
          ∃ found, c.find? d.path = some found ∧ c.path found = c.path declared) ∧
        (¬ClearWay (before ++ d :: after) .constantDef [] d.owners → c.find? d.path = none)) ∧
      (d.kind = .constantDef → '#' ∈ d.path →
        ∀ found e, c.find? d.path = some found → c.entity? found = some e →
          e.kind = .methodDef) := by
  intro c declared
  have hmem : d ∈ before ++ d :: after := by simp
  have hlist := Declaration.forall_of_parse hparse
  have hspelled : ∀ other ∈ before ++ d :: after, other.Named ∧ other.kind ≠ .root :=
    fun other hother => ⟨(hds other hother).1, (hlist other hother).1⟩
  obtain ⟨hd, hmethod⟩ := hds d hmem
  refine ⟨by rw [parse, hparse]; rfl, ?_, ?_⟩
  · intro hconstant
    have hpath := (hlist d hmem).2
    have hsign := Declaration.isMethod_iff_numberSign hd hmethod hconstant
    have hsome : (c.find? d.path).isSome = true ↔ _ := isSome_find?_iff hspelled hpath hsign hmem
    constructor
    · intro hclear
      obtain ⟨found, hfound⟩ := Option.isSome_iff_exists.mp (hsome.mpr hclear)
      refine ⟨found, hfound, ?_⟩
      rw [path_of_find? hspelled hpath hsign hfound, path_definePath hspelled]
    · intro hblocked
      rw [← Option.not_isSome_iff_eq_none]
      exact fun hfound => hblocked (hsome.mp hfound)
  · intro _ hnumberSign found e hfound he
    exact isMethod_of_find? hnumberSign hfound he

/-- A method of a class beside which a constant is declared. -/
theorem find?_declared_method :
    let source : Text := "constant A::LIMIT\nclass A::B\nmethod A::B#run\n"
    let before : List Declaration := [⟨.constantDef, "A::LIMIT"⟩, ⟨.classDef, "A::B"⟩]
    let d : Declaration := ⟨.methodDef, "A::B#run"⟩
    let c := ofDeclarations (before ++ [d])
    parse source = .ok c ∧ ∃ found, c.find? d.path = some found ∧
      c.path found = c.path ((ofDeclarations before).definePath d.path d.kind).2 := by
  intro source before d c
  have hparse : Declaration.parse source = .ok (before ++ d :: []) := rfl
  have hds : ∀ other ∈ before ++ d :: [],
      other.Named ∧ (other.kind = .methodDef → '#' ∈ other.path) := by decide +kernel
  obtain ⟨hcorpus, hfound, -⟩ := find?_declared hparse hds
  have hclear : ClearWay (before ++ d :: []) .constantDef [] d.owners :=
    Declaration.clearWay_of_forall rfl (by decide +kernel)
  exact ⟨hcorpus, (hfound EntityKind.noConfusion).1 hclear⟩

/-- A class is not found at the path by which it was declared when a constant of the name of its
owner was declared before it. -/
theorem find?_declared_hidden :
    let source : Text := "constant A\nclass A::B\n"
    let before : List Declaration := [⟨.constantDef, "A"⟩]
    let d : Declaration := ⟨.classDef, "A::B"⟩
    let c := ofDeclarations (before ++ [d])
    let declared := ((ofDeclarations before).definePath d.path d.kind).2
    Declaration.parse source = .ok (before ++ [d]) ∧ parse source = .ok c ∧
      (∀ other ∈ before ++ [d], other.Named) ∧ c.path declared = d.path ∧
        c.find? d.path = none := by
  intro source before d c declared
  refine ⟨rfl, rfl, ?_⟩
  decide +kernel

end Corpus
end DocTypes
