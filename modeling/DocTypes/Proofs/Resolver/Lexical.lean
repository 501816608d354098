import DocTypes.Proofs.Resolver.Index

/-! # Scopes and the index agree

What a name means in a scope is found in two ways: by walking through the corpus from the
namespaces around the scope, and by asking the index for paths that end in the name.  A module or
class that the walk finds is among the answers of the index, and so is one around the scope that
is called by the name (`lexical_mem_pathsFor`).  If the index has just one answer, then whatever
is found in the scope is that one.

For the walk this is because the names on the way down are the end of the path of what is found
(`Corpus.trail_descend`), and for the surroundings because the components of the path of a
namespace are the names of the modules and classes around it (`Corpus.isEnclosing_iff`). -/

namespace DocTypes

namespace Corpus

variable {c : Corpus} {scope id found : EntityId} {name path : Text}

/-- Whether a name leads to an entity from the namespace of a scope or from one around it. -/
def LeadsTo (c : Corpus) (scope : EntityId) (name : Text) (found : EntityId) : Prop :=
  ∃ outer ∈ c.upToRoot (c.nesting scope),
    c.descend? isNameStep outer (Name.components name) = some found

/-- Whether a module or class of the given name stands around a scope. -/
def Encloses (c : Corpus) (scope : EntityId) (name : Text) (around : EntityId) : Prop :=
  around ∈ c.nesting scope ∧ ∃ e, c.entity? around = some e ∧ e.name = name ∧
    (e.kind = .moduleDef ∨ e.kind = .classDef)

/-- The modules and classes that a name may mean in a scope. -/
def MayMean (c : Corpus) (scope : EntityId) (name : Text) (found : EntityId) : Prop :=
  c.LeadsTo scope name found ∧ c.IsModuleOrClass found ∨ c.Encloses scope name found

theorem mem_lexicalPaths :
    path ∈ c.lexicalPaths scope name ↔
      ∃ found, c.LeadsTo scope name found ∧ c.path found = path := by
  simp only [lexicalPaths, LeadsTo, List.mem_filterMap, Option.map_eq_some_iff]
  constructor
  · rintro ⟨outer, houter, found, hfound, hpath⟩
    exact ⟨found, ⟨outer, houter, hfound⟩, hpath⟩
  · rintro ⟨found, ⟨outer, houter, hfound⟩, hpath⟩
    exact ⟨outer, houter, found, hfound, hpath⟩

/-! ## Around a scope -/

theorem mem_components_path (h : c.WellFormed)
    (hroot : ∀ id e, c.entity? id = some e → e.kind = .root → id = rootId) (hname : name ≠ []) :
    name ∈ Name.components (c.path id) ↔ name ∈ c.trail id := by
  by_cases hid : c.isRootAt id = true
  · have hplace : id = rootId := by
      unfold isRootAt at hid
      split at hid
      · next e he => exact hroot id e he (beq_iff_eq.mp hid)
      · cases hid
    rw [trail, if_pos hid, hplace, path_root h.rooted]
    simp [Name.components, hname]
  · rw [trail, if_neg hid]

/-- **A name is a component of the path around a scope when a module or class around the scope is
called by it.** -/
theorem isEnclosing_iff (h : c.WellFormed)
    (hroot : ∀ id e, c.entity? id = some e → e.kind = .root → id = rootId) (hname : name ≠ []) :
    c.isEnclosing scope name = true ↔ ∃ around, c.Encloses scope name around := by
  have hword : ∀ around, c.Encloses scope name around →
      Text.contains Name.separator name = false := by
    rintro around ⟨-, e, he, rfl, hkind⟩
    obtain ⟨hnamespace, hkindRoot⟩ := EntityKind.isNamespace_of_moduleOrClass hkind
    have hword := h.word around e he (h.ne_root he hkindRoot) hnamespace
    exact Name.contains_separator_of_colon_not_mem (Name.colon_not_mem hword)
  have hcomponents : name ∈ Name.components (c.path (c.namespaceOf scope)) ↔
      ∃ around, c.Encloses scope name around := by
    rw [mem_components_path h hroot hname]
    cases he : c.entity? scope with
    | none =>
      have hnesting := nesting_of_none he
      have hplace : c.namespaceOf scope = rootId := by rw [namespaceOf, hnesting]; rfl
      obtain ⟨root, hrootEntity, hkind, -⟩ := h.root
      simp [hplace, trail_of_root hrootEntity hkind, Encloses, hnesting]
    | some e =>
      obtain ⟨inner, hinner, hnesting, hplace⟩ := exists_nesting_eq h he
      rw [hplace, mem_trail_iff h hroot hinner, ← hnesting]
      rfl
  unfold isEnclosing
  rw [Bool.and_eq_true, List.contains_iff_mem, hcomponents]
  constructor
  · exact And.right
  · rintro ⟨around, haround⟩
    exact ⟨by rw [hword around haround]; rfl, around, haround⟩

/-! ## What ends in the name -/

theorem components_path_of_isModuleOrClass (hid : c.IsModuleOrClass id) :
    Name.components (c.path id) = c.trail id := by
  obtain ⟨e, he, hkind⟩ := hid
  have hroot : ¬c.isRootAt id = true := by
    rw [isRootAt, he]
    simpa using (EntityKind.isNamespace_of_moduleOrClass hkind).2
  rw [trail, if_neg hroot]

theorem IsModuleOrClass.isNamespaceAt (hid : c.IsModuleOrClass id) : c.isNamespaceAt id = true := by
  obtain ⟨e, he, hkind⟩ := hid
  rw [isNamespaceAt_of_entity he]
  exact (EntityKind.isNamespace_of_moduleOrClass hkind).1

/-- The path of what the walk finds ends in the name. -/
theorem LeadsTo.suffix (h : c.WellFormed) (hleads : c.LeadsTo scope name found)
    (hfound : c.IsModuleOrClass found) :
    Name.components name <:+ Name.components (c.path found) := by
  obtain ⟨outer, -, hdescend⟩ := hleads
  rw [components_path_of_isModuleOrClass hfound,
    trail_descend h rfl hdescend hfound.isNamespaceAt]
  exact List.suffix_append _ _

theorem Encloses.isModuleOrClass (hencloses : c.Encloses scope name found) :
    c.IsModuleOrClass found := by
  obtain ⟨-, e, he, -, hkind⟩ := hencloses
  exact ⟨e, he, hkind⟩

/-- The path of a module or class ends in the name of it. -/
theorem Encloses.suffix (h : c.WellFormed) (hencloses : c.Encloses scope name found) :
    Name.components name <:+ Name.components (c.path found) := by
  obtain ⟨-, e, he, rfl, hkind⟩ := hencloses
  obtain ⟨hnamespace, hroot⟩ := EntityKind.isNamespace_of_moduleOrClass hkind
  obtain ⟨p, hp, -⟩ := h.parent found e he (h.ne_root he hroot)
  have hword := h.word found e he (h.ne_root he hroot) hnamespace
  rw [components_path h he hp hnamespace,
    Name.components_of_colon_not_mem (Name.colon_not_mem hword)]
  exact List.suffix_append _ _

theorem MayMean.isModuleOrClass (hmeant : c.MayMean scope name found) :
    c.IsModuleOrClass found := by
  rcases hmeant with ⟨-, hfound⟩ | hencloses
  · exact hfound
  · exact hencloses.isModuleOrClass

/-- **The path of what a name may mean ends in the name.** -/
theorem MayMean.suffix (h : c.WellFormed) (hmeant : c.MayMean scope name found) :
    Name.components name <:+ Name.components (c.path found) := by
  rcases hmeant with ⟨hleads, hfound⟩ | hencloses
  · exact hleads.suffix h hfound
  · exact hencloses.suffix h

end Corpus

/-! ## Agreement -/

namespace Resolver

variable {r : Resolver} {files : FileSystem} {ds : List Declaration}

/-- **What a relative name means in a scope is what the index answers.**  The corpus is that of a
declaration list with words for the components of its paths.  The walk gives the paths of what the
name leads to from the namespaces around the scope, and a name is a component of the path around the
scope when a module or class there is called by it.  The path of every module or class that is found
in one of these ways is among the paths of the index that end in the name.  If there is one such
path only, all of them have that path. -/
theorem lexical_mem_pathsFor (hcorpus : r.corpus = .ofDeclarations ds)
    (hds : ∀ d ∈ ds, d.Named ∧ d.kind ≠ .root) (hreflects : r.Reflects files) (name : Text)
    (hsimple : Name.isSimple name = true) (hrelative : Name.isAbsolute name = false)
    (scope : EntityId) :
    (∀ path, path ∈ r.corpus.lexicalPaths scope name ↔
        ∃ found, r.corpus.LeadsTo scope name found ∧ r.corpus.path found = path) ∧
      (r.corpus.isEnclosing scope name = true ↔ ∃ around, r.corpus.Encloses scope name around) ∧
      (∀ found, r.corpus.MayMean scope name found →
        r.corpus.path found ∈ (r.pathsFor files name).value) ∧
      ∀ path, (r.pathFor? files name).value = some path →
        ∀ found, r.corpus.MayMean scope name found → r.corpus.path found = path := by
  have hnamed : ∀ d ∈ ds, d.Named := fun d hd => (hds d hd).1
  have hwell : r.corpus.WellFormed := hcorpus ▸ (Corpus.declared_ofDeclarations hnamed).wellFormed
  have hroot : ∀ id e, r.corpus.entity? id = some e → e.kind = .root → id = Corpus.rootId :=
    fun id e he => Corpus.eq_root_of_kind hds (hcorpus ▸ he)
  have hname : name ≠ [] := by
    rintro rfl
    cases hsimple
  have hmem : ∀ found, r.corpus.MayMean scope name found →
      r.corpus.path found ∈ (r.pathsFor files name).value := by
    intro found hmeant
    rw [hreflects.value_pathsFor hrelative, mem_pathsFor_build hwell hsimple hrelative]
    exact ⟨.declared hmeant.isModuleOrClass, hmeant.suffix hwell⟩
  refine ⟨fun _ => Corpus.mem_lexicalPaths, Corpus.isEnclosing_iff hwell hroot hname, hmem, ?_⟩
  intro path hpath found hmeant
  exact ((hreflects.pathFor?_eq_some_iff hrelative).mp hpath _).mp (hmem found hmeant)

/-- In a method, the name of the class around it, and that of a class in that class. -/
theorem lexical_mem_pathsFor_method :
    let r := fresh (.ofDeclarations [⟨.methodDef, "A::B#run"⟩, ⟨.classDef, "A::B::C"⟩]) .default
      ⟨none, []⟩
    let files : FileSystem := ⟨[], []⟩
    r.corpus.isEnclosing 3 "B" = true ∧ r.corpus.descend? Corpus.isNameStep 2 [['C']] = some 4 ∧
      (∃ around, r.corpus.Encloses 3 "B" around ∧
        r.corpus.path around ∈ (r.pathsFor files "B").value) ∧
      ∀ found, r.corpus.MayMean 3 "C" found → r.corpus.path found = "A::B::C".toList := by
  intro r files
  have hds : ∀ d ∈ [⟨.methodDef, "A::B#run"⟩, (⟨.classDef, "A::B::C"⟩ : Declaration)],
      d.Named ∧ d.kind ≠ .root := by decide +kernel
  have hreflects : r.Reflects files := reflects_fresh _ _ _
  have hfacts : r.corpus.isEnclosing 3 "B" = true ∧
      r.corpus.descend? Corpus.isNameStep 2 [['C']] = some 4 ∧
      (r.pathFor? files "C").value = some "A::B::C".toList := by
    decide +kernel
  obtain ⟨henclosing, hwalk, hpath⟩ := hfacts
  obtain ⟨-, hname, hmem, -⟩ :=
    lexical_mem_pathsFor rfl hds hreflects "B" (by decide) (by decide) 3
  obtain ⟨-, -, -, honly⟩ := lexical_mem_pathsFor rfl hds hreflects "C" (by decide) (by decide) 3
  obtain ⟨around, haround⟩ := hname.mp henclosing
  exact ⟨henclosing, hwalk, ⟨around, haround, hmem around (.inr haround)⟩, honly _ hpath⟩

end Resolver
end DocTypes
