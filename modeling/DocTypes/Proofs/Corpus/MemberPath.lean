import DocTypes.Proofs.Corpus.Contents

/-! # Paths tell entities apart

The path of an entity is put together from the words on the way to its parent, its name, and whether
it is a method (`path_eq_memberPath`).  It can be taken apart again: one name is at the end of the
same path only below the same owners (`owners_eq_of_memberPath`), and entities of one kind that have
the same path have the same owners and the same name (`memberPath_injective`), as long as no method
is called by a name with a number sign.  No declaration makes such a method
(`Declaration.numberSign_not_mem_name`). -/

namespace DocTypes

/-- What contains nothing and is no method is a constant. -/
theorem EntityKind.eq_constantDef {kind : EntityKind} (hleaf : kind.isNamespace = false)
    (hmethod : kind ≠ .methodDef) : kind = .constantDef := by
  cases kind with
  | constantDef => rfl
  | methodDef => exact absurd rfl hmethod
  | root | moduleDef | classDef => cases hleaf

/-- Whether a declaration makes no root and its path is made of words, but for the names of methods. -/
structure Declaration.Worded (d : Declaration) : Prop where
  named : d.Named ∧ d.kind ≠ .root
  constant : d.kind = .constantDef → Name.isWord d.name = true

instance (d : Declaration) : Decidable d.Worded :=
  decidable_of_iff
    ((d.Named ∧ d.kind ≠ .root) ∧ (d.kind = .constantDef → Name.isWord d.name = true))
    ⟨fun h => ⟨h.1, h.2⟩, fun h => ⟨h.named, h.constant⟩⟩

namespace Declaration

variable {d : Declaration}

/-- The name of a method stands after the last number sign. -/
theorem numberSign_not_mem_name (h : d.kind = .methodDef) : '#' ∉ d.name := by
  intro hmem
  unfold name at hmem
  cases hcut : (d.path.dropLead Name.separator).cutAtLast? (· == '#') with
  | some pair =>
    obtain ⟨owner, last⟩ := pair
    obtain ⟨-, -, -, hafter⟩ := Text.cutAtLast?_eq_some hcut
    simp only [Corpus.ownerAndName, h, hcut] at hmem
    simpa using hafter '#' hmem
  | none =>
    have hnone := Text.cutAtLast?_eq_none_iff.mp hcut
    simp only [Corpus.ownerAndName, h, hcut] at hmem
    -- The name is one of the components then, and they hold no more than the path does.
    cases hlast : (Name.properComponents (d.path.dropLead Name.separator)).getLast? with
    | none =>
      rw [hlast] at hmem
      cases hmem
    | some last =>
      rw [hlast] at hmem
      have hcomponent := (List.mem_filter.mp (List.mem_of_getLast? hlast)).1
      simpa using hnone '#' (Name.mem_of_mem_components hcomponent hmem)

end Declaration

namespace Corpus

variable {c c' : Corpus} {id p : EntityId} {e : Entity} {kind kind' : EntityKind}
variable {owners owners' : List Text} {name name' : Text}

/-- What is no method is named by the last component of its path, and the others own it. -/
theorem ownerAndName_of_ne_method (hkind : kind ≠ .methodDef) (path : Text) :
    ownerAndName path kind =
      ((Name.properComponents path).dropLast, (Name.properComponents path).getLast?.getD []) := by
  unfold ownerAndName
  dsimp only
  split
  · exact absurd rfl hkind
  · rw [Name.properComponents_dropLead]

/-- The path of an entity of some kind that is called by a name, below its owners. -/
def memberPath (owners : List Text) (name : Text) (kind : EntityKind) : Text :=
  if owners = [] then name
  else Name.join owners ++ (if kind = .methodDef then ['#'] else Name.separator) ++ name

/-- Of the kind it matters only whether it is that of methods. -/
theorem memberPath_congr (h : kind = .methodDef ↔ kind' = .methodDef) (owners : List Text)
    (name : Text) : memberPath owners name kind = memberPath owners name kind' := by
  simp only [memberPath, h]

/-- The way to a namespace below the root is its path. -/
theorem Orderly.words_trail (h : c.Orderly) (hid : c.isNamespaceAt id = true)
    (hroot : id ≠ rootId) : Name.Words (c.trail id) ∧ c.path id = Name.join (c.trail id) := by
  obtain ⟨e, p, he, hp, -, -, hkind, htrail⟩ := h.exists_parent hid hroot
  rw [htrail]
  exact path_eq_join h.toWellFormed he hp hkind

theorem Orderly.isWord_of_mem_trail (h : c.Orderly) (hid : c.isNamespaceAt id = true) :
    ∀ w ∈ c.trail id, Name.isWord w = true := by
  by_cases hroot : id = rootId
  · rw [(h.trail_eq_nil_iff hid).mpr hroot]
    exact fun w hw => absurd hw List.not_mem_nil
  · exact (h.words_trail hid hroot).1.word

/-- **The path of an entity is put together from the way to its parent and its name.** -/
theorem Orderly.path_eq_memberPath (h : c.Orderly) (he : c.entity? id = some e)
    (hp : e.parent = some p) : c.path id = memberPath (c.trail p) e.name e.kind := by
  have hparent := (h.parent_lt he hp).2
  obtain ⟨pe, hpe, -⟩ := isNamespaceAt_iff.mp hparent
  rw [path_eq h.rooted he hp hpe, memberPath]
  by_cases hroot : pe.kind = .root
  · rw [if_pos hroot, if_pos (trail_of_root hpe hroot)]
  · have hne : p ≠ rootId := h.ne_root hpe hroot
    obtain ⟨hwords, hpath⟩ := h.words_trail hparent hne
    rw [if_neg hroot, if_neg hwords.ne_nil, hpath]

theorem memberPath_of_ne_method (hkind : kind ≠ .methodDef) (owners : List Text) (name : Text) :
    memberPath owners name kind = Name.join (owners ++ [name]) := by
  rw [memberPath, if_neg hkind]
  split
  · next hnil => rw [hnil, List.nil_append, Name.join_singleton]
  · next hne =>
    rw [Name.join_append hne (List.cons_ne_nil _ _), Name.join_singleton]
    simp [Name.separator]

/-- Entities of the same name with the same path have the same owners. -/
theorem owners_eq_of_memberPath (howners : ∀ w ∈ owners, Name.isWord w = true)
    (howners' : ∀ w ∈ owners', Name.isWord w = true)
    (h : memberPath owners name kind = memberPath owners' name kind') : owners = owners' := by
  have hlonger : ∀ {owners : List Text} {kind : EntityKind}, owners ≠ [] →
      name ≠ memberPath owners name kind := by
    intro owners kind hne heq
    have hlength := congrArg List.length heq
    rw [memberPath, if_neg hne] at hlength
    simp only [List.length_append] at hlength
    have hseparator : 0 < (if kind = .methodDef then ['#'] else Name.separator).length := by
      split <;> exact Nat.succ_pos _
    omega
  by_cases hnil : owners = []
  · by_cases hnil' : owners' = []
    · rw [hnil, hnil']
    · rw [hnil, memberPath, if_pos rfl] at h
      exact absurd h (hlonger hnil')
  · by_cases hnil' : owners' = []
    · rw [hnil', memberPath.eq_def [], if_pos rfl] at h
      exact absurd h.symm (hlonger hnil)
    · rw [memberPath, memberPath, if_neg hnil, if_neg hnil'] at h
      have hjoin := List.append_cancel_right h
      -- The two separators do not end in the same character, so there is one only.
      have hlast := congrArg List.getLast? hjoin
      split at hlast <;> split at hlast
      · next hkind hkind' =>
        rw [if_pos hkind, if_pos hkind'] at hjoin
        exact Name.join_injective ⟨hnil, howners⟩ ⟨hnil', howners'⟩
          (List.append_cancel_right hjoin)
      · simp [Name.separator] at hlast
      · simp [Name.separator] at hlast
      · next hkind hkind' =>
        rw [if_neg hkind, if_neg hkind'] at hjoin
        exact Name.join_injective ⟨hnil, howners⟩ ⟨hnil', howners'⟩
          (List.append_cancel_right hjoin)

/-- What a name may be, so that the owners can be told apart from it. -/
def NameFits (kind : EntityKind) (name : Text) : Prop :=
  if kind = .methodDef then '#' ∉ name else Name.isWord name = true

/-- The name of a method is cut off at the last number sign, if it has owners. -/
theorem cutAtLast?_memberPath (hname : '#' ∉ name) :
    (memberPath owners name .methodDef).cutAtLast? (· == '#') =
      if owners = [] then none else some (Name.join owners, name) := by
  have hfree : ∀ c ∈ name, (c == '#') = false := by
    intro c hc
    rw [beq_eq_false_iff_ne]
    rintro rfl
    exact hname hc
  rw [memberPath, if_pos rfl]
  split
  · exact Text.cutAtLast?_eq_none_iff.mpr hfree
  · rw [List.append_assoc]
    exact Text.cutAtLast?_append rfl hfree (Name.join owners)

/-- **The owners and the name of an entity can be read off its path**, given its kind. -/
theorem memberPath_injective (howners : ∀ w ∈ owners, Name.isWord w = true)
    (howners' : ∀ w ∈ owners', Name.isWord w = true) (hname : NameFits kind name)
    (hname' : NameFits kind name') (h : memberPath owners name kind = memberPath owners' name' kind) :
    owners = owners' ∧ name = name' := by
  unfold NameFits at hname hname'
  by_cases hkind : kind = .methodDef
  · rw [if_pos hkind] at hname hname'
    subst hkind
    have hboth := congrArg (Text.cutAtLast? (· == '#')) h
    rw [cutAtLast?_memberPath hname, cutAtLast?_memberPath hname'] at hboth
    split at hboth <;> split at hboth
    · next hnil hnil' =>
      refine ⟨hnil.trans hnil'.symm, ?_⟩
      rw [memberPath, memberPath, if_pos hnil, if_pos hnil'] at h
      exact h
    · cases hboth
    · cases hboth
    · next hnil hnil' =>
      obtain ⟨hjoin, hsame⟩ := Prod.mk.inj (Option.some.inj hboth)
      exact ⟨Name.join_injective ⟨hnil, howners⟩ ⟨hnil', howners'⟩ hjoin, hsame⟩
  · rw [if_neg hkind] at hname hname'
    rw [memberPath_of_ne_method hkind, memberPath_of_ne_method hkind] at h
    have hparts := Name.join_injective (Name.words_concat howners hname)
      (Name.words_concat howners' hname') h
    obtain ⟨hsame, hlast⟩ := List.append_inj' hparts rfl
    exact ⟨hsame, List.singleton_inj.mp hlast⟩

/-! ## What entities are called -/

section Declared

variable {ds : List Declaration}

/-- What is no namespace is what was declared. -/
theorem exists_declaration (hds : ∀ d ∈ ds, d.Named ∧ d.kind ≠ .root)
    (he : (ofDeclarations ds).entity? id = some e) (hp : e.parent = some p)
    (hkind : e.kind.isNamespace = false) : ∃ d ∈ ds, d.kind = e.kind ∧ d.name = e.name := by
  have hmodule : ¬EntityKind.moduleDef = e.kind := by
    intro hmodule
    rw [← hmodule] at hkind
    cases hkind
  have hupward : EntityKind.Upward (· == e.kind) :=
    fun hsame => absurd (beq_iff_eq.mp hsame) hmodule
  have hhas : (ofDeclarations ds).Has ((ofDeclarations ds).trail p) e.name (· == e.kind) :=
    ⟨id, e, p, he, hp, rfl, rfl, beq_self_eq_true _⟩
  rw [has_ofDeclarations hds hupward] at hhas
  obtain ⟨d, hd, ⟨-, hname, hsame⟩ | ⟨-, hsame⟩⟩ := hhas
  · exact ⟨d, hd, beq_iff_eq.mp hsame, hname.symm⟩
  · exact absurd (beq_iff_eq.mp hsame) hmodule

/-- Entities have names that can be told from their paths. -/
theorem nameFits (hds : ∀ d ∈ ds, d.Worded) (he : (ofDeclarations ds).entity? id = some e)
    (hp : e.parent = some p) : NameFits e.kind e.name := by
  have h := orderly_ofDeclarations fun d hd => (hds d hd).named
  by_cases hkind : e.kind.isNamespace = true
  · rw [NameFits, if_neg (EntityKind.ne_method_of_isNamespace hkind)]
    exact h.word id e he (h.rooted.ne_root_of_parent he hp) hkind
  · obtain ⟨d, hd, hsame, hname⟩ := exists_declaration (fun d hd => (hds d hd).named) he hp
      (Bool.eq_false_iff.mpr hkind)
    rw [← hsame, ← hname, NameFits]
    split
    · next hmethod => exact Declaration.numberSign_not_mem_name hmethod
    · next hmethod =>
      have hleaf : d.kind.isNamespace = false := hsame ▸ Bool.eq_false_iff.mpr hkind
      exact (hds d hd).constant (EntityKind.eq_constantDef hleaf hmethod)

end Declared

end Corpus
end DocTypes
