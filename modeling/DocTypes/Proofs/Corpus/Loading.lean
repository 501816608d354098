import DocTypes.Proofs.Corpus.Lookup
import DocTypes.Proofs.Corpus.Stability
import DocTypes.Proofs.Text.Lines
import Mathlib.Data.List.Forall2

/-! # Loading declaration lists

A declaration list is loaded as a whole or not at all.  It is loaded exactly when each of its lines is
silent or declares something (`Declaration.exists_ofLines_iff`), and otherwise the first line that
does neither is reported (`Declaration.exists_of_ofLines_eq_error`).

What is loaded is there: from the root there is a way through modules and classes by the components
that own it (`Corpus.Way`), and below the last of them stands an entity with its name and its kind,
but that a module may be a class (`Corpus.Holds`).  A way stays a way whatever is declared later
(`Corpus.Way.grows`), so it is enough that each declaration makes its own (`Corpus.holds_declare`). -/

namespace DocTypes

/-! ## Lines -/

namespace Declaration

variable {line source : Text} {d : Declaration} {ds : List Declaration} {declared : Option Declaration}

/-- Whether a line is blank or a comment. -/
def isSilent (line : Text) : Bool := Text.trim line == [] || (Text.trim line).head? == some '#'

/-- Whether a path is a number of separators and nothing else. -/
def OnlySeparators (path : Text) : Prop := ∃ n, path = (List.replicate n Name.separator).flatten

/-- Whether a line is made of two words, the first of which stands for the kind of a declaration, and
the second is its path, not all of it separators. -/
def Declares (line : Text) (d : Declaration) : Prop :=
  ∃ word, Text.words line = [word, d.path] ∧ EntityKind.ofKeyword? word = some d.kind ∧
    ¬OnlySeparators d.path

/-- Whether nothing is wrong with a line. -/
def Sound (line : Text) : Prop := isSilent line = true ∨ ∃ d, Declares line d

theorem isEmptyPath_iff {path : Text} : isEmptyPath path = true ↔ OnlySeparators path := by
  fun_induction isEmptyPath path with
  | case1 => exact ⟨fun _ => ⟨0, rfl⟩, fun _ => rfl⟩
  | case2 path ih =>
    rw [ih]
    constructor
    · rintro ⟨n, rfl⟩
      exact ⟨n + 1, rfl⟩
    · rintro ⟨n, h⟩
      cases n with
      | zero => cases h
      | succ n =>
        rw [List.replicate_succ, List.flatten_cons] at h
        exact ⟨n, (List.cons.inj (List.cons.inj h).2).2⟩
  | case3 path hnil hstart =>
    refine ⟨fun h => absurd h Bool.false_ne_true, ?_⟩
    rintro ⟨n, rfl⟩
    cases n with
    | zero => exact absurd rfl hnil
    | succ n => exact absurd rfl (hstart _)

theorem startsWith_sign_eq (t : Text) : Text.startsWith t "#" = (t.head? == some '#') := by
  cases t with
  | nil => rfl
  | cons c t =>
    simp [Text.startsWith, List.isPrefixOf, Bool.beq_comm]

theorem ofLine?_of_isSilent (h : isSilent line = true) : ofLine? line = .ok none := by
  unfold ofLine?
  dsimp only
  rw [isSilent, Bool.or_eq_true, beq_iff_eq, ← startsWith_sign_eq] at h
  exact if_pos h

theorem ofLine?_eq (h : isSilent line = false) :
    ofLine? line =
      match Text.words line with
      | [word, path] =>
        match EntityKind.ofKeyword? word with
        | none => .error (.unknownKind word)
        | some kind => if isEmptyPath path then .error .emptyPath else .ok (some ⟨kind, path⟩)
      | _ => .error (.malformed (Text.trim line)) := by
  have hloud : ¬(Text.trim line = [] ∨ Text.startsWith (Text.trim line) "#" = true) := by
    rw [startsWith_sign_eq, ← beq_iff_eq, ← Bool.or_eq_true, ← isSilent, h]
    exact Bool.false_ne_true
  rw [← Text.words_trim line]
  unfold ofLine?
  exact if_neg hloud

/-- **What a line declares is what its words say.** -/
theorem ofLine?_eq_some_iff (h : isSilent line = false) :
    ofLine? line = .ok (some d) ↔ Declares line d := by
  rw [ofLine?_eq h]
  constructor
  · intro hline
    split at hline
    · next word path hwords =>
      split at hline
      · cases hline
      · next kind hkind =>
        split at hline
        · cases hline
        · next hpath =>
          cases hline
          exact ⟨word, hwords, hkind, fun honly => hpath (isEmptyPath_iff.mpr honly)⟩
    · cases hline
  · rintro ⟨word, hwords, hkind, hpath⟩
    rw [← isEmptyPath_iff] at hpath
    simp only [hwords, hkind, if_neg hpath]

/-- A line that is not silent declares something, or is at fault. -/
theorem ofLine?_ne_none (h : isSilent line = false) : ofLine? line ≠ .ok none := by
  rw [ofLine?_eq h]
  intro hline
  split at hline
  · split at hline
    · cases hline
    · split at hline <;> cases hline
  · cases hline

/-- **A line is read exactly when nothing is wrong with it.** -/
theorem exists_ofLine?_iff : (∃ declared, ofLine? line = .ok declared) ↔ Sound line := by
  constructor
  · rintro ⟨declared, hline⟩
    cases hsilent : isSilent line with
    | true => exact Or.inl hsilent
    | false =>
      cases declared with
      | none => exact absurd hline (ofLine?_ne_none hsilent)
      | some d => exact Or.inr ⟨d, (ofLine?_eq_some_iff hsilent).mp hline⟩
  · rintro (hsilent | ⟨d, hd⟩)
    · exact ⟨none, ofLine?_of_isSilent hsilent⟩
    · cases hsilent : isSilent line with
      | true => exact ⟨none, ofLine?_of_isSilent hsilent⟩
      | false => exact ⟨some d, (ofLine?_eq_some_iff hsilent).mpr hd⟩

/-! ## Lists of lines -/

variable {lines : List Text} {number : Nat} {e : DeclarationError}

theorem ofLines_cons_eq_ok_iff :
    ofLines number (line :: lines) = .ok ds ↔ ∃ declared rest, ofLine? line = .ok declared ∧
      ofLines (number + 1) lines = .ok rest ∧ declared.toList ++ rest = ds := by
  rw [ofLines]
  cases ofLine? line with
  | error fault => simp
  | ok declared =>
    cases ofLines (number + 1) lines with
    | error e => simp
    | ok rest => simp

/-- **Lines are read exactly when nothing is wrong with any of them.** -/
theorem exists_ofLines_iff :
    (∃ ds, ofLines number lines = .ok ds) ↔ ∀ line ∈ lines, Sound line := by
  induction lines generalizing number with
  | nil => exact ⟨fun _ line hline => absurd hline List.not_mem_nil, fun _ => ⟨[], rfl⟩⟩
  | cons line lines ih =>
    rw [List.forall_mem_cons, ← exists_ofLine?_iff, ← @ih (number + 1)]
    simp only [ofLines_cons_eq_ok_iff]
    constructor
    · rintro ⟨ds, declared, rest, hline, hrest, -⟩
      exact ⟨⟨declared, hline⟩, rest, hrest⟩
    · rintro ⟨⟨declared, hline⟩, rest, hrest⟩
      exact ⟨_, declared, rest, hline, hrest, rfl⟩

/-- **What lines declare is what those of them declare that are not silent**, in order. -/
theorem forall₂_of_ofLines (h : ofLines number lines = .ok ds) :
    List.Forall₂ Declares (lines.filter (!isSilent ·)) ds := by
  induction lines generalizing number ds with
  | nil =>
    cases h
    exact .nil
  | cons line lines ih =>
    obtain ⟨declared, rest, hline, hrest, rfl⟩ := ofLines_cons_eq_ok_iff.mp h
    cases hsilent : isSilent line with
    | true =>
      rw [ofLine?_of_isSilent hsilent] at hline
      cases hline
      rw [List.filter_cons_of_neg (by simp [hsilent])]
      exact ih hrest
    | false =>
      rw [List.filter_cons_of_pos (by simp [hsilent])]
      cases declared with
      | none => exact absurd hline (ofLine?_ne_none hsilent)
      | some d => exact .cons ((ofLine?_eq_some_iff hsilent).mp hline) (ih hrest)

/-- **The first line is reported with which something is wrong.** -/
theorem exists_of_ofLines_eq_error (h : ofLines number lines = .error e) :
    ∃ before line after, lines = before ++ line :: after ∧ (∀ line ∈ before, Sound line) ∧
      ¬Sound line ∧ e.line = number + before.length := by
  induction lines generalizing number with
  | nil => cases h
  | cons line lines ih =>
    rw [ofLines] at h
    cases hline : ofLine? line with
    | error fault =>
      rw [hline] at h
      cases h
      refine ⟨[], line, lines, rfl, fun _ hmem => absurd hmem List.not_mem_nil, ?_, rfl⟩
      rw [← exists_ofLine?_iff, hline]
      rintro ⟨declared, hdeclared⟩
      cases hdeclared
    | ok declared =>
      rw [hline] at h
      dsimp only at h
      split at h
      · next e' hrest =>
        cases h
        obtain ⟨before, bad, after, rfl, hbefore, hbad, hnumber⟩ := ih hrest
        refine ⟨line :: before, bad, after, rfl, ?_, hbad, ?_⟩
        · exact List.forall_mem_cons.mpr ⟨exists_ofLine?_iff.mp ⟨declared, hline⟩, hbefore⟩
        · rw [hnumber, List.length_cons]
          omega
      · cases h

/-! ## What a path says -/

/-- How a path is read as the components that own an entity and its name: a method stands after the
last number sign if there is one, and anything else is the last component. -/
inductive Reads (d : Declaration) : List Text → Text → Prop where
  | method {owner name : Text} (kind : d.kind = .methodDef) (path : d.path = owner ++ '#' :: name)
      (last : '#' ∉ name) : Reads d (Name.properComponents owner) name
  | other {owners : List Text} {name : Text} (plain : d.kind = .methodDef → '#' ∉ d.path)
      (path : Name.properComponents d.path = owners ++ [name]) : Reads d owners name

/-- **Owners and name are what a path says**, if it says anything. -/
theorem reads_owners (h : ¬OnlySeparators d.path) : d.Reads d.owners d.name := by
  have hne : Name.properComponents d.path ≠ [] :=
    fun hnil => h (isEmptyPath_iff.mp (isEmptyPath_of_properComponents hnil))
  have hparts : Name.properComponents d.path = (Name.properComponents d.path).dropLast ++
      [(Name.properComponents d.path).getLast?.getD []] := by
    rw [List.getLast?_eq_some_getLast hne, Option.getD_some, List.dropLast_concat_getLast hne]
  unfold owners name
  by_cases hkind : d.kind = .methodDef
  · cases hcut : (d.path.dropLead Name.separator).cutAtLast? (· == '#') with
    | some pair =>
      obtain ⟨owner, name⟩ := pair
      obtain ⟨c, hsign, hpath, hlast⟩ := Text.cutAtLast?_eq_some hcut
      obtain rfl := beq_iff_eq.mp hsign
      have hname : '#' ∉ name := fun hmem => by simpa using hlast '#' hmem
      simp only [Corpus.ownerAndName, hkind, hcut]
      -- A separator in front belongs to the owner and adds no component to it.
      rcases Name.dropLead_separator d.path with ⟨rest, hlead, hrest⟩ | hsame
      · rw [← hrest, hpath] at hlead
        exact @Reads.method d (':' :: ':' :: owner) name hkind hlead hname
      · exact .method hkind (hsame.symm.trans hpath) hname
    | none =>
      simp only [Corpus.ownerAndName, hkind, hcut, Name.properComponents_dropLead]
      refine .other (fun _ hmem => ?_) hparts
      rw [← Name.mem_dropLead_separator (by decide)] at hmem
      simpa using Text.cutAtLast?_eq_none_iff.mp hcut '#' hmem
  · rw [Corpus.ownerAndName_of_ne_method hkind]
    exact .other (fun hmethod => absurd hmethod hkind) hparts

end Declaration

/-! ## Corpora -/

namespace Corpus

variable {c c' c₀ : Corpus} {id p parent : EntityId} {name : Text} {kind : EntityKind}
variable {owners names : List Text} {d : Declaration} {ds : List Declaration}

/-- Whether names lead from the root to an entity, each of them to a module or a class. -/
inductive Way (c : Corpus) : List Text → EntityId → Prop where
  | root : Way c [] rootId
  | down {owners : List Text} {p id : EntityId} {e : Entity} (way : Way c owners p)
      (entity : c.entity? id = some e) (parent : e.parent = some p) (listed : id ∈ c.childrenOf p)
      (kind : e.kind = .moduleDef ∨ e.kind = .classDef) : Way c (owners ++ [e.name]) id

/-- Whether what is declared is there, in the namespaces that own it. -/
structure Holds (c : Corpus) (d : Declaration) : Prop where
  /-- It stands below the last of its owners, with its name and its kind. -/
  declared : ∃ p id e, c.Way d.owners p ∧ c.entity? id = some e ∧ e.parent = some p ∧
    id ∈ c.childrenOf p ∧ e.name = d.name ∧
      (e.kind = d.kind ∨ (d.kind = .moduleDef ∧ e.kind = .classDef))
  /-- The first ones of its owners lead to namespaces, too. -/
  owned : ∀ owners, owners <+: d.owners → ∃ p, c.Way owners p

/-! ### Ways -/

/-- A parent lists its children for good. -/
theorem Grows.mem_childrenOf (hgrows : c.Grows c') (h : id ∈ c.childrenOf p) :
    id ∈ c'.childrenOf p := by
  obtain ⟨pe, hpe, hchild⟩ := Corpus.mem_childrenOf.mp h
  obtain ⟨pe', hpe', hbecomes⟩ := hgrows p pe hpe
  exact Corpus.mem_childrenOf.mpr ⟨pe', hpe', hbecomes.children.subset hchild⟩

/-- **A way stays a way.** -/
theorem Way.grows (h : c.Way owners id) (hgrows : c.Grows c') : c'.Way owners id := by
  induction h with
  | root => exact .root
  | @down owners p id e _ entity parent listed kind ih =>
    obtain ⟨e', he', hbecomes⟩ := hgrows id e entity
    rw [← hbecomes.name]
    refine .down ih he' (hbecomes.parent.trans parent) (hgrows.mem_childrenOf listed) ?_
    rcases hbecomes.kind with hsame | ⟨-, hclass⟩
    · rwa [hsame]
    · exact Or.inr hclass

/-- The first names of a way are a way. -/
theorem Way.exists_of_prefix (h : c.Way owners id) (hnames : names <+: owners) :
    ∃ p, c.Way names p := by
  induction h with
  | root =>
    rw [List.prefix_nil.mp hnames]
    exact ⟨rootId, .root⟩
  | down way entity parent listed kind ih =>
    rcases List.prefix_concat_iff.mp hnames with rfl | hshorter
    · exact ⟨_, .down way entity parent listed kind⟩
    · exact ih hshorter

/-- What is declared in an entity is there. -/
theorem GrownFrom.exists_entity (h : GrownFrom c₀ c) (hparent : parent < c.size)
    (hkind : kind ≠ .root) (name : Text) :
    ∃ e, (c.define parent name kind).1.entity? (c.define parent name kind).2 = some e ∧
      e.parent = some parent ∧
      (c.define parent name kind).2 ∈ (c.define parent name kind).1.childrenOf parent ∧
      e.name = name ∧ (e.kind = kind ∨ (kind = .moduleDef ∧ e.kind = .classDef)) := by
  have houtcome := outcome_define hparent name kind
  obtain ⟨e, he, hp, hname, hentityKind⟩ :=
    houtcome.exists_entity h.toRooted h.one_root hparent hkind
  exact ⟨e, he, hp, houtcome.mem_childrenOf hparent, hname, hentityKind⟩

/-- **Declaring modules one in the other makes a way.** -/
theorem Way.defineOwners (h : GrownFrom c₀ c) (way : c.Way owners id) (hid : id < c.size) :
    (c.defineOwners id names).1.Way (owners ++ names) (c.defineOwners id names).2 := by
  induction names generalizing c c₀ id owners with
  | nil => rwa [List.append_nil]
  | cons name names ih =>
    have hdefined : GrownFrom c (c.define id name .moduleDef).1 :=
      h.self.define hid EntityKind.noConfusion name
    have hmodule : EntityKind.moduleDef ≠ .root := EntityKind.noConfusion
    obtain ⟨e, he, hp, hlisted, rfl, hkind⟩ := h.exists_entity hid hmodule name
    have hnext := Way.down (way.grows hdefined.grows) he hp hlisted (hkind.imp_right And.right)
    have hrest := ih hdefined hnext (lt_size_of_entity he)
    rwa [List.append_assoc] at hrest

/-! ### Declarations -/

/-- **What is declared is there.** -/
theorem holds_declare (h : GrownFrom c₀ c) (hkind : d.kind ≠ .root) : (c.declare d).Holds d := by
  have hroot := lt_size_of_isNamespaceAt h.toRooted.isNamespaceAt_root
  obtain ⟨howners, howner⟩ := h.self.defineOwners hroot d.owners
  have hdeclared := howners.self.define howner hkind d.name
  have hway : (c.defineOwners rootId d.owners).1.Way ([] ++ d.owners)
      (c.defineOwners rootId d.owners).2 := Way.defineOwners h .root hroot
  obtain ⟨e, he, hp, hlisted, hname, hentityKind⟩ := howners.exists_entity howner hkind d.name
  have hafter : (c.declare d).Way d.owners (c.defineOwners rootId d.owners).2 :=
    hway.grows hdeclared.grows
  exact ⟨⟨_, _, e, hafter, he, hp, hlisted, hname, hentityKind⟩,
    fun owners hprefix => hafter.exists_of_prefix hprefix⟩

/-- What is there stays there. -/
theorem Holds.grows (h : c.Holds d) (hgrows : c.Grows c') : c'.Holds d := by
  obtain ⟨⟨p, id, e, hway, he, hp, hlisted, hname, hkind⟩, howned⟩ := h
  obtain ⟨e', he', hbecomes⟩ := hgrows id e he
  refine ⟨⟨p, id, e', hway.grows hgrows, he', hbecomes.parent.trans hp,
    hgrows.mem_childrenOf hlisted, hbecomes.name.trans hname, ?_⟩, fun owners hprefix => ?_⟩
  · rcases hbecomes.kind with hsame | ⟨hmodule, hclass⟩
    · rwa [hsame]
    · rcases hkind with hkind | ⟨-, hother⟩
      · exact Or.inr ⟨hkind.symm.trans hmodule, hclass⟩
      · rw [hother] at hmodule
        cases hmodule
  · obtain ⟨p, hway⟩ := howned owners hprefix
    exact ⟨p, hway.grows hgrows⟩

theorem GrownFrom.foldl_declare (h : GrownFrom c₀ c) (hds : ∀ d ∈ ds, d.kind ≠ .root) :
    GrownFrom c₀ (ds.foldl declare c) := h.leads (Leads.refl.foldl_declare hds)

/-- **A corpus holds all that was declared.** -/
theorem holds_ofDeclarations (hds : ∀ d ∈ ds, d.kind ≠ .root) (hd : d ∈ ds) :
    (ofDeclarations ds).Holds d := by
  obtain ⟨before, after, rfl⟩ := List.append_of_mem hd
  obtain ⟨hbefore, hrest⟩ := List.forall_mem_append.mp hds
  obtain ⟨hkind, hafter⟩ := List.forall_mem_cons.mp hrest
  have hfront : GrownFrom .empty (ofDeclarations before) := grownFrom_empty.foldl_declare hbefore
  have hdeclared : GrownFrom .empty ((ofDeclarations before).declare d) :=
    hfront.leads (Leads.refl.definePath _ hkind)
  have hgrows := (hdeclared.self.foldl_declare hafter).grows
  rw [ofDeclarations, List.foldl_append, List.foldl_cons]
  exact (holds_declare hfront hkind).grows hgrows

/-! ### Whole lists -/

theorem parse_eq_ok_iff {source : Text} :
    parse source = .ok c ↔ ∃ ds, Declaration.parse source = .ok ds ∧ ofDeclarations ds = c := by
  rw [parse]
  cases Declaration.parse source <;> simp [Except.map]

theorem parse_eq_error_iff {source : Text} {e : DeclarationError} :
    parse source = .error e ↔ Declaration.parse source = .error e := by
  rw [parse]
  cases Declaration.parse source <;> simp [Except.map]

/-- **A declaration list is loaded completely or not at all.**

It is loaded exactly when each of its lines is silent or declares something, and otherwise the first
of the others is reported.  What is loaded is the corpus that is made by declaring by the path of one
line after another, and it holds all that the lines declare. -/
theorem parse_complete (source : Text) :
    ((∃ c, parse source = .ok c) ↔ ∀ line ∈ source.lines, Declaration.Sound line) ∧
      (∀ e, parse source = .error e →
        ∃ before line after, source.lines = before ++ line :: after ∧
          (∀ line ∈ before, Declaration.Sound line) ∧ ¬Declaration.Sound line ∧
            e.line = before.length + 1) ∧
      ∀ c, parse source = .ok c →
        ∃ ds, List.Forall₂ Declaration.Declares
            (source.lines.filter (!Declaration.isSilent ·)) ds ∧
          c = ds.foldl (fun c d => (c.definePath d.path d.kind).1) empty ∧
          ∀ d ∈ ds, d.Reads d.owners d.name ∧ c.Holds d := by
  refine ⟨?_, fun e he => ?_, fun c hc => ?_⟩
  · rw [← @Declaration.exists_ofLines_iff source.lines 1]
    simp only [parse_eq_ok_iff]
    exact ⟨fun ⟨_, ds, hds, _⟩ => ⟨ds, hds⟩, fun ⟨ds, hds⟩ => ⟨_, ds, hds, rfl⟩⟩
  · obtain ⟨before, line, after, hlines, hbefore, hline, hnumber⟩ :=
      Declaration.exists_of_ofLines_eq_error (parse_eq_error_iff.mp he)
    exact ⟨before, line, after, hlines, hbefore, hline, by rw [hnumber, Nat.add_comm]⟩
  · obtain ⟨ds, hds, rfl⟩ := parse_eq_ok_iff.mp hc
    have hlist := Declaration.forall_of_parse hds
    refine ⟨ds, Declaration.forall₂_of_ofLines hds, rfl, fun d hd => ⟨?_, ?_⟩⟩
    · refine Declaration.reads_owners fun honly => ?_
      rw [← Declaration.isEmptyPath_iff, (hlist d hd).2] at honly
      cases honly
    · exact holds_ofDeclarations (fun d hd => (hlist d hd).1) hd

/-- A method in a module that becomes a class, with a comment and a blank line; and a list with an
unknown kind in its third line. -/
theorem parse_complete_sample :
    let good : Text := "# a\nmethod A::B#run\n\n  class ::A\n"
    let bad : Text := "module A\n # b\nstruct B\nclass\n"
    let ds : List Declaration := [⟨.methodDef, "A::B#run"⟩, ⟨.classDef, "::A"⟩]
    (∀ line ∈ good.lines, Declaration.Sound line) ∧
      parse good = .ok (ofDeclarations ds) ∧
      (∃ declared : List Declaration, declared.length = 2 ∧
        ∀ d ∈ declared, (ofDeclarations ds).Holds d) ∧
      parse bad = .error ⟨3, .unknownKind "struct"⟩ ∧ ¬Declaration.Sound "struct B" := by
  intro good bad ds
  have hgood : parse good = .ok (ofDeclarations ds) := by rfl
  have hbad : parse bad = .error ⟨3, .unknownKind "struct"⟩ := by rfl
  obtain ⟨hsound, -, hloaded⟩ := parse_complete good
  obtain ⟨declared, hlines, -, hholds⟩ := hloaded _ hgood
  have hlength : declared.length = 2 := hlines.length_eq.symm.trans (by decide +kernel)
  obtain ⟨before, line, after, hsplit, -, hline, hnumber⟩ := (parse_complete bad).2.1 _ hbad
  have hthird : bad.lines[2]? = some ("struct B" : Text) := by decide +kernel
  have hbefore : 2 = before.length := Nat.succ.inj hnumber
  rw [hsplit, hbefore, List.getElem?_append_right (Nat.le_refl _), Nat.sub_self] at hthird
  have hsame : line = "struct B" := Option.some.inj hthird
  exact ⟨hsound.mp ⟨_, hgood⟩, hgood, ⟨declared, hlength, fun d hd => (hholds d hd).2⟩, hbad,
    hsame ▸ hline⟩

end Corpus
end DocTypes
