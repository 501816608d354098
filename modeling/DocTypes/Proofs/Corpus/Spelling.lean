import DocTypes.Corpus.File
import DocTypes.Proofs.Corpus.Outcome
import DocTypes.Proofs.Name.Components
import DocTypes.Proofs.Text.Lines

/-! # What names and paths are spelled with

Declaring cuts paths into names and puts nothing into them.  So what holds of every character of the
paths that were declared holds of the names of all entities (`spelled_ofDeclarations`), and of their
paths if it holds of the two marks that paths are put together with (`Spelled.path`).

This needs nothing of the declarations.  In particular a corpus that was read from a file, whatever
the file says, has no blank in its names and paths (`spelled_of_load`), for its declarations are
made of words (`isBlank_of_parse`). -/

namespace DocTypes

/-! ## Cutting a path -/

theorem Text.mem_of_mem_dropLead {t lead : Text} {ch : Char} (h : ch ∈ t.dropLead lead) :
    ch ∈ t := by
  unfold dropLead after? at h
  split at h
  · exact List.mem_of_mem_drop h
  · exact h

theorem Name.mem_of_mem_properComponents {t w : Text} {ch : Char} (hw : w ∈ properComponents t)
    (h : ch ∈ w) : ch ∈ t := mem_of_mem_components (List.mem_filter.mp hw).1 h

namespace Corpus

variable {c : Corpus} {id parent : EntityId} {name : Text} {kind : EntityKind}
variable {p : Char → Bool}

/-- The owners and the name that a path says hold no character but those of the path. -/
theorem mem_path_of_ownerAndName {path : Text} {owners : List Text}
    (h : ownerAndName path kind = (owners, name)) :
    (∀ owner ∈ owners, ∀ ch ∈ owner, ch ∈ path) ∧ ∀ ch ∈ name, ch ∈ path := by
  have hdrop : ∀ ch ∈ path.dropLead Name.separator, ch ∈ path := fun _ => Text.mem_of_mem_dropLead
  have hparts : ∀ w ∈ Name.properComponents (path.dropLead Name.separator), ∀ ch ∈ w, ch ∈ path :=
    fun w hw ch hch => hdrop ch (Name.mem_of_mem_properComponents hw hch)
  unfold ownerAndName at h
  dsimp only at h
  split at h
  · next owner found _ hcut =>
    obtain ⟨mark, -, heq, -⟩ := Text.cutAtLast?_eq_some hcut
    rw [heq] at hdrop
    cases h
    constructor
    · intro w hw ch hch
      exact hdrop ch (List.mem_append_left _ (Name.mem_of_mem_properComponents hw hch))
    · intro ch hch
      exact hdrop ch (List.mem_append_right _ (List.mem_cons_of_mem _ hch))
  · cases h
    refine ⟨fun w hw => hparts w ((List.dropLast_sublist _).subset hw), ?_⟩
    cases hlast : (Name.properComponents (path.dropLead Name.separator)).getLast? with
    | none => exact fun ch hch => absurd hch List.not_mem_nil
    | some last => exact hparts last (List.mem_of_getLast? hlast)

/-! ## Names -/

/-- The names of all entities are spelled with certain characters. -/
def Spelled (p : Char → Bool) (c : Corpus) : Prop :=
  ∀ id e, c.entity? id = some e → ∀ ch ∈ e.name, p ch = true

theorem name_of_update {place : EntityId} {change : Entity → Entity} {e' : Entity}
    (h : (c.update place change).entity? id = some e') (hchange : ∀ e, (change e).name = e.name) :
    ∃ e, c.entity? id = some e ∧ e'.name = e.name := by
  rw [entity?_update] at h
  split at h
  · obtain ⟨e, he, rfl⟩ := Option.map_eq_some_iff.mp h
    exact ⟨e, he, hchange e⟩
  · exact ⟨e', h, rfl⟩

/-- Declaring renames nothing: every entity has the name it had, or the one that is declared. -/
theorem name_of_define {e' : Entity} (h : (c.define parent name kind).1.entity? id = some e') :
    e'.name = name ∨ ∃ e, c.entity? id = some e ∧ e'.name = e.name := by
  unfold define at h
  split at h
  · by_cases hclass : kind = .classDef
    · rw [if_pos hclass] at h
      exact Or.inr (name_of_update h fun _ => rfl)
    · rw [if_neg hclass] at h
      exact Or.inr ⟨e', h, rfl⟩
  · obtain ⟨e, he, hname⟩ := name_of_update h fun _ => rfl
    have hpush : (c.entities.push ⟨name, kind, some parent, []⟩)[id]? = some e := he
    rw [Array.getElem?_push] at hpush
    split at hpush
    · cases hpush
      exact Or.inl hname
    · exact Or.inr ⟨e, hpush, hname⟩

theorem spelled_empty : Spelled p .empty := by
  intro id e he ch hch
  rw [(eq_root_of_empty he).2] at hch
  cases hch

theorem Spelled.define (h : c.Spelled p) (hname : ∀ ch ∈ name, p ch = true) :
    (c.define parent name kind).1.Spelled p := by
  intro id e' he'
  rcases name_of_define he' with heq | ⟨e, he, heq⟩
  · rw [heq]
    exact hname
  · rw [heq]
    exact h id e he

theorem Spelled.defineOwners {names : List Text} (h : c.Spelled p)
    (hnames : ∀ name ∈ names, ∀ ch ∈ name, p ch = true) :
    (c.defineOwners id names).1.Spelled p := by
  induction names generalizing c id with
  | nil => exact h
  | cons name names ih =>
    obtain ⟨hname, hrest⟩ := List.forall_mem_cons.mp hnames
    exact ih (h.define hname) hrest

theorem Spelled.declare (h : c.Spelled p) {d : Declaration} (hd : ∀ ch ∈ d.path, p ch = true) :
    (c.declare d).Spelled p := by
  have hsplit : ownerAndName d.path d.kind =
      ((ownerAndName d.path d.kind).1, (ownerAndName d.path d.kind).2) := rfl
  obtain ⟨howners, hname⟩ := mem_path_of_ownerAndName hsplit
  have hdefined : (c.defineOwners rootId (ownerAndName d.path d.kind).1).1.Spelled p :=
    h.defineOwners fun w hw ch hch => hd ch (howners w hw ch hch)
  exact hdefined.define fun ch hch => hd ch (hname ch hch)

/-- **Names are spelled with the characters of the paths that were declared.** -/
theorem spelled_ofDeclarations {ds : List Declaration}
    (hds : ∀ d ∈ ds, ∀ ch ∈ d.path, p ch = true) : (ofDeclarations ds).Spelled p := by
  have hfold : ∀ (ds : List Declaration) (c : Corpus), c.Spelled p →
      (∀ d ∈ ds, ∀ ch ∈ d.path, p ch = true) → (ds.foldl declare c).Spelled p := by
    intro ds
    induction ds with
    | nil => exact fun c h _ => h
    | cons d ds ih =>
      intro c h hds
      obtain ⟨hd, hrest⟩ := List.forall_mem_cons.mp hds
      exact ih _ (h.declare hd) hrest
  exact hfold ds .empty spelled_empty hds

/-! ## Paths -/

theorem mem_pathOf (hcolon : p ':' = true) (hsign : p '#' = true) {es : List Entity}
    (h : ∀ e ∈ es, ∀ ch ∈ e.name, p ch = true) : ∀ ch ∈ pathOf es, p ch = true := by
  fun_induction pathOf es with
  | case1 => exact fun ch hch => absurd hch List.not_mem_nil
  | case2 e => exact fun ch hch => absurd hch List.not_mem_nil
  | case3 e outer rest _ => exact h e List.mem_cons_self
  | case4 e outer rest _ ih =>
    rw [List.forall_mem_append, List.forall_mem_append]
    refine ⟨⟨ih fun e he => h e (List.mem_cons_of_mem _ he), ?_⟩, h e List.mem_cons_self⟩
    split
    · exact List.forall_mem_singleton.mpr hsign
    · exact List.forall_mem_cons.mpr ⟨hcolon, List.forall_mem_singleton.mpr hcolon⟩

/-- Paths hold the characters of names, colons and number signs. -/
theorem Spelled.path (h : c.Spelled p) (hcolon : p ':' = true) (hsign : p '#' = true)
    (id : EntityId) : ∀ ch ∈ c.path id, p ch = true := by
  refine mem_pathOf hcolon hsign fun e he => ?_
  obtain ⟨place, -, hplace⟩ := List.mem_filterMap.mp he
  exact h place e hplace

/-! ## Declaration files -/

end Corpus

namespace Declaration

variable {line source : Text} {d : Declaration} {ds : List Declaration}

/-- What a line declares is one of its words. -/
theorem path_mem_words (h : ofLine? line = .ok (some d)) :
    d.path ∈ Text.words (Text.trim line) := by
  unfold ofLine? at h
  dsimp only at h
  split at h
  · cases h
  · split at h
    · next word path hwords =>
      split at h
      · cases h
      · split at h
        · cases h
        · cases h
          rw [hwords]
          exact List.mem_cons_of_mem _ List.mem_cons_self
    · cases h

theorem isBlank_of_ofLines {number : Nat} {lines : List Text} (h : ofLines number lines = .ok ds) :
    ∀ d ∈ ds, ∀ ch ∈ d.path, Text.isBlank ch = false := by
  induction lines generalizing number ds with
  | nil =>
    cases h
    exact fun d hd => absurd hd List.not_mem_nil
  | cons line lines ih =>
    rw [ofLines] at h
    split at h
    · cases h
    · next declared hline =>
      split at h
      · cases h
      · next rest hrest =>
        cases h
        refine List.forall_mem_append.mpr ⟨fun d hd => ?_, ih hrest⟩
        obtain rfl := Option.mem_toList.mp hd
        exact Text.isBlank_of_mem_words (path_mem_words hline)

/-- **No path in a declaration list holds a blank.** -/
theorem isBlank_of_parse (h : parse source = .ok ds) :
    ∀ d ∈ ds, ∀ ch ∈ d.path, Text.isBlank ch = false := isBlank_of_ofLines h

end Declaration

namespace Corpus

/-- **No name in a corpus that was read from a file holds a blank.** -/
theorem spelled_of_load {files : FileSystem} {path : Text} {c : Corpus}
    (h : load files path = .ok c) : c.Spelled (!Text.isBlank ·) := by
  unfold load at h
  split at h
  · cases h
  · split at h
    · cases h
    · next corpus hparse =>
      cases h
      cases hdeclarations : Declaration.parse _ with
      | error reason =>
        rw [parse, hdeclarations] at hparse
        cases hparse
      | ok ds =>
        rw [parse, hdeclarations] at hparse
        cases hparse
        refine spelled_ofDeclarations fun d hd ch hch => ?_
        rw [Declaration.isBlank_of_parse hdeclarations d hd ch hch]
        rfl

end Corpus
end DocTypes
