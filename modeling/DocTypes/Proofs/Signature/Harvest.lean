import DocTypes.Proofs.Name.Components
import DocTypes.Signature.Scan

/-! # Harvested names

Whatever a signature file holds, the names that are harvested from it are paths of words, each
listed under the last of them (`proper_of_scan`).

The names are those that the scan found in the lines, and what stands at the front of a line is
taken for a name only as far as it is an identifier (`isSimple_of_splitConstant`).  The one
exception are interfaces, whose names may be anything and which are not harvested.  The scan moves
declarations from frame to frame and makes no names, so all of them stay named like that
(`State.Named`), event by event (`State.Named.step`) and from the first line to the last
(`named_of_scan`). -/

namespace DocTypes

/-- A name that is listed under the last word of its path. -/
def KnownName.Proper (known : KnownName) : Prop :=
  ∃ outer, Name.Words (outer ++ [known.name]) ∧ known.path = Name.join (outer ++ [known.name])

/-- A declaration with an identifier for its name, and with such declarations in it.  Interfaces may
be called by anything. -/
inductive Signature.Named : Signature → Prop where
  | node {kind : SignatureKind} {name : Text} {members : List Signature}
      (simple : kind ≠ .interfaceDef → Name.isSimple name = true)
      (members_named : ∀ m ∈ members, m.Named) : Named (.node kind name members)

/-- A frame that will become a named declaration, if it becomes one. -/
def FrameKind.Named : FrameKind → Prop
  | declaration kind name => kind ≠ .interfaceDef → Name.isSimple name = true
  | transparent | code => True

/-- An event that introduces nothing but named declarations. -/
def LineEvent.Named : LineEvent → Prop
  | declares kind name => kind ≠ .interfaceDef → Name.isSimple name = true
  | opens frame => frame.Named
  | closes | lacksName _ => True

/-! ## Names in lines -/

namespace SignatureLine

variable {t name after line keyword rest : Text}

/-- Characters of words are a word if the first is no digit. -/
theorem isWord_of_takeWhile {first : Char} {others : Text}
    (h : t.takeWhile Name.isWordPart = first :: others) (hdigit : ¬first.isDigit = true) :
    Name.isWord (first :: others) = true := by
  have hall : (first :: others).all Name.isWordPart = true := h ▸ List.all_takeWhile
  rw [List.all_cons, Bool.and_eq_true] at hall
  obtain ⟨hfirst, hothers⟩ := hall
  have hstart : Name.isWordStart first = true := by
    simpa [Name.isWordPart, Name.isWordStart, Char.isAlphanum, hdigit] using hfirst
  simp [Name.isWord, hstart, hothers]

/-- What is taken word by word is a path of words. -/
theorem words_of_takePath {words : Nat} (h : takePath words t ≠ []) :
    ∃ parts, Name.Words parts ∧ takePath words t = Name.join parts := by
  fun_induction takePath words t with
  | case1 => exact absurd rfl h
  | case2 => exact absurd rfl h
  | case3 => exact absurd rfl h
  | case4 words t word first others hword hdigit =>
    rw [hword]
    exact ⟨_, .singleton (isWord_of_takeWhile hword hdigit), (Name.join_singleton _).symm⟩
  | case5 words t word first others hword hdigit rest _ hmore ih =>
    obtain ⟨parts, hparts, heq⟩ := ih fun hnil => hmore hnil
    rw [hword, heq]
    refine ⟨_, hparts.cons (isWord_of_takeWhile hword hdigit), ?_⟩
    rw [Name.join_cons _ hparts.ne_nil, List.append_assoc]
    rfl
  | case6 words t word first others hword hdigit =>
    rw [hword]
    exact ⟨_, .singleton (isWord_of_takeWhile hword hdigit), (Name.join_singleton _).symm⟩

theorem isSimple_of_leadingPath (h : leadingPath t ≠ []) :
    Name.isSimple (leadingPath t) = true := by
  unfold leadingPath at h ⊢
  split at h
  · next rest _ =>
    split at h
    · exact absurd rfl h
    · next hpath =>
      obtain ⟨parts, hparts, heq⟩ := words_of_takePath fun hnil => hpath hnil
      rw [heq]
      exact Name.isSimple_separator_join hparts
  · obtain ⟨parts, hparts, heq⟩ := words_of_takePath h
    rw [heq]
    exact Name.isSimple_join hparts

/-- **A name that is read off a line is an identifier.** -/
theorem isSimple_of_splitConstant (h : splitConstant? t = some (name, after)) :
    Name.isSimple name = true := by
  unfold splitConstant? at h
  dsimp only at h
  split at h
  · cases h
  · next hpath =>
    cases h
    exact isSimple_of_leadingPath hpath

/-! ## Events -/

variable {event : LineEvent}

theorem named_of_namespaceEvents {isWhole : Text → Bool}
    (h : event ∈ namespaceEvents keyword rest isWhole) : event.Named := by
  unfold namespaceEvents at h
  cases hsplit : splitConstant? rest with
  | none =>
    simp only [hsplit, List.mem_singleton] at h
    obtain rfl := h
    trivial
  | some parts =>
    have hsimple := isSimple_of_splitConstant hsplit
    simp only [hsplit] at h
    split at h
    all_goals
      obtain rfl := List.mem_singleton.mp h
      exact fun _ => hsimple

theorem named_of_constantEvents {isDefined : Text → Bool}
    (h : event ∈ constantEvents line isDefined) : event.Named := by
  unfold constantEvents at h
  split at h
  · cases h
  · next hsplit =>
    split at h
    · obtain rfl := List.mem_singleton.mp h
      exact fun _ => isSimple_of_splitConstant hsplit
    · cases h

theorem named_of_opensUnlessEnded {frame : FrameKind} (h : event ∈ opensUnlessEnded frame rest)
    (hframe : frame.Named) : event.Named := by
  unfold opensUnlessEnded at h
  split at h
  · cases h
  · obtain rfl := List.mem_singleton.mp h
    exact hframe

theorem named_of_rbsEvents (h : event ∈ rbsEvents line) : event.Named := by
  unfold rbsEvents at h
  dsimp only at h
  split at h
  · exact named_of_namespaceEvents h
  split at h
  · exact named_of_opensUnlessEnded h fun hkind => absurd rfl hkind
  split at h
  · obtain rfl := List.mem_singleton.mp h
    trivial
  · exact named_of_constantEvents h

theorem named_of_rbiEvents (h : event ∈ rbiEvents line) : event.Named := by
  unfold rbiEvents at h
  dsimp only at h
  split at h
  · exact named_of_opensUnlessEnded h trivial
  split at h
  · exact named_of_namespaceEvents h
  split at h
  · exact named_of_opensUnlessEnded h trivial
  split at h
  · obtain rfl := List.mem_singleton.mp h
    trivial
  split at h
  · exact named_of_opensUnlessEnded h trivial
  · rcases List.mem_append.mp h with h | h
    · exact named_of_constantEvents h
    · split at h
      · obtain rfl := List.mem_singleton.mp h
        trivial
      · cases h

end SignatureLine

theorem LineEvent.named_of_mem {format : SignatureFormat} {line : Text} {event : LineEvent}
    (h : event ∈ LineEvent.of format line) : event.Named := by
  unfold LineEvent.of at h
  dsimp only at h
  split at h
  · cases h
  · cases format with
    | rbs => exact SignatureLine.named_of_rbsEvents h
    | rbi => exact SignatureLine.named_of_rbiEvents h

/-! ## The scan -/

namespace Scan.State

/-- Where nothing but named declarations were met so far. -/
structure Named (s : State) : Prop where
  topLevel : ∀ m ∈ s.topLevel, m.Named
  frames : ∀ frame ∈ s.frames, frame.kind.Named ∧ ∀ m ∈ frame.members, m.Named

variable {s s' : State} {number : Nat} {text : Text}

theorem Named.add {m : Signature} (h : s.Named) (hm : m.Named) : (s.add m).Named := by
  have hend : ∀ members : List Signature, (∀ n ∈ members, n.Named) →
      ∀ n ∈ members ++ [m], n.Named :=
    fun members hmembers => List.forall_mem_append.mpr ⟨hmembers, List.forall_mem_singleton.mpr hm⟩
  unfold State.add
  split
  · next hnone => exact ⟨hend _ h.topLevel, h.frames⟩
  · next frame outer hframes =>
    split
    · exact h
    · have hall := h.frames
      rw [hframes] at hall
      obtain ⟨⟨hkind, hmembers⟩, houter⟩ := List.forall_mem_cons.mp hall
      exact ⟨h.topLevel, List.forall_mem_cons.mpr ⟨⟨hkind, hend _ hmembers⟩, houter⟩⟩

theorem Named.addAll {signatures : List Signature} (h : s.Named)
    (hnamed : ∀ m ∈ signatures, m.Named) : (s.addAll signatures).Named := by
  induction signatures generalizing s with
  | nil => exact h
  | cons m signatures ih =>
    obtain ⟨hm, hrest⟩ := List.forall_mem_cons.mp hnamed
    exact ih (h.add hm) hrest

theorem Named.push {kind : FrameKind} (h : s.Named) (hkind : kind.Named) :
    (s.push kind number text).Named :=
  ⟨h.topLevel, List.forall_mem_cons.mpr ⟨⟨hkind, fun _ hm => absurd hm List.not_mem_nil⟩, h.frames⟩⟩

theorem Named.pop (h : s.Named) (hpop : s.pop? = some s') : s'.Named := by
  unfold pop? at hpop
  split at hpop
  · cases hpop
  · next frame outer hframes =>
    have hall := h.frames
    rw [hframes] at hall
    obtain ⟨⟨hkind, hmembers⟩, houter⟩ := List.forall_mem_cons.mp hall
    have hrest : (⟨s.topLevel, outer⟩ : State).Named := ⟨h.topLevel, houter⟩
    dsimp only at hpop
    split at hpop
    · next kind name hdeclaration =>
      cases hpop
      rw [hdeclaration] at hkind
      exact hrest.add (.node hkind hmembers)
    · cases hpop
      exact hrest.addAll hmembers
    · cases hpop
      exact hrest

theorem Named.step {event : LineEvent} (h : s.Named) (hevent : event.Named)
    (hstep : s.step number text event = .ok s') : s'.Named := by
  cases event with
  | declares kind name =>
    cases hstep
    exact h.add (.node hevent fun _ hm => absurd hm List.not_mem_nil)
  | opens kind =>
    cases hstep
    exact h.push hevent
  | closes =>
    rw [State.step] at hstep
    split at hstep
    · next hpop =>
      cases hstep
      exact h.pop hpop
    · cases hstep
  | lacksName keyword => cases hstep

theorem Named.steps {events : List LineEvent} (h : s.Named) (hevents : ∀ e ∈ events, e.Named)
    (hsteps : s.steps number text events = .ok s') : s'.Named := by
  induction events generalizing s with
  | nil =>
    cases hsteps
    exact h
  | cons event events ih =>
    obtain ⟨hevent, hrest⟩ := List.forall_mem_cons.mp hevents
    rw [State.steps] at hsteps
    split at hsteps
    · next hstep => exact ih (h.step hevent hstep) hrest hsteps
    · cases hsteps

theorem Named.run {format : SignatureFormat} {lines : List Text} (h : s.Named)
    (hrun : s.run format number lines = .ok s') : s'.Named := by
  induction lines generalizing s number with
  | nil =>
    cases hrun
    exact h
  | cons line lines ih =>
    rw [State.run] at hrun
    split at hrun
    · next hsteps => exact ih (h.steps (fun _ => LineEvent.named_of_mem) hsteps) hrun
    · cases hrun

end Scan.State

/-- **What a scan finds is called by identifiers**, except for interfaces. -/
theorem Signature.named_of_scan {format : SignatureFormat} {source : Text}
    {signatures : List Signature} (h : scan format source = .ok signatures) :
    ∀ m ∈ signatures, m.Named := by
  have hnil : ∀ m ∈ ([] : List Signature), m.Named := fun m hm => absurd hm List.not_mem_nil
  have hstart : Scan.State.start.Named := ⟨hnil, fun _ hframe => absurd hframe List.not_mem_nil⟩
  unfold scan at h
  split at h
  · next s hrun =>
    unfold Scan.State.finish at h
    split at h
    · cases h
      exact (hstart.run hrun).topLevel
    · cases h
  · cases h

/-! ## The harvest -/

theorem mem_harvestAllIn {known : KnownName} {outer : List Text} {signatures : List Signature} :
    known ∈ harvestAllIn outer signatures ↔ ∃ m ∈ signatures, known ∈ m.harvestIn outer := by
  induction signatures with
  | nil => simp [harvestAllIn]
  | cons m rest ih => simp [harvestAllIn, ih]

theorem words_extendPath {outer : List Text} {name : Text}
    (houter : ∀ w ∈ outer, Name.isWord w = true) (h : Name.isSimple name = true) :
    Name.Words (extendPath outer name) := by
  obtain ⟨hne, hwords⟩ := Name.words_properComponents h
  unfold extendPath
  split
  · exact ⟨hne, hwords⟩
  · have hall := List.forall_mem_append.mpr ⟨houter, hwords⟩
    exact ⟨List.append_ne_nil_of_right_ne_nil outer hne, hall⟩

/-- What is harvested from a named declaration that stands in words is proper. -/
theorem Signature.Named.proper {m : Signature} (h : m.Named) {outer : List Text}
    (houter : ∀ w ∈ outer, Name.isWord w = true) : ∀ known ∈ m.harvestIn outer, known.Proper := by
  induction h generalizing outer with
  | node hsimple hmembers ih =>
    intro known hknown
    rw [Signature.harvestIn] at hknown
    split at hknown
    · cases hknown
    · next hkind =>
      have hwords := words_extendPath houter (hsimple hkind)
      dsimp only at hknown
      split at hknown
      · cases hknown
      · next last hlast =>
        obtain ⟨around, hpath⟩ := List.getLast?_eq_some_iff.mp hlast
        rcases List.mem_cons.mp hknown with rfl | hknown
        · rw [hpath] at hwords ⊢
          exact ⟨around, hwords, rfl⟩
        · obtain ⟨member, hmember, hknown⟩ := mem_harvestAllIn.mp hknown
          exact ih member hmember hwords.word known hknown

/-- **The names that are harvested from a file are paths of words, listed under the last word.** -/
theorem proper_of_scan {format : SignatureFormat} {source : Text} {signatures : List Signature}
    (h : Signature.scan format source = .ok signatures) :
    ∀ known ∈ harvest signatures, known.Proper := by
  intro known hknown
  obtain ⟨m, hm, hknown⟩ := mem_harvestAllIn.mp hknown
  have htop : ∀ w ∈ ([] : List Text), Name.isWord w = true := fun w hw => absurd hw List.not_mem_nil
  exact (Signature.named_of_scan h m hm).proper htop known hknown

end DocTypes
