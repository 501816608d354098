import DocTypes.Proofs.Signature.Harvest
import Mathlib.Data.List.Basic

/-! # Recorded declarations and their entries

A declaration of a forest is told by its position, the numbers of the members that lead to it from
outside in.  The order of positions as lists of numbers is the order in which declarations come in a
file: one that is around another is before it, and so are earlier members, with all that is in them.

A declaration is *recorded* if it is no interface and in none (`Recorded`).  The harvest of a forest
is an enumeration of what is recorded (`Recording`): in this order, each declaration once, and at the
path that comes about when its own components are put behind those of the entry around it, or
behind none when its name begins at the top level (`exists_recording_of_scan`). -/

namespace DocTypes

namespace Signature

def kind : Signature → SignatureKind
  | node kind _ _ => kind

def name : Signature → Text
  | node _ name _ => name

def members : Signature → List Signature
  | node _ _ members => members

/-- The declarations that lead to a position from outside in, with the one at it in the end. -/
def wayTo? (forest : List Signature) : List Nat → Option (List Signature)
  | [] => some []
  | number :: position =>
    match forest[number]? with
    | some s => (wayTo? s.members position).map (s :: ·)
    | none => none

/-- Whether there is a declaration at a position that is neither an interface nor inside one. -/
def Recorded (forest : List Signature) (position : List Nat) : Prop :=
  position ≠ [] ∧ ∃ way, wayTo? forest position = some way ∧ ∀ s ∈ way, s.kind ≠ .interfaceDef

/-- Entries for what is recorded in a forest, in the order of the declarations. -/
structure Recording (forest : List Signature) where
  positions : List (List Nat)
  /-- The entry for the declaration at a position. -/
  entry : List Nat → KnownName
  /-- No declaration has two entries, and each comes before what is in it and what is after it. -/
  ordered : positions.Pairwise (· < ·)
  recorded : ∀ position, position ∈ positions ↔ Recorded forest position
  /-- What is around a recorded declaration is recorded, too. -/
  enclosed : ∀ around number, around ++ [number] ∈ positions → around = [] ∨ around ∈ positions
  /-- The components of a declaration come behind those of the one around it, unless there is none or
  the name begins at the top level. -/
  placed : ∀ around number way s, around ++ [number] ∈ positions →
    wayTo? forest (around ++ [number]) = some (way ++ [s]) →
    (entry (around ++ [number])).path = Name.join
      ((if around = [] ∨ Name.isAbsolute s.name = true then []
        else Name.components (entry around).path) ++ Name.properComponents s.name)
  simple : ∀ position ∈ positions, Name.isSimple (entry position).path = true
  relative : ∀ position ∈ positions, Name.isAbsolute (entry position).path = false
  last : ∀ position ∈ positions, (entry position).name = Name.lastComponent (entry position).path

/-! ## Listing what is recorded -/

mutual

/-- The positions of what is recorded in a declaration of the given number, itself before the rest,
each with the way there. -/
def listed (number : Nat) : Signature → List (List Nat × List Signature)
  | .node kind name members =>
    if kind = .interfaceDef then []
    else ([number], [.node kind name members]) :: (listedFrom 0 members).map
      fun (position, way) => (number :: position, .node kind name members :: way)

/-- The positions of what is recorded in several declarations, numbered from the given number on. -/
def listedFrom (number : Nat) : List Signature → List (List Nat × List Signature)
  | [] => []
  | s :: rest => s.listed number ++ listedFrom (number + 1) rest

end

variable {forest : List Signature} {s : Signature} {number : Nat} {position : List Nat}
  {way : List Signature}

theorem listed_eq (number : Nat) (s : Signature) : s.listed number =
    if s.kind = .interfaceDef then []
    else ([number], [s]) :: (listedFrom 0 s.members).map
      fun (position, way) => (number :: position, s :: way) := by
  cases s
  rw [listed]
  rfl

theorem mem_listedFrom {e : List Nat × List Signature} :
    e ∈ listedFrom number forest ↔
      ∃ (i : Nat) (s : Signature), forest[i]? = some s ∧ e ∈ s.listed (number + i) := by
  induction forest generalizing number with
  | nil => simp [listedFrom]
  | cons s rest ih =>
    rw [listedFrom, List.mem_append, ih]
    constructor
    · rintro (hfirst | ⟨i, m, hm, he⟩)
      · exact ⟨0, s, rfl, hfirst⟩
      · refine ⟨i + 1, m, hm, ?_⟩
        rwa [Nat.add_assoc, Nat.add_comm 1 i] at he
    · rintro ⟨i, m, hm, he⟩
      cases i with
      | zero =>
        obtain rfl := Option.some.inj hm
        exact Or.inl he
      | succ i =>
        refine Or.inr ⟨i, m, hm, ?_⟩
        rwa [Nat.add_assoc, Nat.add_comm 1 i]

/-- A declaration is listed first, and then what is listed in it, with the way prolonged. -/
theorem mem_listed : (position, way) ∈ s.listed number ↔ s.kind ≠ .interfaceDef ∧
    ∃ rest inner, position = number :: rest ∧ way = s :: inner ∧
      ((rest, inner) = ([], []) ∨ (rest, inner) ∈ listedFrom 0 s.members) := by
  rw [listed_eq]
  by_cases hkind : s.kind = .interfaceDef
  · simp [hkind]
  · rw [if_neg hkind, List.mem_cons, List.mem_map]
    constructor
    · rintro (heq | ⟨⟨rest, inner⟩, hmem, heq⟩)
      · cases heq
        exact ⟨hkind, [], [], rfl, rfl, Or.inl rfl⟩
      · cases heq
        exact ⟨hkind, rest, inner, rfl, rfl, Or.inr hmem⟩
    · rintro ⟨-, rest, inner, rfl, rfl, heq | hmem⟩
      · cases heq
        exact Or.inl rfl
      · exact Or.inr ⟨(rest, inner), hmem, rfl⟩

/-- **What is listed is what is recorded**, with the way there. -/
theorem mem_listedFrom_zero : (position, way) ∈ listedFrom 0 forest ↔
    position ≠ [] ∧ wayTo? forest position = some way ∧ ∀ s ∈ way, s.kind ≠ .interfaceDef := by
  induction position generalizing forest way with
  | nil =>
    refine iff_of_false ?_ fun h => h.1 rfl
    intro h
    obtain ⟨i, s, -, he⟩ := mem_listedFrom.mp h
    obtain ⟨-, rest, inner, hrest, -⟩ := mem_listed.mp he
    cases hrest
  | cons i position ih =>
    -- Behind the first number there is nothing, or what is listed for the members.
    have hinner : ∀ (s : Signature) (inner : List Signature),
        ((position, inner) = ([], []) ∨ (position, inner) ∈ listedFrom 0 s.members) ↔
          wayTo? s.members position = some inner ∧ ∀ m ∈ inner, m.kind ≠ .interfaceDef := by
      intro s inner
      rw [ih, Prod.mk.injEq]
      by_cases hposition : position = []
      · subst hposition
        simp [wayTo?, eq_comm]
        rintro rfl
        simp
      · simp [hposition]
    rw [mem_listedFrom, wayTo?]
    constructor
    · rintro ⟨j, s, hs, he⟩
      obtain ⟨hkind, rest, inner, heq, rfl, hrest⟩ := mem_listed.mp he
      obtain ⟨rfl, rfl⟩ : i = j ∧ position = rest := by simpa using heq
      obtain ⟨hway, hinterfaces⟩ := (hinner s inner).mp hrest
      rw [hs]
      refine ⟨List.cons_ne_nil _ _, ?_, List.forall_mem_cons.mpr ⟨hkind, hinterfaces⟩⟩
      dsimp only
      rw [hway]
      rfl
    · rintro ⟨-, hway, hinterfaces⟩
      split at hway
      · next s hs =>
        obtain ⟨inner, hrest, rfl⟩ := Option.map_eq_some_iff.mp hway
        obtain ⟨hkind, hinterfaces⟩ := List.forall_mem_cons.mp hinterfaces
        refine ⟨i, s, hs, mem_listed.mpr ⟨hkind, position, inner, by rw [Nat.zero_add], rfl, ?_⟩⟩
        exact (hinner s inner).mpr ⟨hrest, hinterfaces⟩
      · cases hway

/-! ## Order -/

mutual

theorem ordered_listed : ∀ (s : Signature) (number : Nat),
    (s.listed number).Pairwise fun e e' => e.1 < e'.1
  | .node kind name members, number => by
    rw [listed]
    by_cases hkind : kind = .interfaceDef
    · rw [if_pos hkind]
      exact .nil
    · rw [if_neg hkind, List.pairwise_cons, List.pairwise_map]
      constructor
      · intro e he
        obtain ⟨⟨position, way⟩, hmem, rfl⟩ := List.mem_map.mp he
        have hne : position ≠ [] := (mem_listedFrom_zero.mp hmem).1
        obtain ⟨first, rest, rfl⟩ := List.exists_cons_of_ne_nil hne
        exact List.cons_lt_cons_iff.mpr (Or.inr ⟨rfl, List.nil_lt_cons _ _⟩)
      · refine (ordered_listedFrom members 0).imp ?_
        intro e e' hlt
        exact List.cons_lt_cons_iff.mpr (Or.inr ⟨rfl, hlt⟩)

theorem ordered_listedFrom : ∀ (forest : List Signature) (number : Nat),
    (listedFrom number forest).Pairwise fun e e' => e.1 < e'.1
  | [], _ => .nil
  | s :: rest, number => by
    rw [listedFrom, List.pairwise_append]
    refine ⟨ordered_listed s number, ordered_listedFrom rest (number + 1), ?_⟩
    rintro ⟨position, way⟩ he ⟨position', way'⟩ he'
    -- Later members have greater numbers.
    obtain ⟨i, m, -, hm⟩ := mem_listedFrom.mp he'
    obtain ⟨-, front, -, rfl, -⟩ := mem_listed.mp he
    obtain ⟨-, back, -, rfl, -⟩ := mem_listed.mp hm
    exact List.cons_lt_cons_iff.mpr (Or.inl (by omega))

end

/-! ## Paths -/

/-- The components of the path of the last declaration on a way that begins in `outer`. -/
def pathAlong (outer : List Text) (way : List Signature) : List Text :=
  way.foldl (fun path s => extendPath path s.name) outer

/-- The entry for a path. -/
def entryFor (path : List Text) : KnownName := ⟨path.getLast?.getD [], Name.join path⟩

variable {outer : List Text}

theorem pathAlong_concat (way : List Signature) (s : Signature) :
    pathAlong outer (way ++ [s]) = extendPath (pathAlong outer way) s.name := by
  rw [pathAlong, List.foldl_append]
  rfl

theorem isWord_of_mem_pathAlong (houter : ∀ w ∈ outer, Name.isWord w = true)
    (h : ∀ s ∈ way, Name.isSimple s.name = true) :
    ∀ w ∈ pathAlong outer way, Name.isWord w = true := by
  induction way generalizing outer with
  | nil => exact houter
  | cons s way ih =>
    obtain ⟨hs, hway⟩ := List.forall_mem_cons.mp h
    exact ih (words_extendPath houter hs).word hway

theorem harvestAllIn_eq {f : List Nat × List Signature → KnownName}
    (h : ∀ m ∈ forest, ∀ number, m.harvestIn outer = (m.listed number).map f) (number : Nat) :
    harvestAllIn outer forest = (listedFrom number forest).map f := by
  induction forest generalizing number with
  | nil => rfl
  | cons m rest ih =>
    obtain ⟨hm, hrest⟩ := List.forall_mem_cons.mp h
    rw [harvestAllIn, listedFrom, List.map_append, hm number, ih hrest (number + 1)]

/-- **What is harvested are the entries for what is listed**, in the same order. -/
theorem Named.harvestIn_eq (h : s.Named) (houter : ∀ w ∈ outer, Name.isWord w = true)
    (number : Nat) :
    s.harvestIn outer = (s.listed number).map fun e => entryFor (pathAlong outer e.2) := by
  induction h generalizing outer number with
  | @node kind name members hsimple _ ih =>
    rw [harvestIn, listed]
    by_cases hkind : kind = .interfaceDef
    · rw [if_pos hkind, if_pos hkind]
      rfl
    · have hwords := words_extendPath houter (hsimple hkind)
      obtain ⟨last, hlast⟩ : ∃ last, (extendPath outer name).getLast? = some last :=
        ⟨_, List.getLast?_eq_some_getLast hwords.ne_nil⟩
      have hentry : entryFor (pathAlong outer [.node kind name members]) =
          ⟨last, Name.join (extendPath outer name)⟩ := by
        show entryFor (extendPath outer name) = _
        rw [entryFor, hlast]
        rfl
      have hmembers := harvestAllIn_eq (fun m hm number => ih m hm hwords.word number) 0
      rw [if_neg hkind, if_neg hkind, List.map_cons, List.map_map, hentry]
      dsimp only
      rw [hlast, hmembers]
      rfl

/-! ## Recordings -/

theorem named_of_wayTo? (h : ∀ m ∈ forest, m.Named) (hway : wayTo? forest position = some way) :
    ∀ s ∈ way, s.Named := by
  induction position generalizing forest way with
  | nil =>
    obtain rfl := Option.some.inj hway
    exact List.forall_mem_nil _
  | cons number position ih =>
    rw [wayTo?] at hway
    split at hway
    · next s hs =>
      obtain ⟨inner, hinner, rfl⟩ := Option.map_eq_some_iff.mp hway
      have hnamed := h s (List.mem_of_getElem? hs)
      cases hnamed with
      | node hsimple hmembers =>
        exact List.forall_mem_cons.mpr ⟨.node hsimple hmembers, ih hmembers hinner⟩
    · cases hway

/-- The way to a position goes by the one around it. -/
theorem exists_of_wayTo?_concat (h : wayTo? forest (position ++ [number]) = some way) :
    ∃ around s, way = around ++ [s] ∧ wayTo? forest position = some around := by
  induction position generalizing forest way with
  | nil =>
    rw [List.nil_append, wayTo?] at h
    split at h
    · next s hs =>
      cases h
      exact ⟨[], s, rfl, rfl⟩
    · cases h
  | cons i position ih =>
    rw [List.cons_append, wayTo?] at h
    split at h
    · next m hm =>
      obtain ⟨inner, hinner, rfl⟩ := Option.map_eq_some_iff.mp h
      obtain ⟨around, s, rfl, haround⟩ := ih hinner
      refine ⟨m :: around, s, rfl, ?_⟩
      rw [wayTo?, hm]
      dsimp only
      rw [haround]
      rfl
    · cases h

theorem mem_positions_iff :
    position ∈ (listedFrom 0 forest).map (·.1) ↔ Recorded forest position := by
  constructor
  · intro h
    obtain ⟨⟨_, way⟩, hmem, rfl⟩ := List.mem_map.mp h
    obtain ⟨hne, hway⟩ := mem_listedFrom_zero.mp hmem
    exact ⟨hne, way, hway⟩
  · rintro ⟨hne, way, hway⟩
    exact List.mem_map.mpr ⟨(position, way), mem_listedFrom_zero.mpr ⟨hne, hway⟩, rfl⟩

/-- The way to a recorded declaration goes by what is around it, which is recorded if it is anything
at all. -/
theorem Recorded.exists_concat (h : Recorded forest (position ++ [number])) :
    ∃ way s, wayTo? forest (position ++ [number]) = some (way ++ [s]) ∧
      wayTo? forest position = some way ∧ s.kind ≠ .interfaceDef ∧
      ∀ m ∈ way, m.kind ≠ .interfaceDef := by
  obtain ⟨-, _, hway, hkinds⟩ := h
  obtain ⟨way, s, rfl, haround⟩ := exists_of_wayTo?_concat hway
  obtain ⟨hkinds, hkind⟩ := List.forall_mem_append.mp hkinds
  exact ⟨way, s, hway, haround, hkind s List.mem_cons_self, hkinds⟩

/-- The components of what is recorded are words. -/
theorem Recorded.words (h : Recorded forest position) (hnamed : ∀ m ∈ forest, m.Named) :
    ∃ way, wayTo? forest position = some way ∧ Name.Words (pathAlong [] way) := by
  obtain ⟨around, number, rfl⟩ := (List.eq_nil_or_concat' position).resolve_left h.1
  obtain ⟨way, s, hway, -, hkind, hkinds⟩ := h.exists_concat
  have hsimple : ∀ m ∈ way ++ [s], Name.isSimple m.name = true := by
    intro m hm
    have hkind : m.kind ≠ .interfaceDef := by
      rcases List.mem_append.mp hm with hm | hm
      · exact hkinds m hm
      · exact List.mem_singleton.mp hm ▸ hkind
    cases named_of_wayTo? hnamed hway m hm with
    | node hsimple _ => exact hsimple hkind
  obtain ⟨hsimples, hs⟩ := List.forall_mem_append.mp hsimple
  refine ⟨way ++ [s], hway, ?_⟩
  rw [pathAlong_concat]
  refine words_extendPath ?_ (hs s List.mem_cons_self)
  exact isWord_of_mem_pathAlong (List.forall_mem_nil _) hsimples

/-- The entry for the declaration at a position. -/
def entryAt (forest : List Signature) (position : List Nat) : KnownName :=
  entryFor (pathAlong [] ((wayTo? forest position).getD []))

theorem entryAt_eq (h : wayTo? forest position = some way) :
    entryAt forest position = entryFor (pathAlong [] way) := by
  rw [entryAt, h]
  rfl

/-- The path of an entry is taken apart into the components that it was put together from. -/
theorem Recorded.components_entryAt (h : Recorded forest position)
    (hnamed : ∀ m ∈ forest, m.Named) (hway : wayTo? forest position = some way) :
    Name.components (entryAt forest position).path = pathAlong [] way := by
  obtain ⟨_, hway', hwords⟩ := h.words hnamed
  obtain rfl := Option.some.inj (hway.symm.trans hway')
  rw [entryAt_eq hway]
  exact Name.components_join hwords

/-- **The components of a declaration come behind those of the entry around it.** -/
theorem Recorded.path_entryAt (h : Recorded forest (position ++ [number]))
    (hnamed : ∀ m ∈ forest, m.Named)
    (hway : wayTo? forest (position ++ [number]) = some (way ++ [s])) :
    (entryAt forest (position ++ [number])).path = Name.join
      ((if position = [] ∨ Name.isAbsolute s.name = true then []
        else Name.components (entryAt forest position).path) ++ Name.properComponents s.name) := by
  obtain ⟨around, m, hsame, haround, -, hkinds⟩ := h.exists_concat
  obtain ⟨rfl, heq⟩ := List.append_inj' (Option.some.inj (hway.symm.trans hsame)) rfl
  obtain rfl := List.singleton_inj.mp heq
  rw [entryAt_eq hway, pathAlong_concat]
  show Name.join (extendPath (pathAlong [] way) s.name) = _
  rw [extendPath]
  by_cases hne : position = []
  · -- Nothing is around, and nothing comes before the components.
    subst hne
    obtain rfl := Option.some.inj haround
    simp [pathAlong]
  · have hrecorded : Recorded forest position := ⟨hne, way, haround, hkinds⟩
    simp only [hne, false_or, hrecorded.components_entryAt hnamed haround]

/-- The recording of a forest with identifiers for names. -/
def recording (forest : List Signature) (h : ∀ m ∈ forest, m.Named) : Recording forest where
  positions := (listedFrom 0 forest).map (·.1)
  entry := entryAt forest
  ordered := List.pairwise_map.mpr (ordered_listedFrom forest 0)
  recorded := fun _ => mem_positions_iff
  enclosed := fun around number hmem => by
    obtain ⟨way, s, -, haround, -, hkinds⟩ := (mem_positions_iff.mp hmem).exists_concat
    by_cases hne : around = []
    · exact Or.inl hne
    · exact Or.inr (mem_positions_iff.mpr ⟨hne, way, haround, hkinds⟩)
  placed := fun _ _ _ _ hmem hway => (mem_positions_iff.mp hmem).path_entryAt h hway
  simple := fun position hmem => by
    obtain ⟨way, hway, hwords⟩ := (mem_positions_iff.mp hmem).words h
    rw [entryAt_eq hway]
    exact Name.isSimple_join hwords
  relative := fun position hmem => by
    obtain ⟨way, hway, hwords⟩ := (mem_positions_iff.mp hmem).words h
    rw [entryAt_eq hway]
    exact Name.isAbsolute_join hwords
  last := fun position hmem => by
    obtain ⟨way, hway, hwords⟩ := (mem_positions_iff.mp hmem).words h
    obtain ⟨outer, w, hpath⟩ := (List.eq_nil_or_concat' _).resolve_left hwords.ne_nil
    rw [hpath] at hwords
    rw [entryAt_eq hway, hpath, entryFor, List.getLast?_concat,
      Name.lastComponent_join (hwords.word w (by simp))]
    rfl

/-- **A harvest is an enumeration of what is recorded.** -/
theorem harvest_eq (h : ∀ m ∈ forest, m.Named) :
    harvest forest = (recording forest h).positions.map (recording forest h).entry := by
  have htop : ∀ w ∈ ([] : List Text), Name.isWord w = true := List.forall_mem_nil _
  have hlisted := harvestAllIn_eq (fun m hm number => (h m hm).harvestIn_eq htop number) 0
  rw [harvest, hlisted]
  show _ = ((listedFrom 0 forest).map (·.1)).map (entryAt forest)
  rw [List.map_map]
  refine List.map_congr_left fun e he => ?_
  exact (entryAt_eq (mem_listedFrom_zero.mp he).2.1).symm

/-- **Each recorded declaration is reported once, at its true path.**  Whatever forest a scan gives,
its harvest lists the entries of a recording of this forest, in order and nothing else. -/
theorem exists_recording_of_scan {format : SignatureFormat} {source : Text}
    {forest : List Signature} (h : scan format source = .ok forest) :
    ∃ r : Recording forest, harvest forest = r.positions.map r.entry :=
  ⟨recording forest (named_of_scan h), harvest_eq (named_of_scan h)⟩

/-- Below a name that begins at the top level the paths begin there, and next to it they do not. -/
theorem exists_recording_of_scan_nested :
    let source : Text :=
      "class A::B\nmodule ::C\nclass D\nend\nend\ninterface _I\nclass J\nend\nend\nclass E\nend\nend"
    let forest : List Signature :=
      [.node .classDef "A::B" [.node .moduleDef "::C" [.leaf .classDef "D"],
        .node .interfaceDef "_I" [.leaf .classDef "J"], .leaf .classDef "E"]]
    (scan .rbs source = .ok forest ∧
      harvest forest = [⟨"B", "A::B"⟩, ⟨"C", "C"⟩, ⟨"D", "C::D"⟩, ⟨"E", "A::B::E"⟩]) ∧
      ∃ r : Recording forest, harvest forest = r.positions.map r.entry := by
  intro source forest
  have hscan : scan .rbs source = .ok forest := rfl
  exact ⟨⟨hscan, by decide⟩, exists_recording_of_scan hscan⟩

end Signature
end DocTypes
