import DocTypes.Proofs.Conversion.IndexUse
import DocTypes.Proofs.Resolver.Inference
import Mathlib.Data.List.Induction

/-! # The life of the index

A resolver is asked one thing after another, and the files may be others each time (`Request`).  It
builds its index for the first operation that uses it and keeps it until it is cleared.  Which
operations use the index is told from the operation, the corpus and the host alone
(`Operation.usesIndex`), so what a resolver has become is read off its history: it has the index
over the files at the first use since it was last cleared (`after_eq`).

One operation is looked at first.  Its answer is the one that a resolver with the index would give
(`value_answer_indexed`), it leaves that resolver if it uses the index and is no different from
before if it does not (`resolver_answer`), and what it reports are its own findings, with those of
the index at one place among them if it builds it (`diagnostics_answer_split`).  A conversion that
belongs to no entity does not use the index, and it shows nothing of the resolver that is asked
(`convert_scopeless`).  With that, every answer in every history is known (`answer_after`). -/

namespace DocTypes.Resolver

/-- What may be asked of a resolver, or done to it. -/
inductive Operation where
  | prepare
  | clear
  | isPrepared
  | knownNames
  | pathsFor (name : Text)
  | pathFor (name : Text)
  | resolves (scope : EntityId) (name : Text)
  | convert (settings : Settings) (entity? : Option EntityId) (tag : Annotation)

/-- What an operation may answer. -/
inductive Reply where
  | done
  | truth (holds : Bool)
  | count (n : Nat)
  | paths (paths : List Text)
  | path (path? : Option Text)
  | type (type : TypeExpr)
  deriving DecidableEq

/-- An operation, and the files as they are then. -/
structure Request where
  files : FileSystem
  operation : Operation

/-- What a resolver answers to a request. -/
def Request.answer (r : Resolver) (q : Request) : Answer Reply :=
  match q.operation with
  | .prepare => (r.prepare q.files).map fun _ => .done
  | .clear => ⟨.done, [], r.clear⟩
  | .isPrepared => ⟨.truth r.isPrepared, [], r⟩
  | .knownNames => (r.knownNames q.files).map .count
  | .pathsFor name => (r.pathsFor q.files name).map .paths
  | .pathFor name => (r.pathFor? q.files name).map .path
  | .resolves scope name => ⟨.truth (r.resolves scope name), [], r⟩
  | .convert settings entity? tag => (r.convert q.files settings entity? tag).map .type

/-- What becomes of a resolver by requests, one after another. -/
def after (r : Resolver) (history : List Request) : Resolver :=
  history.foldl (fun r q => (q.answer r).resolver) r

/-! ## Which operations use the index -/

namespace Operation

/-- Whether an operation makes a resolver forget its index. -/
def isClear : Operation → Bool
  | clear => true
  | _ => false

/-- Whether an operation uses the index.  A conversion does when it asks the index, be it an empty
one. -/
def usesIndex (r : Resolver) : Operation → Bool
  | prepare | knownNames => true
  | pathsFor name | pathFor name => !Name.isAbsolute name
  | clear | isPrepared | resolves _ _ => false
  | convert settings entity? tag =>
    asksIndex (Conversion.convert settings (entity?.map (r.scopeAt (.pure ⟨[]⟩))) tag).notes

/-- The operations that are answered without the index, whatever the corpus. -/
inductive Indexless : Operation → Prop where
  | resolves (scope : EntityId) (name : Text) : Indexless (resolves scope name)
  | pathsFor {name : Text} (h : Name.isAbsolute name = true) : Indexless (pathsFor name)
  | pathFor {name : Text} (h : Name.isAbsolute name = true) : Indexless (pathFor name)
  | convert (settings : Settings) (tag : Annotation) : Indexless (convert settings none tag)

end Operation

variable {r : Resolver} {files : FileSystem} {entity? : Option EntityId} {settings : Settings}
variable {q : Request} {history : List Request}

theorem asksIndex_iff (notes : List Note) : asksIndex notes = true ↔ .indexUse ∈ notes :=
  List.contains_iff_mem

theorem Operation.Indexless.isClear_eq {operation : Operation} (h : operation.Indexless) :
    operation.isClear = false := by
  cases h <;> rfl

theorem Operation.Indexless.usesIndex_eq {operation : Operation} (h : operation.Indexless)
    (r : Resolver) : operation.usesIndex r = false := by
  cases h with
  | resolves scope name => rfl
  | pathsFor habsolute => simp [usesIndex, habsolute]
  | pathFor habsolute => simp [usesIndex, habsolute]
  | convert settings tag =>
    refine Bool.eq_false_iff.mpr fun hasks => ?_
    exact Conversion.not_asksIndex_convert_none tag ((asksIndex_iff _).mp hasks)

/-- A conversion uses the index when it asks the one there is, or will be. -/
theorem usesIndex_convert (r : Resolver) (files : FileSystem) (settings : Settings)
    (entity? : Option EntityId) (tag : Annotation) :
    (Operation.convert settings entity? tag).usesIndex r =
      asksIndex (Conversion.convert settings (r.scopeFor files entity?) tag).notes := by
  have halike : Scope.ResolveAlike (entity?.map (r.scopeAt (.pure ⟨[]⟩)))
      (r.scopeFor files entity?) := by
    cases entity? <;> rfl
  rw [Bool.eq_iff_iff, Operation.usesIndex, asksIndex_iff, asksIndex_iff]
  exact Conversion.asksIndex_convert_congr halike tag

/-! ## One operation -/

/-- The resolver with its index, built if it is not there yet. -/
def indexed (r : Resolver) (files : FileSystem) : Resolver :=
  { r with index? := some (r.index files).value }

theorem resolver_index (r : Resolver) (files : FileSystem) :
    (r.index files).resolver = r.indexed files := by
  unfold indexed index
  cases r with
  | mk corpus version dependencies index? => cases index? <;> rfl

/-- Asking for a name that is not absolute leaves the resolver with its index. -/
theorem resolver_pathsFor (r : Resolver) (files : FileSystem) (name : Text) :
    (r.pathsFor files name).resolver =
      if Name.isAbsolute name then r else r.indexed files := by
  unfold pathsFor
  split
  · rfl
  · exact r.resolver_index files

theorem diagnostics_pathsFor (r : Resolver) (files : FileSystem) (name : Text) :
    (r.pathsFor files name).diagnostics =
      if Name.isAbsolute name then [] else (r.index files).diagnostics := by
  unfold pathsFor
  split <;> rfl

theorem value_index_indexed (r : Resolver) (files other : FileSystem) :
    ((r.indexed files).index other).value = (r.index files).value := rfl

theorem scopeAt_congr {index other : Thunk NameIndex} (h : index.get = other.get)
    (entity : EntityId) : r.scopeAt index entity = r.scopeAt other entity := by
  simp only [scopeAt, h]

/-- Names are looked up in the same way before and after the index is built. -/
theorem scopeFor_indexed (r : Resolver) (files other : FileSystem) (entity? : Option EntityId) :
    (r.indexed files).scopeFor other entity? = r.scopeFor files entity? := by
  cases entity? with
  | none => rfl
  | some entity =>
    have hsame : (((r.indexed files).built other).map (·.1)).get =
        ((r.built files).map (·.1)).get := (@get_built r files).symm
    exact congrArg some (scopeAt_congr hsame entity)

theorem resolver_convert (r : Resolver) (files : FileSystem) (settings : Settings)
    (entity? : Option EntityId) (tag : Annotation) :
    (r.convert files settings entity? tag).resolver =
      if asksIndex (Conversion.convert settings (r.scopeFor files entity?) tag).notes then
        r.indexed files
      else r := by
  rw [indexed, ← get_built]
  rfl

/-- What an operation leaves: a resolver without index, one with its index, or the same. -/
theorem resolver_answer (r : Resolver) (q : Request) :
    (q.answer r).resolver =
      if q.operation.isClear then r.clear
      else if q.operation.usesIndex r then r.indexed q.files
      else r := by
  obtain ⟨files, operation⟩ := q
  cases operation with
  | prepare | knownNames => exact r.resolver_index files
  | clear | isPrepared | resolves scope name => rfl
  | pathsFor name | pathFor name =>
    show (r.pathsFor files name).resolver = _
    rw [resolver_pathsFor]
    cases habsolute : Name.isAbsolute name <;>
      simp [Operation.isClear, Operation.usesIndex, habsolute]
  | convert settings entity? tag =>
    rw [r.usesIndex_convert files]
    exact r.resolver_convert files settings entity? tag

/-- **What an operation answers is what it answers when the index is there**, unless that is what is
asked. -/
theorem value_answer_indexed (r : Resolver) (q : Request) (h : q.operation ≠ .isPrepared) :
    (q.answer r).value = (q.answer (r.indexed q.files)).value := by
  obtain ⟨files, operation⟩ := q
  cases operation with
  | isPrepared => exact absurd rfl h
  | prepare | clear | resolves scope name => rfl
  | knownNames =>
    exact congrArg (fun index : NameIndex => Reply.count index.size)
      (r.value_index_indexed files files).symm
  | pathsFor name | pathFor name =>
    simp only [Request.answer, pathFor?, pathsFor, Answer.map]
    cases Name.isAbsolute name <;> rfl
  | convert settings entity? tag =>
    have hscope := r.scopeFor_indexed files files entity?
    show Reply.type (Conversion.convert settings (r.scopeFor files entity?) tag).value = _
    rw [← hscope]
    rfl

/-- What an operation has to report itself, the dependencies left aside. -/
def Request.ownReports (r : Resolver) (q : Request) : List Diagnostic :=
  match q.operation with
  | .convert settings entity? tag => r.ownReports q.files settings entity? tag
  | _ => []

theorem ownReports_indexed (r : Resolver) (q : Request) :
    q.ownReports (r.indexed q.files) = q.ownReports r := by
  obtain ⟨files, operation⟩ := q
  cases operation with
  | convert settings entity? tag =>
    show (r.indexed files).ownReports files settings entity? tag = r.ownReports files settings _ tag
    simp only [ownReports, scopeFor_indexed]
    rfl
  | _ => rfl

/-- What is reported during an operation are its own reports, and those of the index at one place
among them if the operation uses it. -/
theorem diagnostics_answer_split (r : Resolver) (q : Request) :
    ∃ front back, q.ownReports r = front ++ back ∧
      (q.answer r).diagnostics = front ++
        (if q.operation.usesIndex r then (r.index q.files).diagnostics else []) ++ back := by
  obtain ⟨files, operation⟩ := q
  cases operation with
  | convert settings entity? tag =>
    rw [r.usesIndex_convert files]
    exact r.diagnostics_convert files settings entity? tag
  | clear | isPrepared | resolves scope name => exact ⟨[], [], rfl, rfl⟩
  | prepare | knownNames => exact ⟨[], [], rfl, (List.append_nil _).symm⟩
  | pathsFor name | pathFor name =>
    refine ⟨[], [], rfl, ?_⟩
    show (r.pathsFor files name).diagnostics = _
    rw [diagnostics_pathsFor]
    cases habsolute : Name.isAbsolute name <;> simp [Operation.usesIndex, habsolute]

/-! ## Conversions without an entity -/

/-- Where the index is not asked for, there is nothing to report about the dependencies. -/
theorem settle_of_not_asksIndex {notes : List Note} (h : .indexUse ∉ notes) (item : Option Text)
    (findings : Thunk (List DependencyFinding)) :
    settle item findings notes = (notes.filterMap Note.finding?).map (·.diagnostic item) := by
  obtain ⟨before, after, hown, hall⟩ := settle_split item findings notes
  have hasks : ¬asksIndex notes = true := fun hasks => h ((asksIndex_iff notes).mp hasks)
  rw [hall, if_neg hasks, List.append_nil, hown]

/-- **A conversion without an entity sees nothing but the text.**  Whatever is documented, installed
or known to the host, whatever the files are, and whatever a resolver was asked before, it gives the
same type and the same diagnostics, and it leaves the resolver as it was. -/
theorem convert_scopeless (r r' : Resolver) (files files' : FileSystem) (settings : Settings)
    (tag : Annotation) :
    (r.convert files settings none tag).value = (r'.convert files' settings none tag).value ∧
      (r.convert files settings none tag).diagnostics =
        (r'.convert files' settings none tag).diagnostics ∧
      (r.convert files settings none tag).resolver = r ∧
      (r'.convert files' settings none tag).resolver = r' := by
  have hnone : .indexUse ∉ (Conversion.convert settings none tag).notes :=
    Conversion.not_asksIndex_convert_none tag
  have hdiagnostics : ∀ (s : Resolver) (fs : FileSystem),
      (s.convert fs settings none tag).diagnostics =
        (Conversion.convert settings none tag).findings.map (·.diagnostic none) := by
    intro s fs
    rw [convert, diagnostics_answer]
    exact settle_of_not_asksIndex hnone _ _
  have hvalue : ∀ (s : Resolver) (fs : FileSystem),
      (s.convert fs settings none tag).value = (Conversion.convert settings none tag).value := by
    intro s fs
    rw [convert, value_answer]
    rfl
  have hresolver : ∀ (s : Resolver) (fs : FileSystem),
      (s.convert fs settings none tag).resolver = s := by
    intro s fs
    rw [resolver_convert]
    exact if_neg fun hasks => hnone ((asksIndex_iff _).mp hasks)
  exact ⟨(hvalue r files).trans (hvalue r' files').symm,
    (hdiagnostics r files).trans (hdiagnostics r' files').symm, hresolver r files,
    hresolver r' files'⟩

/-! ## A history -/

/-- What was asked since the resolver was last cleared, if it ever was. -/
def sinceClear (history : List Request) : List Request :=
  (history.reverse.takeWhile (!·.operation.isClear)).reverse

/-- The files as they were when the index was first used, since the resolver was last cleared. -/
def firstUse? (r : Resolver) (history : List Request) : Option FileSystem :=
  ((sinceClear history).find? (·.operation.usesIndex r)).map (·.files)

theorem sinceClear_concat (history : List Request) (q : Request) :
    sinceClear (history ++ [q]) =
      if q.operation.isClear then [] else sinceClear history ++ [q] := by
  unfold sinceClear
  cases hclear : q.operation.isClear <;> simp [hclear]

theorem firstUse?_concat (r : Resolver) (history : List Request) (q : Request) :
    r.firstUse? (history ++ [q]) =
      if q.operation.isClear then none
      else (r.firstUse? history).or
        (if q.operation.usesIndex r then some q.files else none) := by
  unfold firstUse?
  rw [sinceClear_concat]
  cases q.operation.isClear with
  | true => rfl
  | false =>
    simp only [Bool.false_eq_true, if_false, List.find?_append, Option.map_or]
    cases huses : q.operation.usesIndex r <;> simp [huses]

/-- There was a first use if there was one at all. -/
theorem isSome_firstUse? (r : Resolver) (history : List Request) :
    (r.firstUse? history).isSome = true ↔
      ∃ q ∈ sinceClear history, q.operation.usesIndex r = true := by
  rw [firstUse?, Option.isSome_map, List.find?_isSome]

/-- Whether an operation uses the index does not depend on there being one. -/
theorem usesIndex_withIndex (r : Resolver) (index? : Option NameIndex) (operation : Operation) :
    operation.usesIndex { r with index? := index? } = operation.usesIndex r := by
  cases operation <;> rfl

/-- **The index is the one over the files at its first use.**  Nothing else becomes of a resolver. -/
theorem after_eq (h : r.index? = none) (history : List Request) :
    r.after history =
      { r with index? := (r.firstUse? history).map fun files => (r.build files).1 } := by
  induction history using List.reverseRecOn with
  | nil =>
    cases r with
    | mk corpus version dependencies index? =>
      cases h
      rfl
  | append_singleton history q ih =>
    have hnext : r.after (history ++ [q]) = (q.answer (r.after history)).resolver := by
      simp [after]
    rw [hnext, resolver_answer, ih, usesIndex_withIndex, firstUse?_concat]
    -- A first use is settled once, and until then each operation may be it.
    cases q.operation.isClear with
    | true => rfl
    | false =>
      cases q.operation.usesIndex r with
      | true => cases r.firstUse? history <;> rfl
      | false => cases r.firstUse? history <;> rfl

/-- **Every answer in every history is known.**  A resolver is prepared when its index was used since
it was last cleared.  What it answers is what a resolver answers that has the index over the files
as they were at the first such use, or as they are now if this is the first one.  The warnings of
building that index are reported by the first operation that uses it, at one place among the
operation's own reports, and by no other; and the operations that do without the index neither
build it nor report anything about it. -/
theorem answer_after (corpus : Corpus) (version : RubyVersion) (dependencies : Dependencies)
    (history : List Request) (q : Request) :
    let start := fresh corpus version dependencies
    let r := start.after history
    let first? := start.firstUse? history
    let settled : Resolver := { start with index? := some (start.build (first?.getD q.files)).1 }
    (r.isPrepared = true ↔ ∃ earlier ∈ sinceClear history, earlier.operation.usesIndex start) ∧
      (q.operation ≠ .isPrepared → (q.answer r).value = (q.answer settled).value) ∧
      (∃ front back, q.ownReports settled = front ++ back ∧
        (q.answer r).diagnostics = front ++
          (if q.operation.usesIndex start && first?.isNone then
            (start.build q.files).2.map (·.diagnostic) else []) ++ back) ∧
      (q.operation.Indexless →
        (q.answer r).diagnostics = q.ownReports settled ∧ (q.answer r).resolver = r) := by
  intro start r first? settled
  have hr : r = { start with index? := first?.map fun files => (start.build files).1 } :=
    after_eq rfl history
  have huses : ∀ operation : Operation, operation.usesIndex r = operation.usesIndex start := by
    intro operation
    rw [hr]
    exact usesIndex_withIndex start _ operation
  have hindexed : r.indexed q.files = settled := by
    rw [hr]
    show indexed _ q.files = { start with index? := some (start.build (first?.getD q.files)).1 }
    cases first? <;> rfl
  have hown : q.ownReports settled = q.ownReports r := by rw [← hindexed, ownReports_indexed]
  have hbuilding : (r.index q.files).diagnostics =
      if first?.isNone then (start.build q.files).2.map (·.diagnostic) else [] := by
    rw [hr]
    cases first? <;> rfl
  have hsplit := diagnostics_answer_split r q
  rw [huses, hbuilding, ← hown] at hsplit
  refine ⟨?_, ?_, ?_, ?_⟩
  · rw [hr, isPrepared, Option.isSome_map]
    exact isSome_firstUse? start history
  · intro hoperation
    rw [value_answer_indexed r q hoperation, hindexed]
  · cases huse : q.operation.usesIndex start <;> simpa [huse] using hsplit
  · intro hindexless
    have hnone : q.operation.usesIndex start = false := hindexless.usesIndex_eq start
    constructor
    · obtain ⟨front, back, hfront, hall⟩ := hsplit
      rw [hall, hfront, hnone]
      simp
    · rw [resolver_answer, huses, hnone, hindexless.isClear_eq]
      rfl

/-- A collection that is installed after the index was built is not looked at before the index is
forgotten. -/
theorem answer_after_stale :
    let start := fresh (.ofDeclarations []) .default ⟨some "c", []⟩
    let before : FileSystem := ⟨[], []⟩
    let now : FileSystem := ⟨[.directory "c" [.file "a.rbs" (some "class A\nend")]], []⟩
    let query : Request := ⟨now, .pathsFor "A"⟩
    let r := start.after [⟨before, .prepare⟩]
    let cleared := start.after [⟨before, .prepare⟩, ⟨before, .clear⟩]
    (r.isPrepared = true ∧ (query.answer r).value = .paths []) ∧
      cleared.isPrepared = false ∧ (query.answer cleared).value = .paths ["A"] := by
  intro start before now query r cleared
  obtain ⟨hprepared, hvalue, -⟩ := answer_after (.ofDeclarations []) .default ⟨some "c", []⟩
    [⟨before, .prepare⟩] query
  obtain ⟨-, hcleared, -⟩ := answer_after (.ofDeclarations []) .default ⟨some "c", []⟩
    [⟨before, .prepare⟩, ⟨before, .clear⟩] query
  refine ⟨⟨hprepared.mpr ⟨_, List.mem_singleton_self _, rfl⟩, ?_⟩, rfl, ?_⟩
  · rw [hvalue Operation.noConfusion]
    decide +kernel
  · rw [hcleared Operation.noConfusion]
    decide +kernel

end DocTypes.Resolver
