import DocTypes.Corpus.Declaration
import DocTypes.Proofs.Conversion.Entries
import DocTypes.Proofs.Conversion.ErrorReplacement

/-! # Every placeholder is reported

A conversion never fails in silence: the type of an annotation holds no more placeholders than the
conversion reports warnings (`Resolver.convert_reported`).

The count goes through a conversion part by part.  A fault is one warning and at most one
placeholder.  A union drops repetitions, so it holds at most the placeholders of its members
(`errorCount_anyOf_le`), a container only folds its parameters, and a map of the wrong size forgets
the placeholders in it for one of its own, whose warning comes on top of theirs.

What a conversion reports is to be told apart from what is reported about the dependencies, for the
index may be built in the middle of it.  `Resolver.ownReports` are the reports of the conversion
itself, and all reports are these with those of the index put in at one place
(`Resolver.diagnostics_split`).
-/
namespace DocTypes

/-! ## How many placeholders a type holds -/

namespace TypeExpr

mutual

/-- How many placeholders there are in an expression. -/
def errorCount : TypeExpr → Nat
  | error _ => 1
  | nilable inner => inner.errorCount
  | union members => totalErrorCount members
  | container _ arguments => totalErrorCount arguments
  | generic base arguments => base.errorCount + totalErrorCount arguments
  | tuple elements => totalErrorCount elements
  | untyped | boolean | selfType | raw _ => 0

/-- How many placeholders there are in several expressions. -/
def totalErrorCount : List TypeExpr → Nat
  | [] => 0
  | x :: xs => x.errorCount + totalErrorCount xs

end

mutual

/-- An expression without placeholders is one that does not hold any. -/
theorem errorCount_eq_zero : ∀ t : TypeExpr, t.errorCount = 0 ↔ t.containsError = false
  | error _ => by simp [errorCount, containsError]
  | untyped | boolean | selfType | raw _ => by simp [errorCount, containsError]
  | nilable inner => errorCount_eq_zero inner
  | union members => totalErrorCount_eq_zero members
  | container _ arguments => totalErrorCount_eq_zero arguments
  | tuple elements => totalErrorCount_eq_zero elements
  | generic base arguments => by
    rw [errorCount, containsError, Nat.add_eq_zero_iff, Bool.or_eq_false_iff,
      errorCount_eq_zero base, totalErrorCount_eq_zero arguments]

theorem totalErrorCount_eq_zero :
    ∀ l : List TypeExpr, totalErrorCount l = 0 ↔ anyContainsError l = false
  | [] => by simp [totalErrorCount, anyContainsError]
  | x :: l => by
    rw [totalErrorCount, anyContainsError, Nat.add_eq_zero_iff, Bool.or_eq_false_iff,
      errorCount_eq_zero x, totalErrorCount_eq_zero l]

end

theorem errorCount_orNil (t : TypeExpr) : t.orNil.errorCount = t.errorCount := by
  cases t <;> rfl

theorem totalErrorCount_append (k l : List TypeExpr) :
    totalErrorCount (k ++ l) = totalErrorCount k + totalErrorCount l := by
  induction k with
  | nil => exact (Nat.zero_add _).symm
  | cons x k ih => rw [List.cons_append, totalErrorCount, totalErrorCount, ih, Nat.add_assoc]

theorem totalErrorCount_alternatives (t : TypeExpr) :
    totalErrorCount t.alternatives = t.errorCount := by
  cases t <;> rfl

theorem errorCount_ofAlternatives (l : List TypeExpr) :
    (ofAlternatives l).errorCount = totalErrorCount l := by
  match l with
  | [] | [_] | _ :: _ :: _ => rfl

theorem totalErrorCount_foldl_addUnique_le (l acc : List TypeExpr) :
    totalErrorCount (l.foldl addUnique acc) ≤ totalErrorCount acc + totalErrorCount l := by
  induction l generalizing acc with
  | nil => exact Nat.le_refl _
  | cons x l ih =>
    rw [List.foldl_cons]
    refine Nat.le_trans (ih _) ?_
    by_cases hx : x ∈ acc
    · rw [addUnique_of_mem hx, totalErrorCount]
      omega
    · rw [addUnique_of_not_mem hx, totalErrorCount_append, totalErrorCount, totalErrorCount,
        totalErrorCount]
      omega

/-- A union may drop placeholders that are repeated, and makes none. -/
theorem errorCount_anyOf_le (members : List TypeExpr) :
    (anyOf members).errorCount ≤ totalErrorCount members := by
  have halternatives : totalErrorCount (members.flatMap alternatives) = totalErrorCount members := by
    induction members with
    | nil => rfl
    | cons x l ih =>
      rw [List.flatMap_cons, totalErrorCount_append, totalErrorCount_alternatives, ih,
        totalErrorCount]
  rw [anyOf_eq, errorCount_ofAlternatives, ← halternatives]
  simpa [distinct, totalErrorCount] using totalErrorCount_foldl_addUnique_le _ []

end TypeExpr

/-! ## Warnings in a trace -/

/-- Whether a step is worth a warning. -/
def Note.isWarning : Note → Bool
  | .finding f => f.kind == .warning
  | .indexUse => false

/-- What a step reports, if it reports anything. -/
def Note.finding? : Note → Option Finding
  | .finding f => some f
  | .indexUse => none

namespace Traced

variable {α β : Type}

/-- How many warnings there are in a trace. -/
def warnings (t : Traced α) : Nat := t.notes.countP Note.isWarning

/-- What there is to report in a trace, in order. -/
def findings (t : Traced α) : List Finding := t.notes.filterMap Note.finding?

theorem eq_of {s t : Traced α} (hvalue : s.value = t.value) (hnotes : s.notes = t.notes) :
    s = t := by
  cases s
  cases t
  cases hvalue
  cases hnotes
  rfl

@[simp] theorem warnings_pure (a : α) : (pure a : Traced α).warnings = 0 := rfl

@[simp] theorem warnings_bind (t : Traced α) (next : α → Traced β) :
    (t >>= next).warnings = t.warnings + (next t.value).warnings := by
  rw [warnings, notes_bind, List.countP_append]
  rfl

@[simp] theorem findings_pure (a : α) : (pure a : Traced α).findings = [] := rfl

@[simp] theorem findings_bind (t : Traced α) (next : α → Traced β) :
    (t >>= next).findings = t.findings ++ (next t.value).findings := by
  rw [findings, notes_bind, List.filterMap_append]
  rfl

@[simp] theorem findings_report (f : Finding) : (report f).findings = [f] := rfl

@[simp] theorem findings_reportIf (reason : Bool) (f : Finding) :
    (reportIf reason f).findings = if reason then [f] else [] := by
  cases reason <;> rfl

@[simp] theorem findings_askIndexIf (asked : Bool) : (askIndexIf asked).findings = [] := by
  cases asked <;> rfl

theorem warnings_eq (t : Traced α) : t.warnings = t.findings.countP (·.kind == .warning) := by
  rw [findings, List.countP_filterMap]
  refine List.countP_congr fun note _ => ?_
  cases note <;> rfl

end Traced

namespace Conversion
open TypeExpr

variable {settings : Settings} {scope : Option Scope} {inner : Text → Traced TypeExpr}
variable {text : Text}

/-- A conversion to a type with no more placeholders than warnings. -/
def Reported (t : Traced TypeExpr) : Prop := t.value.errorCount ≤ t.warnings

theorem Reported.of_flat {t : Traced TypeExpr} (h : t.value.Flat) : Reported t := by
  rw [Reported, (errorCount_eq_zero _).mpr h.containsError_eq]
  exact Nat.zero_le _

theorem reported_fail (shown : Text) {fault : Finding} (h : fault.kind = .warning) :
    Reported (fail settings shown fault) := by
  have hwarned : (fail settings shown fault).warnings = 1 := by
    simp [fail, Traced.warnings, Note.isWarning, h]
  show (placeholder settings shown).errorCount ≤ (fail settings shown fault).warnings
  rw [hwarned, placeholder]
  split
  · exact Nat.zero_le 1
  · exact Nat.le_refl 1

/-! ## Brackets -/

/-- Types from conversions that together have no more placeholders than warnings. -/
theorem totalErrorCount_all_le {ts : List (Traced TypeExpr)} (h : ∀ t ∈ ts, Reported t) :
    totalErrorCount (Traced.all ts).value ≤ (Traced.all ts).warnings := by
  induction ts with
  | nil => exact Nat.le_refl 0
  | cons t ts ih =>
    have ht : t.value.errorCount ≤ t.warnings := h t List.mem_cons_self
    have hts := ih fun t ht => h t (List.mem_cons_of_mem _ ht)
    have hwarned : (Traced.all (t :: ts)).warnings = t.warnings + (Traced.all ts).warnings := by
      simp only [Traced.warnings, Traced.notes_all, List.flatMap_cons, List.countP_append]
    rw [hwarned, Traced.value_all, List.map_cons, totalErrorCount]
    exact Nat.add_le_add ht hts

theorem totalErrorCount_convertParameters_le (parameters : Text)
    (h : ∀ part, Reported (inner part)) :
    totalErrorCount (convertParameters inner parameters).value ≤
      (convertParameters inner parameters).warnings := by
  refine totalErrorCount_all_le (List.forall_mem_map.mpr fun group _ => ?_)
  rw [Reported, Traced.warnings_bind]
  exact Nat.le_trans (errorCount_anyOf_le _)
    (totalErrorCount_all_le (List.forall_mem_map.mpr fun part _ => h part))

theorem errorCount_hashOf_le (types : List TypeExpr) :
    (hashOf settings text types).value.errorCount ≤
      totalErrorCount types + (hashOf settings text types).warnings := by
  unfold hashOf
  split
  · exact Nat.le_refl _
  · exact Nat.le_trans (reported_fail _ rfl) (Nat.le_add_left _ _)

theorem totalErrorCount_map_classOf (types : List TypeExpr) :
    totalErrorCount (types.map classOf) = totalErrorCount types := by
  induction types with
  | nil => rfl
  | cons x types ih =>
    have hclass : (classOf x).errorCount = x.errorCount := Nat.add_zero _
    rw [List.map_cons, totalErrorCount, totalErrorCount, hclass, ih]

theorem errorCount_applyContainer_le (kind : Container) {types : List TypeExpr}
    (hsome : types ≠ []) (hregular : ∀ t ∈ types, t.Regular) :
    (applyContainer settings text kind types).value.errorCount ≤
      totalErrorCount types + (applyContainer settings text kind types).warnings := by
  cases harity : kind.arity with
  | single =>
    rw [applyContainer_single harity hsome hregular]
    exact errorCount_anyOf_le types
  | singleton =>
    rw [applyContainer_singleton harity hregular, ← totalErrorCount_map_classOf]
    exact errorCount_anyOf_le (types.map classOf)
  | keyValue =>
    rw [applyContainer_keyValue types harity]
    exact errorCount_hashOf_le types

/-- Brackets have the placeholders of their parameters, or one that they report. -/
theorem Frame.errorCount_close_le (frame : Frame) {types : List TypeExpr} (hsome : types ≠ [])
    (hregular : ∀ t ∈ types, t.Regular) :
    (frame.close settings text types).value.errorCount ≤
      totalErrorCount types + (frame.close settings text types).warnings := by
  cases frame with
  | container kind => exact errorCount_applyContainer_le kind hsome hregular
  | named name => exact Nat.le_of_eq (Nat.zero_add _)
  | tuple => exact Nat.le_refl _
  | array => exact errorCount_anyOf_le types

/-! ## Texts -/

/-- Whatever a text is at fault for, it is worth a warning. -/
theorem Reading.kind_of_fault {inScope : Bool} {shown : Text} {finding : Finding}
    (h : of inScope text = fault shown finding) : finding.kind = .warning := by
  unfold of at h
  split at h
  · cases h
  split at h
  · cases h
  split at h
  · cases h
  cases hshape : Shape.of text with
  | generic name parameters =>
    rw [hshape, ofShape, ofGeneric] at h
    split at h
    · cases h
    · split at h <;> cases h
      rfl
  | unrecognized =>
    rw [hshape] at h
    cases h
    rfl
  | _ =>
    rw [hshape] at h
    cases h

theorem Reading.reported_convert {reading : Reading}
    (hfault : ∀ shown finding, reading = fault shown finding → finding.kind = .warning)
    (hregular : ∀ part, (inner part).value.Regular) (h : ∀ part, Reported (inner part)) :
    Reported (reading.convert settings scope inner text) := by
  cases reading with
  | boolean | selfType | nilWord | literal => exact Nat.zero_le _
  | name n => exact .of_flat (flat_convertName scope n)
  | duckType methods => exact .of_flat (flat_convertDuckType text methods)
  | fault shown finding => exact reported_fail shown (hfault shown finding rfl)
  | framed frame parameters =>
    have hinner := totalErrorCount_convertParameters_le parameters h
    have htypes : ∀ t ∈ (convertParameters inner parameters).value, t.Regular :=
      regular_convertParameters fun part _ => hregular part
    rw [Reported, value_convert_framed, convert, Traced.warnings_bind, Traced.warnings_bind]
    have hclose :
        (frame.close settings text (convertParameters inner parameters).value).value.errorCount ≤
          _ + _ := frame.errorCount_close_le (convertParameters_ne_nil inner parameters) htypes
    omega

theorem reported_convertText (allowance : Nat) (text : Text) :
    Reported (convertText settings scope allowance text) := by
  induction allowance generalizing text with
  | zero => exact reported_fail _ rfl
  | succ allowance ih =>
    rw [convertText_succ]
    exact Reading.reported_convert (fun _ _ => Reading.kind_of_fault)
      (regular_convertText allowance) ih

/-! ## Annotations -/

theorem reported_convertWith {one : Text → Traced TypeExpr} (tag : Annotation)
    (h : ∀ text, Reported (one text)) : Reported (convertWith one tag) := by
  cases tag with
  | absent => exact Nat.le_refl 0
  | one text => exact h text
  | many texts =>
    simp only [convertWith, convertMany]
    split
    · exact Nat.zero_le _
    · have hall := totalErrorCount_all_le
        (List.forall_mem_map.mpr fun text (_ : text ∈ texts.filter (!isNilEntry ·)) => h text)
      have hany := Nat.le_trans (errorCount_anyOf_le _) hall
      rw [Reported, Traced.warnings_bind, Traced.value_bind]
      simp only [Traced.value_pure, Traced.warnings_pure, Nat.add_zero]
      split
      · rwa [errorCount_orNil]
      · exact hany

variable (settings scope) in
theorem reported_convert (tag : Annotation) : Reported (convert settings scope tag) :=
  reported_convertWith tag (reported_convertText _)

variable (settings scope) in
/-- Where nothing is left to replace, replacing makes no difference. -/
theorem convert_replacingErrors_eq (tag : Annotation)
    (hfree : (convert settings scope tag).value.containsError = false) :
    convert settings.replacingErrors scope tag = convert settings scope tag := by
  cases hreplace : settings.replaceErrors with
  | true =>
    have hsettings : settings.replacingErrors = settings := by
      rw [Settings.replacingErrors, ← hreplace]
    rw [hsettings]
  | false =>
    have hsettings : settings.keepingErrors = settings := by
      rw [Settings.keepingErrors, ← hreplace]
    obtain ⟨hvalue, hnotes⟩ := replaced_convert settings scope tag
    rw [hsettings] at hvalue hnotes
    rw [(normal_convert tag).withoutErrors_eq hfree] at hvalue
    exact Traced.eq_of hvalue hnotes

end Conversion

/-! ## The reports of a conversion -/

namespace Resolver

theorem settle_pure_nil (item : Option Text) (notes : List Note) :
    settle item (.pure []) notes = (notes.filterMap Note.finding?).map (·.diagnostic item) := by
  induction notes with
  | nil => rfl
  | cons note notes ih =>
    cases note with
    | finding f => exact congrArg (f.diagnostic item :: ·) ih
    | indexUse => exact ih

/-- What is reported about the dependencies stands in one place among the findings of a trace, if the
index is asked for at all. -/
theorem settle_split (item : Option Text) (findings : Thunk (List DependencyFinding))
    (notes : List Note) :
    ∃ before after,
      (notes.filterMap Note.finding?).map (·.diagnostic item) = before ++ after ∧
        settle item findings notes =
          before ++ (if asksIndex notes then findings.get.map (·.diagnostic) else []) ++ after := by
  induction notes with
  | nil => exact ⟨[], [], rfl, rfl⟩
  | cons note notes ih =>
    cases note with
    | finding f =>
      obtain ⟨before, after, hown, hall⟩ := ih
      have hasks : asksIndex (.finding f :: notes) = asksIndex notes := by simp [asksIndex]
      refine ⟨f.diagnostic item :: before, after, ?_, ?_⟩
      · exact congrArg (f.diagnostic item :: ·) hown
      · rw [hasks]
        exact congrArg (f.diagnostic item :: ·) hall
    | indexUse =>
      -- Everything before the index is asked for has been passed, and later uses report nothing.
      have hasks : asksIndex (.indexUse :: notes) = true := by simp [asksIndex]
      refine ⟨[], settle item (.pure []) notes, (settle_pure_nil item notes).symm, ?_⟩
      rw [hasks]
      rfl

variable (r : Resolver) (files : FileSystem) (settings : Settings) (entity? : Option EntityId)
variable (tag : Annotation)

/-- What is reported about the dependencies when the index is built, and nothing if it is there. -/
theorem diagnostics_index :
    (r.index files).diagnostics = (r.built files).get.2.map (·.diagnostic) := by
  unfold index built
  cases r.index? <;> rfl

theorem path_scopeFor : (r.scopeFor files entity?).map (·.path) = entity?.map r.corpus.path := by
  cases entity? <;> rfl

/-- What a conversion itself reports, the dependencies left aside. -/
def ownReports : List Diagnostic :=
  (Conversion.convert settings (r.scopeFor files entity?) tag).findings.map
    (·.diagnostic (entity?.map r.corpus.path))

/-- The reports of the index stand at one place among those of a conversion, if it asks for the
index. -/
theorem diagnostics_convert :
    ∃ before after, r.ownReports files settings entity? tag = before ++ after ∧
      (r.convert files settings entity? tag).diagnostics = before ++
        (if asksIndex (Conversion.convert settings (r.scopeFor files entity?) tag).notes then
          (r.index files).diagnostics else []) ++ after := by
  obtain ⟨before, after, hown, hall⟩ :=
    settle_split (entity?.map r.corpus.path) ((r.built files).map (·.2))
      (Conversion.convert settings (r.scopeFor files entity?) tag).notes
  refine ⟨before, after, hown, ?_⟩
  rw [convert, diagnostics_answer, path_scopeFor, diagnostics_index]
  exact hall

/-- All that is reported during a conversion are its own reports and, together at one place among
them, nothing or the reports of the index. -/
theorem diagnostics_split :
    ∃ before index after, r.ownReports files settings entity? tag = before ++ after ∧
      (r.convert files settings entity? tag).diagnostics = before ++ index ++ after ∧
        (index = [] ∨ index = (r.index files).diagnostics) := by
  obtain ⟨before, after, hown, hall⟩ := r.diagnostics_convert files settings entity? tag
  refine ⟨before, _, after, hown, hall, ?_⟩
  split
  · exact Or.inr rfl
  · exact Or.inl rfl

/-- **No conversion fails in silence.**  What is reported during a conversion is what it reports
itself, with the reports of the index put in at one place if it is built on the way.  The type holds
no more placeholders than there are warnings among the reports of the conversion itself.  Without
any, there is no placeholder, and it makes no difference whether placeholders are replaced.  And all
these reports are about the entity that the annotation belongs to, or about none if there is none. -/
theorem convert_reported :
    let answer := r.convert files settings entity? tag
    let own := r.ownReports files settings entity? tag
    (∃ before index after, own = before ++ after ∧
        answer.diagnostics = before ++ index ++ after ∧
          (index = [] ∨ index = (r.index files).diagnostics)) ∧
      answer.value.errorCount ≤ own.countP (·.kind == .warning) ∧
      ((∀ d ∈ own, d.kind ≠ .warning) →
        answer.value.containsError = false ∧
          r.convert files settings.replacingErrors entity? tag = answer) ∧
      ∀ d ∈ own, d.item = entity?.map r.corpus.path := by
  intro answer own
  have hcount : own.countP (·.kind == .warning) =
      (Conversion.convert settings (r.scopeFor files entity?) tag).warnings := by
    rw [Traced.warnings_eq]
    exact List.countP_map
  have hreported : answer.value.errorCount ≤ own.countP (·.kind == .warning) := by
    rw [hcount]
    exact Conversion.reported_convert settings (r.scopeFor files entity?) tag
  refine ⟨r.diagnostics_split files settings entity? tag, hreported, ?_, ?_⟩
  · intro hnone
    have hzero : own.countP (·.kind == .warning) = 0 :=
      List.countP_eq_zero.mpr fun d hd => by simpa using hnone d hd
    have hfree : answer.value.containsError = false :=
      (TypeExpr.errorCount_eq_zero _).mp (Nat.le_zero.mp (hzero ▸ hreported))
    refine ⟨hfree, answer_congr ?_⟩
    exact Conversion.convert_replacingErrors_eq settings (r.scopeFor files entity?) tag hfree
  · intro d hd
    obtain ⟨f, -, rfl⟩ := List.mem_map.mp hd
    rfl

/-- A name is inferred and the collection is missing, and only the second is worth a warning. -/
theorem convert_reported_inferred :
    let r := fresh (.ofDeclarations [⟨.classDef, "A::B"⟩, ⟨.classDef, "C"⟩]) .default
      ⟨some "collection", []⟩
    let settings : Settings := ⟨false, false, .rbi⟩
    let answer := r.convert ⟨[], []⟩ settings (some 3) (.one "Array<B>")
    (∀ d ∈ r.ownReports ⟨[], []⟩ settings (some 3) (.one "Array<B>"), d.kind ≠ .warning) ∧
      DependencyFinding.missingCollection.diagnostic ∈ answer.diagnostics ∧
      answer.value.containsError = false ∧
      r.convert ⟨[], []⟩ settings.replacingErrors (some 3) (.one "Array<B>") = answer := by
  intro r settings answer
  have hdiagnostics : (∀ d ∈ r.ownReports ⟨[], []⟩ settings (some 3) (.one "Array<B>"),
      d.kind ≠ .warning) ∧ DependencyFinding.missingCollection.diagnostic ∈ answer.diagnostics := by
    decide +kernel
  obtain ⟨hnone, hmissing⟩ := hdiagnostics
  obtain ⟨-, -, hfree, -⟩ := r.convert_reported ⟨[], []⟩ settings (some 3) (.one "Array<B>")
  exact ⟨hnone, hmissing, hfree hnone⟩

end Resolver
end DocTypes
