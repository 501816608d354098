import DocTypes.Proofs.Signature.Nesting
import DocTypes.Proofs.Signature.Run

/-! # Which files are scanned, and what is to blame for the others

A scan succeeds on balanced files and on no others, and the fault that it gives for any other file is
the one that the roles of its lines are to blame for (`Signature.scan_balanced`).

Wherever a scan comes to nested lines, it goes past them, adds some declarations and leaves the open
frames as they are (`Scan.State.exists_contributes`).  So the frames that are open after sound lines
are those that the structure of the lines leaves open (`Scan.State.exists_run_of_opened`). -/

namespace DocTypes

namespace Scan.State

open Nesting

variable {format : SignatureFormat} {s : State} {line : Text} {kind : FrameKind}
variable {lines : List Text} {waiting : List (Nat × Text)}

/-! ## Single lines -/

/-- A line that opens a frame may declare something before, if that is a frame of code. -/
theorem exists_opens (h : LineRole.of format line = .opening kind) :
    ∃ declared, (kind ≠ .code → declared = []) ∧ Opens format line declared kind := by
  rcases (LineEvent.shape_of format line).eq_of_opening h with hone | ⟨rfl, name, htwo⟩
  · exact ⟨[], fun _ => rfl, fun s number text => by rw [hone]; rfl⟩
  · exact ⟨[.leaf .constantDef name], fun hother => absurd rfl hother,
      fun s number text => by rw [htwo]; rfl⟩

theorem steps_closing (h : LineRole.of format line = .closing) (s : State) (number : Nat)
    (text : Text) :
    s.steps number text (LineEvent.of format line) =
      match s.pop? with
      | some s => .ok s
      | none => .error ⟨number, .unexpectedEnd⟩ := by
  rw [(LineEvent.shape_of format line).eq_of_closing h, steps, step]
  cases s.pop? <;> rfl

theorem steps_bad {keyword : Text} (h : LineRole.of format line = .bad keyword) (s : State)
    (number : Nat) (text : Text) :
    s.steps number text (LineEvent.of format line) = .error ⟨number, .missingName keyword⟩ := by
  rw [(LineEvent.shape_of format line).eq_of_bad h]
  rfl

/-! ## Nested lines -/

theorem contributes_neutral (h : LineRole.of format line = .neutral) :
    ∃ declared, Contributes format [line] declared := by
  rcases (LineEvent.shape_of format line).eq_of_neutral h with hnone | ⟨kind, name, hone⟩
  · exact ⟨[], fun s number => by rw [run, hnone]; rfl⟩
  · exact ⟨[.leaf kind name], fun s number => by rw [run, hone]; rfl⟩

/-- **Nested lines contribute some declarations.** -/
theorem exists_contributes (h : Nested format lines) :
    ∃ signatures, Contributes format lines signatures := by
  induction h with
  | nil => exact ⟨[], contributes_nil⟩
  | neutral role _ ih =>
    obtain ⟨declared, hline⟩ := contributes_neutral role
    obtain ⟨signatures, hrest⟩ := ih
    exact ⟨_, hline.append hrest⟩
  | @frame opener closer inside rest kind opens closes _ _ hinside hrest =>
    obtain ⟨declared, -, hopens⟩ := exists_opens opens
    obtain ⟨signatures, hinside⟩ := hinside
    obtain ⟨signatures', hrest⟩ := hrest
    have hcloses := (LineEvent.shape_of format closer).eq_of_closing closes
    have hall := (hinside.frame hopens hcloses).append hrest
    rw [List.cons_append, List.append_assoc] at hall
    exact ⟨_, hall⟩

/-! ## Open frames -/

/-- The numbers and the texts of the lines that opened the frames, innermost first. -/
def outline (s : State) : List (Nat × Text) := s.frames.map fun frame => (frame.line, frame.text)

theorem outline_add (s : State) (signature : Signature) : (s.add signature).outline = s.outline := by
  obtain ⟨topLevel, frames⟩ := s
  cases frames with
  | nil => rfl
  | cons frame outer =>
    rw [add]
    dsimp only
    split <;> rfl

theorem outline_addAll (s : State) (signatures : List Signature) :
    (s.addAll signatures).outline = s.outline := by
  induction signatures generalizing s with
  | nil => rfl
  | cons signature signatures ih => exact (ih _).trans (s.outline_add signature)

theorem outline_push (s : State) (kind : FrameKind) (number : Nat) (text : Text) :
    (s.push kind number text).outline = (number, text) :: s.outline := rfl

/-- Where frames are open, the innermost is blamed. -/
theorem finish_of_outline {number : Nat} {text : Text} (h : s.outline = (number, text) :: waiting) :
    s.finish = .error ⟨number, .neverClosed text⟩ := by
  obtain ⟨topLevel, frames⟩ := s
  cases frames with
  | nil => cases h
  | cons frame outer =>
    obtain ⟨rfl, rfl⟩ := Prod.mk.inj (List.cons.inj h).1
    rfl

/-- **The frames that are open after sound lines are those that their structure leaves open.** -/
theorem exists_run_of_opened (h : Opened format lines waiting) :
    ∃ s, start.run format 1 lines = .ok s ∧ s.outline = waiting := by
  induction h with
  | closed h =>
    obtain ⟨signatures, hlines⟩ := exists_contributes h
    exact ⟨_, hlines start 1, outline_addAll _ _⟩
  | @opened front back line kind waiting h opens hback ih =>
    obtain ⟨s, hrun, rfl⟩ := ih
    obtain ⟨declared, -, hopens⟩ := exists_opens opens
    obtain ⟨signatures, hrest⟩ := exists_contributes hback
    refine ⟨((s.addAll declared).push kind (1 + front.length) (SignatureLine.strip line)).addAll
      signatures, ?_, ?_⟩
    · rw [run_append hrun, run, hopens]
      exact hrest _ _
    · rw [outline_addAll, outline_push, outline_addAll, Nat.add_comm]

end Scan.State

/-! ## Scans -/

namespace Signature

open Scan.State Nesting

variable {format : SignatureFormat} {source : Text} {e : ScanError}

theorem scan_of_balanced (h : Nesting.Balanced format source.lines) :
    ∃ forest, scan format source = .ok forest := by
  obtain ⟨signatures, hlines⟩ := exists_contributes h.nested
  refine ⟨signatures, ?_⟩
  rw [scan, hlines, start, addAll_topLevel]
  rfl

/-- **A scan reports what is to blame.** -/
theorem scan_of_blames (h : Blames format source.lines e) : scan format source = .error e := by
  have hsound : ∀ {front : List Text}, Sound format front → ∃ s,
      start.run format 1 front = .ok s ∧ Opened format front s.outline := by
    intro front hfront
    obtain ⟨waiting, hopened⟩ := hfront.exists_opened
    obtain ⟨s, hrun, rfl⟩ := exists_run_of_opened hopened
    exact ⟨s, hrun, hopened⟩
  cases h with
  | @bad front back line keyword hlines sound role =>
    obtain ⟨s, hrun, -⟩ := hsound sound
    rw [scan, hlines, run_append hrun, run, steps_bad role, Nat.add_comm]
  | @unopened front back line hlines sound role settled =>
    obtain ⟨s, hrun, hopened⟩ := hsound sound
    have hnone : s.frames = [] := by
      have hcount := hopened.openings_eq
      rw [settled, outline, List.length_map] at hcount
      exact List.length_eq_zero_iff.mp (by omega)
    rw [scan, hlines, run_append hrun, run, steps_closing role, pop?, hnone, Nat.add_comm]
  | @unclosed front back line kind hlines sound role balanced =>
    obtain ⟨waiting, hfront⟩ := (sound.of_prefix ⟨line :: back, hlines.symm⟩).exists_opened
    obtain ⟨s, hrun, houtline⟩ := exists_run_of_opened (.opened hfront role balanced.nested)
    rw [scan, hlines, hrun]
    dsimp only
    exact finish_of_outline houtline

/-- **What is scanned is balanced**, for otherwise something is to blame. -/
theorem balanced_of_scan {forest : List Signature} (h : scan format source = .ok forest) :
    Nesting.Balanced format source.lines := by
  rcases balanced_or_blames source.lines with hbalanced | ⟨e, he⟩
  · exact hbalanced
  · rw [scan_of_blames he] at h
    cases h

/-- What a scan reports is to blame, for there is something to blame, and it is reported. -/
theorem blames_of_scan (h : scan format source = .error e) : Blames format source.lines e := by
  rcases balanced_or_blames source.lines with hbalanced | ⟨e', he'⟩
  · obtain ⟨forest, hscan⟩ := scan_of_balanced hbalanced
    rw [hscan] at h
    cases h
  · rw [scan_of_blames he'] at h
    cases h
    exact he'

/-- **Exactly the balanced files are scanned, and the right line is blamed for any other.** -/
theorem scan_balanced (format : SignatureFormat) (source : Text) :
    ((∃ forest, scan format source = .ok forest) ↔ Nesting.Balanced format source.lines) ∧
      ∀ e, scan format source = .error e ↔ Blames format source.lines e :=
  ⟨⟨fun ⟨_, hscan⟩ => balanced_of_scan hscan, scan_of_balanced⟩,
    fun _ => ⟨blames_of_scan, scan_of_blames⟩⟩

/-- The method takes the `end`, and the class stays open. -/
example : scan .rbi "class A\n  def f\n    X = 1\n  end" = .error ⟨1, .neverClosed "class A"⟩ := rfl

end Signature
end DocTypes
