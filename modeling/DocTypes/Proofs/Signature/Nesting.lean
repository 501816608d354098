import DocTypes.Proofs.Signature.Role
import DocTypes.Signature.Scan
import Mathlib.Data.List.Induction

/-! # How lines are nested

By the roles of its lines alone a file is *balanced* (`Nesting.Balanced`): no line lacks a name, no
front part of it closes more frames than it opens, and all of it closes as many as it opens.  The
same is said by structure (`Nesting.Nested`): there are neutral lines, and pairs of a line that opens
a frame and one that closes it, with nested lines in between.

A file that is only *sound*, with frames open at its end, is nested lines after each of the lines
that opened these (`Nesting.Opened`).  A scan goes along this structure.  That there is no other way
to be sound is shown line by line from the end (`Sound.exists_opened`), and so each file is balanced,
or it is told from the roles what is to blame (`Nesting.balanced_or_blames`). -/

namespace DocTypes

/-! ## Counting frames -/

namespace LineRole

/-- Whether a line opens a frame. -/
def isOpening : LineRole → Bool
  | opening _ => true
  | _ => false

/-- Whether a line closes a frame. -/
def isClosing : LineRole → Bool
  | closing => true
  | _ => false

/-- Whether a line lacks a name. -/
def isBad : LineRole → Bool
  | bad _ => true
  | _ => false

end LineRole

namespace Nesting

variable (format : SignatureFormat)

/-- How many of some lines open a frame. -/
def openings (lines : List Text) : Nat := lines.countP fun line => (LineRole.of format line).isOpening

/-- How many of some lines close a frame. -/
def closings (lines : List Text) : Nat := lines.countP fun line => (LineRole.of format line).isClosing

/-- Whether each of some lines makes sense after those before it. -/
structure Sound (lines : List Text) : Prop where
  named : ∀ line ∈ lines, (LineRole.of format line).isBad = false
  /-- There is a frame for each line that closes one. -/
  covered : ∀ front, front <+: lines → closings format front ≤ openings format front

/-- Whether some lines are sound and leave no frame open. -/
structure Balanced (lines : List Text) : Prop extends Sound format lines where
  settled : closings format lines = openings format lines

/-- Lines that close just the frames that they open, by structure. -/
inductive Nested : List Text → Prop where
  | nil : Nested []
  | neutral {line : Text} {rest : List Text} (role : LineRole.of format line = .neutral)
      (hrest : Nested rest) : Nested (line :: rest)
  | frame {opener closer : Text} {inside rest : List Text} {kind : FrameKind}
      (opens : LineRole.of format opener = .opening kind)
      (closes : LineRole.of format closer = .closing) (hinside : Nested inside)
      (hrest : Nested rest) : Nested (opener :: (inside ++ closer :: rest))

/-- Lines that leave frames open, each with the number and the text of the line that opened it,
innermost first. -/
inductive Opened : List Text → List (Nat × Text) → Prop where
  | closed {lines : List Text} (h : Nested format lines) : Opened lines []
  | opened {front back : List Text} {line : Text} {kind : FrameKind} {waiting : List (Nat × Text)}
      (h : Opened front waiting) (opens : LineRole.of format line = .opening kind)
      (hback : Nested format back) :
      Opened (front ++ line :: back) ((front.length + 1, SignatureLine.strip line) :: waiting)

/-- What is to blame for lines that are not balanced: the first line that is bad or closes no frame,
or else the last line whose frame stays open. -/
inductive Blames (lines : List Text) : ScanError → Prop where
  | bad {front back : List Text} {line keyword : Text} (h : lines = front ++ line :: back)
      (sound : Sound format front) (role : LineRole.of format line = .bad keyword) :
      Blames lines ⟨front.length + 1, .missingName keyword⟩
  | unopened {front back : List Text} {line : Text} (h : lines = front ++ line :: back)
      (sound : Sound format front) (role : LineRole.of format line = .closing)
      (settled : closings format front = openings format front) :
      Blames lines ⟨front.length + 1, .unexpectedEnd⟩
  | unclosed {front back : List Text} {line : Text} {kind : FrameKind}
      (h : lines = front ++ line :: back) (sound : Sound format lines)
      (role : LineRole.of format line = .opening kind) (balanced : Balanced format back) :
      Blames lines ⟨front.length + 1, .neverClosed (SignatureLine.strip line)⟩

variable {format} {lines front back more inside : List Text} {line opener closer : Text}
variable {kind : FrameKind} {waiting : List (Nat × Text)} {number : Nat} {text : Text}

@[simp] theorem openings_append :
    openings format (front ++ back) = openings format front + openings format back :=
  List.countP_append

@[simp] theorem closings_append :
    closings format (front ++ back) = closings format front + closings format back :=
  List.countP_append

@[simp] theorem openings_cons :
    openings format (line :: lines) =
      openings format lines + if (LineRole.of format line).isOpening then 1 else 0 :=
  List.countP_cons

@[simp] theorem closings_cons :
    closings format (line :: lines) =
      closings format lines + if (LineRole.of format line).isClosing then 1 else 0 :=
  List.countP_cons

@[simp] theorem openings_nil : openings format [] = 0 := rfl

@[simp] theorem closings_nil : closings format [] = 0 := rfl

/-- A line that closes a frame counts as that and as nothing else. -/
theorem count_concat_closing (h : LineRole.of format line = .closing) (lines : List Text) :
    closings format (lines ++ [line]) = closings format lines + 1 ∧
      openings format (lines ++ [line]) = openings format lines := by
  simp [h, LineRole.isOpening, LineRole.isClosing]

/-! ## Sound and balanced lines -/

theorem sound_nil : Sound format [] where
  named := fun _ hline => absurd hline List.not_mem_nil
  covered := fun front hfront => Nat.le_of_eq (by rw [List.prefix_nil.mp hfront]; rfl)

/-- A front part of sound lines is sound. -/
theorem Sound.of_prefix (h : Sound format lines) (hfront : front <+: lines) : Sound format front where
  named := fun line hline => h.named line (hfront.subset hline)
  covered := fun part hpart => h.covered part (hpart.trans hfront)

/-- One line after sound ones is sound if it is not bad and closes no frame in excess. -/
theorem Sound.concat (h : Sound format lines) (hnamed : (LineRole.of format line).isBad = false)
    (hcovered : closings format (lines ++ [line]) ≤ openings format (lines ++ [line])) :
    Sound format (lines ++ [line]) where
  named := List.forall_mem_append.mpr ⟨h.named, List.forall_mem_singleton.mpr hnamed⟩
  covered := fun front hfront => by
    rcases List.prefix_concat_iff.mp hfront with rfl | hfront
    · exact hcovered
    · exact h.covered front hfront

/-- Balanced lines may stand anywhere among sound ones. -/
theorem Sound.append (h : Sound format front) (h' : Sound format back) :
    Sound format (front ++ back) := by
  induction back using List.reverseRecOn with
  | nil => rwa [List.append_nil]
  | append_singleton back line ih =>
    have hback := ih (h'.of_prefix (List.prefix_append _ _))
    rw [← List.append_assoc]
    refine hback.concat (h'.named line (by simp)) ?_
    have hfront := h.covered front List.prefix_rfl
    have hall := h'.covered _ List.prefix_rfl
    rw [List.append_assoc, closings_append, openings_append]
    omega

theorem Balanced.append (h : Balanced format front) (h' : Balanced format back) :
    Balanced format (front ++ back) where
  toSound := h.toSound.append h'.toSound
  settled := by rw [closings_append, openings_append, h.settled, h'.settled]

theorem sound_singleton (hnamed : (LineRole.of format line).isBad = false)
    (hclosing : (LineRole.of format line).isClosing = false) : Sound format [line] :=
  sound_nil.concat hnamed (by simp [hclosing])

theorem balanced_neutral (h : LineRole.of format line = .neutral) : Balanced format [line] where
  toSound := sound_singleton (by rw [h]; rfl) (by rw [h]; rfl)
  settled := by simp [h, LineRole.isOpening, LineRole.isClosing]

/-- A pair of lines around balanced ones is balanced. -/
theorem Balanced.frame (h : Balanced format inside) (hopens : LineRole.of format opener = .opening kind)
    (hcloses : LineRole.of format closer = .closing) :
    Balanced format ((opener :: inside) ++ [closer]) := by
  have hcount : closings format ((opener :: inside) ++ [closer]) =
      openings format ((opener :: inside) ++ [closer]) := by
    simp [hopens, hcloses, h.settled, LineRole.isOpening, LineRole.isClosing]
  have hopener : Sound format [opener] :=
    sound_singleton (by rw [hopens]; rfl) (by rw [hopens]; rfl)
  exact ⟨(hopener.append h.toSound).concat (by rw [hcloses]; rfl) (Nat.le_of_eq hcount), hcount⟩

/-! ## Balance by structure -/

theorem Nested.append (h : Nested format front) (h' : Nested format back) :
    Nested format (front ++ back) := by
  induction h with
  | nil => exact h'
  | neutral role _ ih => exact .neutral role ih
  | frame opens closes hinside _ _ ih =>
    rw [List.cons_append, List.append_assoc]
    exact .frame opens closes hinside ih

/-- **Nested lines are balanced.** -/
theorem Nested.balanced (h : Nested format lines) : Balanced format lines := by
  induction h with
  | nil => exact ⟨sound_nil, rfl⟩
  | neutral role _ ih => exact (balanced_neutral role).append ih
  | @frame opener closer inside rest kind opens closes _ _ hinside hrest =>
    have hall := (hinside.frame opens closes).append hrest
    rwa [List.append_assoc] at hall

/-! ## Soundness by structure -/

theorem Opened.append (h : Opened format lines waiting) (hmore : Nested format more) :
    Opened format (lines ++ more) waiting := by
  cases h with
  | closed h => exact .closed (h.append hmore)
  | opened h opens hback =>
    rw [List.append_assoc]
    exact .opened h opens (hback.append hmore)

/-- A line closes the innermost frame, if there is one. -/
theorem Opened.close (h : Opened format lines ((number, text) :: waiting))
    (hcloses : LineRole.of format line = .closing) : Opened format (lines ++ [line]) waiting := by
  cases h with
  | opened h opens hback =>
    rw [List.append_assoc]
    exact h.append (.frame opens hcloses hback .nil)

/-- There are as many frames open as were opened and not closed. -/
theorem Opened.openings_eq (h : Opened format lines waiting) :
    openings format lines = closings format lines + waiting.length := by
  induction h with
  | closed h => exact h.balanced.settled.symm
  | opened h opens hback ih =>
    have hsettled := hback.balanced.settled
    simp [opens, LineRole.isOpening, LineRole.isClosing]
    omega

/-- **Sound lines leave open what is told from their structure.** -/
theorem Sound.exists_opened (h : Sound format lines) : ∃ waiting, Opened format lines waiting := by
  induction lines using List.reverseRecOn with
  | nil => exact ⟨[], .closed .nil⟩
  | append_singleton lines line ih =>
    obtain ⟨waiting, hlines⟩ := ih (h.of_prefix (List.prefix_append _ _))
    cases hrole : LineRole.of format line with
    | neutral => exact ⟨waiting, hlines.append (.neutral hrole .nil)⟩
    | opening kind => exact ⟨_, .opened hlines hrole .nil⟩
    | bad keyword =>
      have hnamed := h.named line (by simp)
      rw [hrole] at hnamed
      cases hnamed
    | closing =>
      cases waiting with
      | cons first waiting => exact ⟨waiting, hlines.close hrole⟩
      | nil =>
        have hcovered := h.covered _ List.prefix_rfl
        have hcount : openings format lines = closings format lines := hlines.openings_eq
        obtain ⟨hmore, hsame⟩ := count_concat_closing hrole lines
        omega

/-! ## What is to blame -/

/-- A line after which lines are no longer sound is bad, or it closes a frame and none is open. -/
theorem Sound.fault (h : Sound format front) (hnot : ¬Sound format (front ++ [line])) :
    (∃ keyword, LineRole.of format line = .bad keyword) ∨
      LineRole.of format line = .closing ∧ closings format front = openings format front := by
  have hcovered := h.covered front List.prefix_rfl
  cases hrole : LineRole.of format line with
  | bad keyword => exact Or.inl ⟨keyword, rfl⟩
  | closing =>
    refine Or.inr ⟨rfl, Nat.le_antisymm hcovered (Nat.le_of_not_lt fun hlt => hnot ?_)⟩
    refine h.concat (by rw [hrole]; rfl) ?_
    obtain ⟨hmore, hsame⟩ := count_concat_closing hrole front
    omega
  | neutral | opening =>
    refine absurd (h.append (sound_singleton ?_ ?_)) hnot
    all_goals
      rw [hrole]
      rfl

/-- Lines that are not sound are sound up to some line. -/
theorem exists_first_fault (h : ¬Sound format lines) :
    ∃ front line back, lines = front ++ line :: back ∧ Sound format front ∧
      ¬Sound format (front ++ [line]) := by
  induction lines using List.reverseRecOn with
  | nil => exact absurd sound_nil h
  | append_singleton lines line ih =>
    by_cases hlines : Sound format lines
    · exact ⟨lines, line, [], rfl, hlines, h⟩
    · obtain ⟨front, first, back, rfl, hfront, hnot⟩ := ih hlines
      exact ⟨front, first, back ++ [line], by simp, hfront, hnot⟩

/-- **Lines are balanced, or something is to blame.** -/
theorem balanced_or_blames (lines : List Text) :
    Balanced format lines ∨ ∃ e, Blames format lines e := by
  by_cases hsound : Sound format lines
  · obtain ⟨waiting, hopened⟩ := hsound.exists_opened
    cases hopened with
    | closed h => exact Or.inl h.balanced
    | opened h opens hback => exact Or.inr ⟨_, .unclosed rfl hsound opens hback.balanced⟩
  · obtain ⟨front, line, back, hlines, hfront, hnot⟩ := exists_first_fault hsound
    rcases hfront.fault hnot with ⟨keyword, hbad⟩ | ⟨hcloses, hsettled⟩
    · exact Or.inr ⟨_, .bad hlines hfront hbad⟩
    · exact Or.inr ⟨_, .unopened hlines hfront hcloses hsettled⟩

/-- **Balanced lines are nested.** -/
theorem Balanced.nested (h : Balanced format lines) : Nested format lines := by
  obtain ⟨waiting, hopened⟩ := h.toSound.exists_opened
  cases hopened with
  | closed h => exact h
  | opened hfront opens hback =>
    have hcount := (Opened.opened hfront opens hback).openings_eq
    rw [h.settled, List.length_cons] at hcount
    omega

/-- **In balanced lines each frame is closed**, by the first line after balanced ones that closes
something. -/
theorem Balanced.exists_closer (h : Balanced format (front ++ opener :: back))
    (opens : LineRole.of format opener = .opening kind) :
    ∃ inside closer after, back = inside ++ closer :: after ∧ Balanced format inside ∧
      LineRole.of format closer = .closing := by
  have hnot : ¬Sound format back := by
    intro hback
    have hfront := h.covered front (List.prefix_append _ _)
    have hcovered := hback.covered back List.prefix_rfl
    have hsettled := h.settled
    simp [opens, LineRole.isOpening, LineRole.isClosing] at hsettled
    omega
  obtain ⟨inside, closer, after, rfl, hinside, hfault⟩ := exists_first_fault hnot
  rcases hinside.fault hfault with ⟨keyword, hbad⟩ | ⟨hcloses, hsettled⟩
  · have hnamed := h.named closer (by simp)
    rw [hbad] at hnamed
    cases hnamed
  · exact ⟨inside, closer, after, rfl, ⟨hinside, hsettled⟩, hcloses⟩

end Nesting
end DocTypes
