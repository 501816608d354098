import DocTypes.Signature.Scan

/-! # Going past lines

A scan over lines one after another goes on where it stands after the first of them
(`Scan.State.run_append_eq_bind`).  Lines are said to *contribute* declarations
(`Scan.State.Contributes`) when a scan over them adds these wherever it stands, and leaves all frames
that are open as they were.  Lines of this kind can stand one after another (`Contributes.append`) and
in a frame, which yields what was declared in it, passes it on, or drops it (`FrameKind.yield`,
`Contributes.frame`). -/

namespace DocTypes

/-- What a frame adds to the one around it, by what was declared in it. -/
def FrameKind.yield (members : List Signature) : FrameKind → List Signature
  | declaration kind name => [.node kind name members]
  | transparent => members
  | code => []

namespace Scan.State

variable {format : SignatureFormat} {s s' : State} {number : Nat} {kind : FrameKind}
variable {front back inside : List Text} {opener closer : Text}
variable {signatures signatures' declared : List Signature}

/-! ## Lines one after another -/

theorem steps_cons (s : State) (number : Nat) (text : Text) (event : LineEvent)
    (events : List LineEvent) :
    s.steps number text (event :: events) =
      s.step number text event >>= fun s => s.steps number text events := by
  rw [steps]
  cases s.step number text event <;> rfl

theorem run_eq_bind (format : SignatureFormat) (s : State) (number : Nat) (line : Text)
    (lines : List Text) :
    s.run format number (line :: lines) =
      s.steps number (SignatureLine.strip line) (LineEvent.of format line) >>= fun s =>
        s.run format (number + 1) lines := by
  rw [run]
  cases s.steps number (SignatureLine.strip line) (LineEvent.of format line) <;> rfl

theorem run_append_eq_bind (format : SignatureFormat) (s : State) (number : Nat)
    (lines rest : List Text) :
    s.run format number (lines ++ rest) =
      s.run format number lines >>= fun s => s.run format (number + lines.length) rest := by
  induction lines generalizing s number with
  | nil => rfl
  | cons line lines ih =>
    have hnumber : number + 1 + lines.length = number + (line :: lines).length := by
      rw [List.length_cons, Nat.add_assoc, Nat.add_comm 1]
    rw [List.cons_append, run_eq_bind, run_eq_bind, bind_assoc]
    simp only [ih, hnumber]

theorem run_append {lines : List Text} (h : s.run format number lines = .ok s') (rest : List Text) :
    s.run format number (lines ++ rest) = s'.run format (number + lines.length) rest := by
  rw [run_append_eq_bind, h]
  rfl

/-! ## What is declared on the way -/

theorem addAll_append (s : State) (signatures more : List Signature) :
    s.addAll (signatures ++ more) = (s.addAll signatures).addAll more := List.foldl_append

/-- What is declared in an innermost frame that is not code is collected there. -/
theorem addAll_frame {topLevel : List Signature} {frame : Frame} {outer : List Frame}
    (h : frame.kind ≠ .code) (signatures : List Signature) :
    addAll ⟨topLevel, frame :: outer⟩ signatures =
      ⟨topLevel, { frame with members := frame.members ++ signatures } :: outer⟩ := by
  induction signatures generalizing frame with
  | nil => rw [List.append_nil]; rfl
  | cons signature signatures ih =>
    have hadd : add ⟨topLevel, frame :: outer⟩ signature =
        ⟨topLevel, { frame with members := frame.members ++ [signature] } :: outer⟩ := if_neg h
    -- The next declarations go to the frame that has this one already.
    have hrest := @ih { frame with members := frame.members ++ [signature] } h
    rw [List.append_assoc] at hrest
    exact (congrArg (addAll · signatures) hadd).trans hrest

/-- What is declared outside of all frames is collected at the top level. -/
theorem addAll_topLevel (topLevel signatures : List Signature) :
    addAll ⟨topLevel, []⟩ signatures = ⟨topLevel ++ signatures, []⟩ := by
  induction signatures generalizing topLevel with
  | nil => rw [List.append_nil]; rfl
  | cons signature signatures ih =>
    have hrest := ih (topLevel ++ [signature])
    rw [List.append_assoc] at hrest
    exact hrest

/-- What is declared in a frame of code is gone. -/
theorem addAll_code {topLevel : List Signature} {frame : Frame} {outer : List Frame}
    (h : frame.kind = .code) (signatures : List Signature) :
    addAll ⟨topLevel, frame :: outer⟩ signatures = ⟨topLevel, frame :: outer⟩ := by
  induction signatures with
  | nil => rfl
  | cons signature signatures ih =>
    have hadd : add ⟨topLevel, frame :: outer⟩ signature = ⟨topLevel, frame :: outer⟩ := if_pos h
    exact (congrArg (addAll · signatures) hadd).trans ih

/-- **A frame that is closed adds to the one around it what it yields.** -/
theorem pop?_addAll_push (s : State) (kind : FrameKind) (signatures : List Signature)
    (number : Nat) (text : Text) :
    ((s.push kind number text).addAll signatures).pop? = some (s.addAll (kind.yield signatures)) := by
  cases kind with
  | declaration | transparent =>
    rw [push, addAll_frame (fun hcode => by cases hcode)]
    rfl
  | code =>
    rw [push, addAll_code rfl]
    rfl

/-! ## Lines that contribute -/

/-- Whether a scan over some lines adds some declarations wherever it stands, and does nothing
else. -/
def Contributes (format : SignatureFormat) (lines : List Text) (signatures : List Signature) : Prop :=
  ∀ (s : State) (number : Nat), s.run format number lines = .ok (s.addAll signatures)

theorem contributes_nil : Contributes format [] [] := fun _ _ => rfl

theorem Contributes.append (h : Contributes format front signatures)
    (h' : Contributes format back signatures') :
    Contributes format (front ++ back) (signatures ++ signatures') := by
  intro s number
  rw [run_append (h s number), h', addAll_append]

/-- Whether a line adds some declarations and then opens a frame, wherever a scan stands. -/
def Opens (format : SignatureFormat) (line : Text) (declared : List Signature) (kind : FrameKind) :
    Prop :=
  ∀ (s : State) (number : Nat) (text : Text),
    s.steps number text (LineEvent.of format line) = .ok ((s.addAll declared).push kind number text)

/-- **Lines in a frame contribute what the frame yields**, after what the opening line declares. -/
theorem Contributes.frame (h : Contributes format inside signatures)
    (hopens : Opens format opener declared kind) (hcloses : LineEvent.of format closer = [.closes]) :
    Contributes format (opener :: (inside ++ [closer])) (declared ++ kind.yield signatures) := by
  intro s number
  rw [run, hopens]
  dsimp only
  rw [run_append (h _ _), run, hcloses, steps, step, pop?_addAll_push, addAll_append]
  rfl

end Scan.State
end DocTypes
