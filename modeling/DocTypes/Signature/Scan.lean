import DocTypes.Signature.Line

/-! # Scanning a signature file

A scan goes through the lines of a file with the frames that are open, innermost first
(`Scan.State`).  What a line declares goes to the innermost frame, or to the top level when none is
open; a frame that closes hands its declaration, or what it held, to the frame around it.

Three things go wrong: a line lacks a name, an `end` closes nothing, or a frame is still open at
the end of the file, and then the innermost one is blamed. -/

namespace DocTypes

/-- What may be wrong with a signature file. -/
inductive ScanFault where
  /-- No frame is open. -/
  | unexpectedEnd
  /-- The frame that this line opened stays open. -/
  | neverClosed (line : Text)
  /-- No name follows the keyword. -/
  | missingName (keyword : Text)
  deriving DecidableEq

/-- What a fault is, in words. -/
def ScanFault.message : ScanFault → Text
  | unexpectedEnd => "unexpected `end`"
  | neverClosed line => "`" ++ line ++ "` is never closed"
  | missingName keyword => "expected a constant name after `" ++ keyword ++ "`"

/-- A fault, with the number of the line it is on. -/
structure ScanError where
  line : Nat
  fault : ScanFault
  deriving DecidableEq

/-- A fault and where it is, in words. -/
def ScanError.message (e : ScanError) : Text :=
  "line " ++ Text.ofNat e.line ++ ": " ++ e.fault.message

namespace Scan

/-- A frame that is open. -/
structure Frame where
  kind : FrameKind
  /-- What was declared in the frame so far. -/
  members : List Signature
  /-- The number of the line that opened the frame. -/
  line : Nat
  /-- The line that opened the frame, stripped. -/
  text : Text

/-- Where a scan stands. -/
structure State where
  /-- What was declared outside of all frames. -/
  topLevel : List Signature
  /-- The open frames, innermost first. -/
  frames : List Frame

namespace State

/-- The start of a scan. -/
def start : State := ⟨[], []⟩

/-- Adds a declaration to the innermost frame. -/
def add (s : State) (signature : Signature) : State :=
  match s.frames with
  | [] => { s with topLevel := s.topLevel ++ [signature] }
  | frame :: outer =>
    if frame.kind = .code then s
    else { s with frames := { frame with members := frame.members ++ [signature] } :: outer }

/-- Adds several declarations, in order. -/
def addAll (s : State) (signatures : List Signature) : State := signatures.foldl add s

/-- Opens a frame. -/
def push (s : State) (kind : FrameKind) (line : Nat) (text : Text) : State :=
  { s with frames := ⟨kind, [], line, text⟩ :: s.frames }

/-- Closes the innermost frame, if one is open. -/
def pop? (s : State) : Option State :=
  match s.frames with
  | [] => none
  | frame :: outer =>
    let rest : State := { s with frames := outer }
    match frame.kind with
    | .declaration kind name => some (rest.add (.node kind name frame.members))
    | .transparent => some (rest.addAll frame.members)
    | .code => some rest

/-- Goes past an event of line `number`, which is `text` when stripped. -/
def step (s : State) (number : Nat) (text : Text) : LineEvent → Except ScanError State
  | .declares kind name => .ok (s.add (.leaf kind name))
  | .opens kind => .ok (s.push kind number text)
  | .closes =>
    match s.pop? with
    | some s => .ok s
    | none => .error ⟨number, .unexpectedEnd⟩
  | .lacksName keyword => .error ⟨number, .missingName keyword⟩

/-- Goes past the events of a line. -/
def steps (s : State) (number : Nat) (text : Text) : List LineEvent → Except ScanError State
  | [] => .ok s
  | event :: events =>
    match s.step number text event with
    | .ok s => s.steps number text events
    | .error e => .error e

/-- Goes past lines, the first of which is line `number`. -/
def run (format : SignatureFormat) (s : State) (number : Nat) :
    List Text → Except ScanError State
  | [] => .ok s
  | line :: rest =>
    match s.steps number (SignatureLine.strip line) (LineEvent.of format line) with
    | .ok s => s.run format (number + 1) rest
    | .error e => .error e

/-- The declarations at the end of a file, when no frame is open any more. -/
def finish (s : State) : Except ScanError (List Signature) :=
  match s.frames with
  | [] => .ok s.topLevel
  | frame :: _ => .error ⟨frame.line, .neverClosed frame.text⟩

end State
end Scan

/-- The declarations of a signature file. -/
def Signature.scan (format : SignatureFormat) (source : Text) :
    Except ScanError (List Signature) :=
  match Scan.State.start.run format 1 source.lines with
  | .ok s => s.finish
  | .error e => .error e

end DocTypes
