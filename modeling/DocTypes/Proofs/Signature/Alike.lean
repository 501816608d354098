import DocTypes.Proofs.Signature.Run
import Mathlib.Data.List.Forall2

/-! # Scans that go alike

Two scans that stand alike go on alike over the same lines (`Scan.State.Alike.run`): both go past all
of them and end alike, or both end with the same fault.  The lines may be numbered differently, and
what was declared so far need not be the same but only related, by a relation that declarations with
related members keep (`Scan.Congruent`). -/

namespace DocTypes.Scan

variable (R : Signature → Signature → Prop)

/-- Whether declarations are related when their members are. -/
def Congruent : Prop :=
  ∀ kind name members members', List.Forall₂ R members members' →
    R (.node kind name members) (.node kind name members')

/-- Frames that were opened by the same line, with related members. -/
structure Frame.Alike (frame frame' : Frame) : Prop where
  kind : frame.kind = frame'.kind
  members : List.Forall₂ R frame.members frame'.members
  text : frame.text = frame'.text

/-- Scans in the same frames, with related declarations. -/
structure State.Alike (s t : State) : Prop where
  topLevel : List.Forall₂ R s.topLevel t.topLevel
  frames : List.Forall₂ (Frame.Alike R) s.frames t.frames

/-- Results that are related, or the same fault. -/
inductive Agree {α : Type} (related : α → α → Prop) :
    Except ScanError α → Except ScanError α → Prop where
  | ok {a b : α} (h : related a b) : Agree related (.ok a) (.ok b)
  | error {e e' : ScanError} (h : e.fault = e'.fault) : Agree related (.error e) (.error e')

variable {R}

/-- What goes on after related results goes on with related ones. -/
theorem Agree.bind {α β : Type} {related : α → α → Prop} {related' : β → β → Prop}
    {x y : Except ScanError α} {f g : α → Except ScanError β} (h : Agree related x y)
    (hfg : ∀ a b, related a b → Agree related' (f a) (g b)) :
    Agree related' (x >>= f) (y >>= g) := by
  cases h with
  | ok h => exact hfg _ _ h
  | error h => exact .error h

namespace State.Alike

variable {s t : State} {number number' : Nat} {text : Text}
variable {signature signature' : Signature} {signatures signatures' : List Signature}

theorem refl (hR : ∀ signature, R signature signature) (s : State) : s.Alike R s where
  topLevel := List.forall₂_same.mpr fun signature _ => hR signature
  frames := List.forall₂_same.mpr fun _ _ =>
    ⟨rfl, List.forall₂_same.mpr fun signature _ => hR signature, rfl⟩

theorem add (h : s.Alike R t) (hsignature : R signature signature') :
    (s.add signature).Alike R (t.add signature') := by
  obtain ⟨topLevel, frames⟩ := s
  obtain ⟨topLevel', frames'⟩ := t
  obtain ⟨htop, hframes⟩ := h
  have hone : List.Forall₂ R [signature] [signature'] := .cons hsignature .nil
  cases hframes with
  | nil => exact ⟨List.rel_append htop hone, .nil⟩
  | @cons frame frame' outer outer' hframe houter =>
    obtain ⟨hkind, hmembers, htext⟩ := hframe
    rw [State.add, State.add]
    dsimp only
    rw [← hkind]
    split
    · exact ⟨htop, .cons ⟨hkind, hmembers, htext⟩ houter⟩
    · exact ⟨htop, .cons ⟨rfl, List.rel_append hmembers hone, htext⟩ houter⟩

theorem addAll (h : s.Alike R t) (hsignatures : List.Forall₂ R signatures signatures') :
    (s.addAll signatures).Alike R (t.addAll signatures') := by
  induction hsignatures generalizing s t with
  | nil => exact h
  | cons hsignature _ ih => exact ih (h.add hsignature)

theorem push (h : s.Alike R t) (kind : FrameKind) (text : Text) :
    (s.push kind number text).Alike R (t.push kind number' text) :=
  ⟨h.topLevel, .cons ⟨rfl, .nil, rfl⟩ h.frames⟩

theorem pop? (hR : Congruent R) (h : s.Alike R t) : Option.Rel (State.Alike R) s.pop? t.pop? := by
  obtain ⟨topLevel, frames⟩ := s
  obtain ⟨topLevel', frames'⟩ := t
  obtain ⟨htop, hframes⟩ := h
  cases hframes with
  | nil => exact .none
  | @cons frame frame' outer outer' hframe houter =>
    have hrest : State.Alike R ⟨topLevel, outer⟩ ⟨topLevel', outer'⟩ := ⟨htop, houter⟩
    rw [State.pop?, State.pop?]
    dsimp only
    rw [← hframe.kind]
    cases frame.kind with
    | declaration kind name => exact .some (hrest.add (hR kind name _ _ hframe.members))
    | transparent => exact .some (hrest.addAll hframe.members)
    | code => exact .some hrest

/-- **Scans that stand alike go past an event alike.** -/
theorem step (hR : Congruent R) (h : s.Alike R t) (event : LineEvent) :
    Agree (State.Alike R) (s.step number text event) (t.step number' text event) := by
  cases event with
  | declares kind name => exact .ok (h.add (hR kind name [] [] .nil))
  | opens kind => exact .ok (h.push kind text)
  | lacksName keyword => exact .error rfl
  | closes =>
    have hpop := h.pop? hR
    rw [State.step, State.step]
    generalize s.pop? = s' at hpop ⊢
    generalize t.pop? = t' at hpop ⊢
    cases hpop with
    | some h => exact .ok h
    | none => exact .error rfl

theorem steps (hR : Congruent R) (h : s.Alike R t) (events : List LineEvent) :
    Agree (State.Alike R) (s.steps number text events) (t.steps number' text events) := by
  induction events generalizing s t with
  | nil => exact .ok h
  | cons event events ih =>
    rw [steps_cons, steps_cons]
    exact (h.step hR event).bind fun _ _ h => ih h

/-- **Scans that stand alike go past lines alike.** -/
theorem run (hR : Congruent R) (h : s.Alike R t) (format : SignatureFormat) (number number' : Nat)
    (lines : List Text) :
    Agree (State.Alike R) (s.run format number lines) (t.run format number' lines) := by
  induction lines generalizing s t number number' with
  | nil => exact .ok h
  | cons line lines ih =>
    rw [run_eq_bind, run_eq_bind]
    exact (h.steps hR _).bind fun _ _ h => ih h _ _

/-- Scans that end alike give related declarations. -/
theorem finish (h : s.Alike R t) : Agree (List.Forall₂ R) s.finish t.finish := by
  obtain ⟨topLevel, frames⟩ := s
  obtain ⟨topLevel', frames'⟩ := t
  obtain ⟨htop, hframes⟩ := h
  cases hframes with
  | nil => exact .ok htop
  | cons hframe _ => exact .error (congrArg ScanFault.neverClosed hframe.text)

end State.Alike
end DocTypes.Scan
