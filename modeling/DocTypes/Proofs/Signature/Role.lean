import DocTypes.Signature.Line

/-! # What a line does to the nesting

By its own text alone a line opens a frame, closes one, lacks a name that has to be there, or is
neutral (`LineRole.of`).  A line may declare something on top of that, but it has at most one of
these roles, for no more than one event of a line is about frames (`LineEvent.shape_of`).

What the role has to do with the words of a line is said for each format (`LineRole.of_rbs`,
`LineRole.of_rbi`).  In both a name is lacking where no constant path follows `module` or `class`
(`LineRole.of_eq_bad_iff`). -/

namespace DocTypes

/-- What a line does to the frames that are open. -/
inductive LineRole where
  /-- Opens a frame. -/
  | opening (frame : FrameKind)
  /-- Closes the innermost frame. -/
  | closing
  /-- Lacks the name that has to follow a keyword. -/
  | bad (keyword : Text)
  /-- Leaves the frames as they are. -/
  | neutral
  deriving DecidableEq

/-! ## Events of one line -/

/-- The lists of events that a line may have. -/
inductive LineEvent.Shape : List LineEvent → Prop where
  | none : Shape []
  | one (event : LineEvent) : Shape [event]
  /-- The value of a constant begins a block. -/
  | assignment (name : Text) : Shape [.declares .constantDef name, .opens .code]

namespace SignatureLine

variable {keyword rest : Text} {frame : FrameKind}

theorem shape_opensUnlessEnded : LineEvent.Shape (opensUnlessEnded frame rest) := by
  unfold opensUnlessEnded
  split
  · exact .none
  · exact .one _

theorem shape_namespaceEvents (isWhole : Text → Bool) :
    LineEvent.Shape (namespaceEvents keyword rest isWhole) := by
  unfold namespaceEvents
  dsimp only
  split
  · exact .one _
  · split
    · exact .one _
    · exact .one _

theorem constantEvents_eq (line : Text) (isDefined : Text → Bool) :
    constantEvents line isDefined = [] ∨
      ∃ name, constantEvents line isDefined = [.declares .constantDef name] := by
  unfold constantEvents
  split
  · exact Or.inl rfl
  · split
    · exact Or.inr ⟨_, rfl⟩
    · exact Or.inl rfl

theorem shape_rbsEvents (line : Text) : LineEvent.Shape (rbsEvents line) := by
  unfold rbsEvents
  dsimp only
  split
  · exact shape_namespaceEvents _
  split
  · exact shape_opensUnlessEnded
  split
  · exact .one _
  · rcases constantEvents_eq line _ with hnone | ⟨name, hone⟩
    · exact hnone ▸ .none
    · exact hone ▸ .one _

theorem shape_rbiEvents (line : Text) : LineEvent.Shape (rbiEvents line) := by
  unfold rbiEvents
  dsimp only
  split
  · exact shape_opensUnlessEnded
  split
  · exact shape_namespaceEvents _
  split
  · exact shape_opensUnlessEnded
  split
  · exact .one _
  split
  · exact shape_opensUnlessEnded
  · rcases constantEvents_eq line _ with hnone | ⟨name, hone⟩
    · rw [hnone]
      split
      · exact .one _
      · exact .none
    · rw [hone]
      split
      · exact .assignment name
      · exact .one _

end SignatureLine

/-- Lines without content need no case of their own. -/
theorem LineEvent.of_eq (format : SignatureFormat) (line : Text) :
    of format line =
      match format with
      | .rbs => SignatureLine.rbsEvents (SignatureLine.strip line)
      | .rbi => SignatureLine.rbiEvents (SignatureLine.strip line) := by
  unfold LineEvent.of
  dsimp only
  split
  · next hnil =>
    rw [hnil]
    cases format <;> rfl
  · rfl

/-- **At most one event of a line is about frames**, and it is the last one. -/
theorem LineEvent.shape_of (format : SignatureFormat) (line : Text) : Shape (of format line) := by
  rw [of_eq]
  cases format with
  | rbs => exact SignatureLine.shape_rbsEvents _
  | rbi => exact SignatureLine.shape_rbiEvents _

/-! ## The role of a line -/

/-- The role of a line with the given events, whatever it declares besides. -/
def LineRole.ofEvents : List LineEvent → LineRole
  | [] => neutral
  | .declares _ _ :: events => ofEvents events
  | .opens frame :: _ => opening frame
  | .closes :: _ => closing
  | .lacksName keyword :: _ => bad keyword

/-- What a line does to the frames that are open. -/
def LineRole.of (format : SignatureFormat) (line : Text) : LineRole :=
  ofEvents (LineEvent.of format line)

namespace LineEvent.Shape

variable {events : List LineEvent} {frame : FrameKind} {keyword : Text}

/-- A line that closes a frame does nothing else. -/
theorem eq_of_closing (h : Shape events) (hrole : LineRole.ofEvents events = .closing) :
    events = [.closes] := by
  cases h with
  | none => cases hrole
  | one event =>
    cases event with
    | closes => rfl
    | _ => cases hrole
  | assignment => cases hrole

/-- A line that lacks a name does nothing else. -/
theorem eq_of_bad (h : Shape events) (hrole : LineRole.ofEvents events = .bad keyword) :
    events = [.lacksName keyword] := by
  cases h with
  | none => cases hrole
  | one event =>
    cases event with
    | lacksName =>
      cases hrole
      rfl
    | _ => cases hrole
  | assignment => cases hrole

/-- A neutral line declares something without members, or nothing. -/
theorem eq_of_neutral (h : Shape events) (hrole : LineRole.ofEvents events = .neutral) :
    events = [] ∨ ∃ kind name, events = [.declares kind name] := by
  cases h with
  | none => exact Or.inl rfl
  | one event =>
    cases event with
    | declares kind name => exact Or.inr ⟨kind, name, rfl⟩
    | _ => cases hrole
  | assignment => cases hrole

/-- A line that opens a frame declares nothing but a constant whose value is the code in it. -/
theorem eq_of_opening (h : Shape events) (hrole : LineRole.ofEvents events = .opening frame) :
    events = [.opens frame] ∨
      frame = .code ∧ ∃ name, events = [.declares .constantDef name, .opens .code] := by
  cases h with
  | none => cases hrole
  | one event =>
    cases event with
    | opens =>
      cases hrole
      exact Or.inl rfl
    | _ => cases hrole
  | assignment name =>
    cases hrole
    exact Or.inr ⟨rfl, name, rfl⟩

end LineEvent.Shape

/-! ## Roles by words -/

namespace SignatureLine

/-- The first word of a line, blanks and comments aside. -/
def keyword (line : Text) : Text := (splitKeyword (strip line)).1

/-- What follows the first word of a line. -/
def operand (line : Text) : Text := (splitKeyword (strip line)).2

end SignatureLine

namespace LineRole
open SignatureLine

variable {line word : Text}

theorem ofEvents_opensUnlessEnded (frame : FrameKind) (rest : Text) :
    ofEvents (opensUnlessEnded frame rest) =
      if endsWithEnd rest then neutral else opening frame := by
  unfold opensUnlessEnded
  split <;> rfl

/-- Without a name, a declaration is bad. -/
theorem ofEvents_namespaceEvents_eq_bad (word rest : Text) (isWhole : Text → Bool) {k : Text} :
    ofEvents (namespaceEvents word rest isWhole) = bad k ↔ k = word ∧ leadingPath rest = [] := by
  unfold namespaceEvents splitConstant?
  dsimp only
  split
  · next hnone =>
    split at hnone
    · next hpath =>
      constructor
      · rintro ⟨⟩
        exact ⟨rfl, hpath⟩
      · rintro ⟨rfl, -⟩
        rfl
    · cases hnone
  · next hsome =>
    split at hsome
    · cases hsome
    · next hpath =>
      constructor
      · intro h
        split at h <;> cases h
      · exact fun h => absurd h.2 hpath

/-- A constant does not count for the nesting. -/
theorem ofEvents_constantEvents (line : Text) (isDefined : Text → Bool) (events : List LineEvent) :
    ofEvents (constantEvents line isDefined ++ events) = ofEvents events := by
  rcases constantEvents_eq line isDefined with hnone | ⟨name, hone⟩
  · rw [hnone]
    rfl
  · rw [hone]
    rfl

/-- The role of a line of an RBS file. -/
theorem of_rbs (line : Text) :
    of .rbs line =
      if keyword line = "module" ∨ keyword line = "class" then
        ofEvents (namespaceEvents (keyword line) (operand line) fun after =>
          after.startsWith "=" || endsWithEnd after)
      else if keyword line = "interface" then
        if endsWithEnd (operand line) then neutral
        else opening (.declaration .interfaceDef
          ((operand line).takeWhile fun c => c != '[' && c != ' '))
      else if keyword line = "end" then closing
      else neutral := by
  have hconstant : ∀ isDefined, ofEvents (constantEvents (strip line) isDefined) = neutral := by
    intro isDefined
    rw [← List.append_nil (constantEvents _ _), ofEvents_constantEvents]
    rfl
  rw [of, LineEvent.of_eq]
  dsimp only
  rw [rbsEvents]
  simp only [apply_ite ofEvents, ofEvents_opensUnlessEnded, hconstant]
  rfl

/-- The role of a line of an RBI file. -/
theorem of_rbi (line : Text) :
    of .rbi line =
      if keyword line = "class" ∧ (operand line).startsWith "<<" then
        if endsWithEnd (operand line) then neutral else opening .transparent
      else if keyword line = "module" ∨ keyword line = "class" then
        ofEvents (namespaceEvents (keyword line) (operand line) endsWithEnd)
      else if keyword line = "def" then
        if endsWithEnd (operand line) then neutral else opening .code
      else if keyword line = "end" ∨ keyword line = "end;" ∨ (strip line).startsWith "end." then
        closing
      else if keyword line ∈ blockKeywords then
        if endsWithEnd (operand line) then neutral else opening .code
      else if opensBlock (strip line) then opening .code
      else neutral := by
  rw [of, LineEvent.of_eq]
  dsimp only
  rw [rbiEvents]
  simp only [apply_ite ofEvents, ofEvents_opensUnlessEnded, ofEvents_constantEvents]
  rfl

/-- **A line is bad where no constant path follows `module` or `class`**, singleton classes aside. -/
theorem of_eq_bad_iff {format : SignatureFormat} :
    of format line = bad word ↔
      word = keyword line ∧ (word = "module" ∨ word = "class") ∧ leadingPath (operand line) = [] ∧
        ¬(format = .rbi ∧ word = "class" ∧ (operand line).startsWith "<<" = true) := by
  cases format with
  | rbs =>
    rw [of_rbs]
    split
    · next hword =>
      rw [ofEvents_namespaceEvents_eq_bad]
      constructor
      · rintro ⟨rfl, hpath⟩
        exact ⟨rfl, hword, hpath, fun h => by cases h.1⟩
      · exact fun ⟨hsame, _, hpath, _⟩ => ⟨hsame, hpath⟩
    · next hword =>
      refine ⟨fun h => ?_, fun ⟨hsame, hkeyword, _⟩ => absurd (hsame ▸ hkeyword) hword⟩
      repeat' split at h
      all_goals cases h
  | rbi =>
    rw [of_rbi]
    split
    · next hsingleton =>
      refine ⟨fun h => ?_, fun ⟨hsame, _, _, hother⟩ => absurd ⟨rfl, hsame ▸ hsingleton⟩ hother⟩
      split at h <;> cases h
    · next hsingleton =>
      split
      · next hword =>
        rw [ofEvents_namespaceEvents_eq_bad]
        constructor
        · rintro ⟨rfl, hpath⟩
          exact ⟨rfl, hword, hpath, fun h => hsingleton h.2⟩
        · exact fun ⟨hsame, _, hpath, _⟩ => ⟨hsame, hpath⟩
      · next hword =>
        refine ⟨fun h => ?_, fun ⟨hsame, hkeyword, _⟩ => absurd (hsame ▸ hkeyword) hword⟩
        repeat' split at h
        all_goals cases h

end LineRole
end DocTypes
