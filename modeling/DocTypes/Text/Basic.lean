/-! # Texts, and how they are cut

A text is the list of its characters (`Text`), so every reader in this library recurses on the
text itself, and two texts are equal when they have the same characters.  A string literal may
stand wherever a text is expected.

Reading starts with cutting.  `pieces` cuts at every character of a class, `lines` at line ends,
`cutAtFirst?` and `cutAtLast?` once; none of them loses a character other than the ones it cuts
at (a line end being a line feed with at most one carriage return before it). -/

namespace DocTypes

/-- A text, as the list of its characters. -/
abbrev Text := List Char

instance : Coe String Text := ⟨String.toList⟩

namespace Text

/-- A number in decimal digits. -/
def ofNat (n : Nat) : Text := Nat.toDigits 10 n

/-! ## Cutting -/

/-- Puts a character in front of the first of several pieces. -/
def consFirst (c : Char) : List Text → List Text
  | [] => [[c]]
  | piece :: rest => (c :: piece) :: rest

/-- The pieces of a text between the characters that `cuts` accepts.  There is one more of them
than there are such characters, so there is always at least one. -/
def pieces (cuts : Char → Bool) : Text → List Text
  | [] => [[]]
  | c :: cs => if cuts c then [] :: pieces cuts cs else consFirst c (pieces cuts cs)

/-- The lines of a text.  A line feed ends a line, and a carriage return just before it belongs
to the line end; a carriage return elsewhere is an ordinary character.  A text that ends in a line
end has no further, empty line. -/
def lines : Text → List Text
  | [] => []
  | '\n' :: cs => [] :: lines cs
  | '\r' :: '\n' :: cs => [] :: lines cs
  | c :: cs => consFirst c (lines cs)

/-- The text before and after the first character that `cuts` accepts. -/
def cutAtFirst? (cuts : Char → Bool) : Text → Option (Text × Text)
  | [] => none
  | c :: cs =>
    if cuts c then some ([], cs)
    else (cutAtFirst? cuts cs).map fun (before, after) => (c :: before, after)

/-- The text before and after the last character that `cuts` accepts. -/
def cutAtLast? (cuts : Char → Bool) : Text → Option (Text × Text)
  | [] => none
  | c :: cs =>
    match cutAtLast? cuts cs with
    | some (before, after) => some (c :: before, after)
    | none => if cuts c then some ([], cs) else none

/-! ### What cutting keeps -/

theorem consFirst_ne_nil (c : Char) (pieces : List Text) : consFirst c pieces ≠ [] := by
  cases pieces <;> simp [consFirst]

/-- A character is put in front of one piece, and the others stay as they are. -/
theorem mem_consFirst {c : Char} {pieces : List Text} {piece : Text}
    (h : piece ∈ consFirst c pieces) :
    (∃ rest, piece = c :: rest ∧ (rest = [] ∨ rest ∈ pieces)) ∨ piece ∈ pieces := by
  cases pieces with
  | nil => exact Or.inl ⟨[], List.mem_singleton.mp h, Or.inl rfl⟩
  | cons first pieces =>
    rcases List.mem_cons.mp h with rfl | h
    · exact Or.inl ⟨first, rfl, Or.inr List.mem_cons_self⟩
    · exact Or.inr (List.mem_cons_of_mem _ h)

theorem exists_mem_consFirst (c : Char) (pieces : List Text) :
    ∃ piece, c :: piece ∈ consFirst c pieces := by
  cases pieces with
  | nil => exact ⟨[], List.mem_singleton_self _⟩
  | cons first pieces => exact ⟨first, List.mem_cons_self⟩

/-- No piece loses a character. -/
theorem exists_mem_consFirst_of_mem (c : Char) {pieces : List Text} {piece : Text}
    (h : piece ∈ pieces) : ∃ piece' ∈ consFirst c pieces, piece ⊆ piece' := by
  cases pieces with
  | nil => cases h
  | cons first pieces =>
    rcases List.mem_cons.mp h with rfl | h
    · exact ⟨c :: piece, List.mem_cons_self, List.subset_cons_self _ _⟩
    · exact ⟨piece, List.mem_cons_of_mem _ h, List.Subset.refl _⟩

theorem pieces_ne_nil (cuts : Char → Bool) (t : Text) : pieces cuts t ≠ [] := by
  cases t with
  | nil => simp [pieces]
  | cons c cs =>
    rw [pieces]
    split
    · simp
    · exact consFirst_ne_nil _ _

/-- What is cut off in front holds no place to cut at, and nothing is lost but that place. -/
theorem cutAtFirst?_eq_some {cuts : Char → Bool} {t before after : Text}
    (h : cutAtFirst? cuts t = some (before, after)) :
    ∃ c, cuts c = true ∧ t = before ++ c :: after ∧ ∀ d ∈ before, cuts d = false := by
  induction t generalizing before with
  | nil => simp [cutAtFirst?] at h
  | cons c cs ih =>
    rw [cutAtFirst?] at h
    split at h
    · next hc =>
      simp only [Option.some.injEq, Prod.mk.injEq] at h
      obtain ⟨rfl, rfl⟩ := h
      exact ⟨c, hc, rfl, by simp⟩
    · next hc =>
      obtain ⟨⟨inner, rest⟩, hcut, heq⟩ := Option.map_eq_some_iff.mp h
      simp only [Prod.mk.injEq] at heq
      obtain ⟨rfl, rfl⟩ := heq
      obtain ⟨d, hd, hcs, hall⟩ := ih hcut
      refine ⟨d, hd, by rw [hcs]; rfl, ?_⟩
      intro e he
      rcases List.mem_cons.mp he with rfl | he
      · simpa using hc
      · exact hall e he

/-- The first place to cut at is found behind what holds none. -/
theorem cutAtFirst?_append {cuts : Char → Bool} {before : Text} {c : Char}
    (h : ∀ d ∈ before, cuts d = false) (hc : cuts c = true) (after : Text) :
    cutAtFirst? cuts (before ++ c :: after) = some (before, after) := by
  induction before with
  | nil => exact if_pos hc
  | cons d before ih =>
    obtain ⟨hd, hbefore⟩ := List.forall_mem_cons.mp h
    rw [List.cons_append, cutAtFirst?, hd, ih hbefore]
    rfl

/-- Where there is no place to cut at, nothing is cut. -/
theorem cutAtLast?_eq_none_iff {cuts : Char → Bool} {t : Text} :
    cutAtLast? cuts t = none ↔ ∀ d ∈ t, cuts d = false := by
  induction t with
  | nil => simp [cutAtLast?]
  | cons c cs ih =>
    rw [cutAtLast?, List.forall_mem_cons, ← ih]
    cases cutAtLast? cuts cs with
    | none => simp
    | some pair => simp

/-- What is cut off at the end holds no place to cut at, and nothing is lost but that place. -/
theorem cutAtLast?_eq_some {cuts : Char → Bool} {t before after : Text}
    (h : cutAtLast? cuts t = some (before, after)) :
    ∃ c, cuts c = true ∧ t = before ++ c :: after ∧ ∀ d ∈ after, cuts d = false := by
  induction t generalizing before with
  | nil => simp [cutAtLast?] at h
  | cons c cs ih =>
    rw [cutAtLast?] at h
    split at h
    · next inner rest hcut =>
      simp only [Option.some.injEq, Prod.mk.injEq] at h
      obtain ⟨rfl, rfl⟩ := h
      obtain ⟨d, hd, hcs, hrest⟩ := ih hcut
      exact ⟨d, hd, by rw [hcs]; rfl, hrest⟩
    · next hnone =>
      split at h
      · next hc =>
        simp only [Option.some.injEq, Prod.mk.injEq] at h
        obtain ⟨rfl, rfl⟩ := h
        exact ⟨c, hc, rfl, cutAtLast?_eq_none_iff.mp hnone⟩
      · simp at h

/-- A text is cut where no place to cut at follows. -/
theorem cutAtLast?_append {cuts : Char → Bool} {c : Char} {after : Text} (hc : cuts c = true)
    (hafter : ∀ d ∈ after, cuts d = false) (before : Text) :
    cutAtLast? cuts (before ++ c :: after) = some (before, after) := by
  induction before with
  | nil =>
    rw [List.nil_append, cutAtLast?, cutAtLast?_eq_none_iff.mpr hafter]
    simp [hc]
  | cons d before ih => rw [List.cons_append, cutAtLast?, ih]

/-! ## Comparing parts -/

/-- Whether `t` begins with `lead`. -/
def startsWith (t lead : Text) : Bool := lead.isPrefixOf t

/-- Whether `t` ends with `tail`. -/
def endsWith (t tail : Text) : Bool := tail.isSuffixOf t

/-- What follows `lead` in a text that begins with it. -/
def after? (t lead : Text) : Option Text :=
  if t.startsWith lead then some (t.drop lead.length) else none

/-- What follows `lead` in a text that begins with it, and otherwise the whole text. -/
def dropLead (t lead : Text) : Text := (t.after? lead).getD t

/-- Whether `part` occurs somewhere in the text. -/
def contains (part : Text) : Text → Bool
  | [] => part.isEmpty
  | c :: cs => startsWith (c :: cs) part || contains part cs

/-- The text up to the first place where `part` occurs. -/
def before (part : Text) : Text → Text
  | [] => []
  | c :: cs => if startsWith (c :: cs) part then [] else c :: before part cs

/-! ## Numbers -/

/-- The value of a run of decimal digits. -/
def digitsValue (t : Text) : Nat := t.foldl (fun value c => 10 * value + (c.toNat - 48)) 0

/-- The number that a text writes in decimal, when it is at most `limit`.  One plus sign may
precede the digits, and zeros may; there is at least one digit. -/
def number? (limit : Nat) (t : Text) : Option Nat :=
  let digits := t.dropLead "+"
  if !digits.isEmpty && digits.all Char.isDigit && digitsValue digits ≤ limit then
    some (digitsValue digits)
  else none

end Text
end DocTypes
