import DocTypes.Proofs.Text.Lines
import Mathlib.Data.List.Forall2

/-! # Rows

The rows of a text are the texts between its line feeds.  They differ from its lines only in a
carriage return at the end, and there may be one more of them, which is empty
(`exists_lines_append_rows`).  What is put in where a line begins or ends changes one row
(`LineStart.exists_rows`, `LineEnd.exists_rows`). -/

namespace DocTypes.Text

variable {before after t u line : Text} {front rest : List Text} {first last : Text}
variable {cuts : Char → Bool}

/-- Whether a line may begin behind a text. -/
def LineStart (before : Text) : Prop := before = [] ∨ ∃ above, before = above ++ ['\n']

/-- Whether a line may end in front of a text. -/
def LineEnd (after : Text) : Prop :=
  after = [] ∨ ∃ below, after = '\n' :: below ∨ after = '\r' :: '\n' :: below

/-- Whether a text is white space that stays on one line. -/
def IsSpacing (t : Text) : Prop := ∀ c ∈ t, isBlank c = true ∧ c ≠ '\n'

instance : DecidablePred IsSpacing := fun t =>
  decidable_of_iff (t.all fun c => isBlank c && c != '\n') (by simp [IsSpacing])

/-! ## Pieces of texts that follow one another -/

/-- Texts that follow one another share a piece, the last of the one and the first of the other. -/
theorem pieces_append_of_eq (ht : pieces cuts t = front ++ [last])
    (hu : pieces cuts u = first :: rest) :
    pieces cuts (t ++ u) = front ++ (last ++ first) :: rest := by
  induction t generalizing front last with
  | nil =>
    cases front with
    | nil =>
      obtain rfl := (List.singleton_inj.mp ht).symm
      exact hu
    | cons piece front => simp [pieces] at ht
  | cons c t ih =>
    obtain ⟨piece, more, hpieces⟩ := List.exists_cons_of_ne_nil (pieces_ne_nil cuts t)
    rw [pieces] at ht
    rw [List.cons_append, pieces]
    split at ht
    · next hc =>
      rw [if_pos hc]
      cases front with
      | nil => rw [hpieces] at ht; cases ht
      | cons other front =>
        obtain ⟨rfl, htail⟩ := List.cons.inj ht
        rw [ih htail]
        rfl
    · next hc =>
      rw [if_neg hc]
      rw [hpieces] at ht ih
      -- The character stands in front of the first piece, which may be the last one, too.
      cases front with
      | nil =>
        obtain ⟨rfl, rfl⟩ := List.cons.inj ht
        rw [@ih [] piece rfl]
        rfl
      | cons other front =>
        obtain ⟨rfl, rfl⟩ := List.cons.inj ht
        rw [@ih (piece :: front) last rfl]
        rfl

/-! ## Rows and lines -/

/-- The texts between the line feeds of a text. -/
def rows (t : Text) : List Text := t.pieces (· == '\n')

theorem rows_eq_singleton (h : '\n' ∉ line) : rows line = [line] := by
  refine pieces_of_forall fun c hc => beq_eq_false_iff_ne.mpr ?_
  rintro rfl
  exact h hc

theorem IsSpacing.rows_eq (h : t.IsSpacing) : rows t = [t] :=
  rows_eq_singleton fun hmem => (h _ hmem).2 rfl

theorem rows_append (before after : Text) :
    rows (before ++ '\n' :: after) = rows before ++ rows after := pieces_append rfl before after

theorem exists_rows_eq_concat (t : Text) : ∃ front last, rows t = front ++ [last] :=
  ⟨_, _, (List.dropLast_concat_getLast (pieces_ne_nil _ t)).symm⟩

theorem rows_cons {c : Char} (hc : c ≠ '\n') (t : Text) : rows (c :: t) = consFirst c (rows t) := by
  rw [rows, pieces, if_neg (by simpa using hc)]
  rfl

/-- Rows are lines, perhaps with a carriage return, and there may be an empty one more. -/
theorem exists_lines_append_rows (t : Text) :
    ∃ extra, (extra = [] ∨ extra = [[]]) ∧
      List.Forall₂ (fun line row => row = line ∨ row = line ++ ['\r']) (lines t ++ extra) (rows t) := by
  fun_induction lines t with
  | case1 => exact ⟨[[]], Or.inr rfl, .cons (Or.inl rfl) .nil⟩
  | case2 cs ih =>
    obtain ⟨extra, hextra, hrows⟩ := ih
    exact ⟨extra, hextra, .cons (Or.inl rfl) hrows⟩
  | case3 cs ih =>
    obtain ⟨extra, hextra, hrows⟩ := ih
    exact ⟨extra, hextra, .cons (Or.inr rfl) hrows⟩
  | case4 c cs hfeed hreturn ih =>
    obtain ⟨extra, hextra, hrows⟩ := ih
    rw [rows_cons hfeed]
    cases hlines : lines cs with
    | nil =>
      -- All that follows is the empty row, and the character begins a line in it.
      rw [hlines] at hrows
      rcases hextra with rfl | rfl
      · exact absurd (List.forall₂_nil_left_iff.mp hrows) (pieces_ne_nil _ cs)
      · obtain ⟨row, rest, hrow, hrest, heq⟩ := List.forall₂_cons_left_iff.mp hrows
        obtain rfl := List.forall₂_nil_left_iff.mp hrest
        refine ⟨[], Or.inl rfl, ?_⟩
        rw [heq]
        refine .cons ?_ .nil
        exact hrow.imp (congrArg (c :: ·)) (congrArg (c :: ·))
    | cons line rest =>
      rw [hlines] at hrows
      obtain ⟨row, below, hrow, hrest, heq⟩ := List.forall₂_cons_left_iff.mp hrows
      refine ⟨extra, hextra, ?_⟩
      rw [heq]
      refine .cons ?_ hrest
      exact hrow.imp (congrArg (c :: ·)) (congrArg (c :: ·))

/-- Where a line begins, rows begin. -/
theorem LineStart.exists_rows (h : before.LineStart) :
    ∃ above, ∀ t, rows (before ++ t) = above ++ rows t := by
  rcases h with rfl | ⟨above, rfl⟩
  · exact ⟨[], fun t => rfl⟩
  · refine ⟨rows above, fun t => ?_⟩
    rw [List.append_assoc]
    exact rows_append above t

/-- Where a line ends, a row ends, perhaps with a carriage return. -/
theorem LineEnd.exists_rows (h : after.LineEnd) :
    ∃ ending below, (∀ c ∈ ending, isBlank c = true) ∧ ∀ t front last, rows t = front ++ [last] →
      rows (t ++ after) = front ++ (last ++ ending) :: below := by
  rcases h with rfl | ⟨below, rfl | rfl⟩
  · exact ⟨[], [], by simp, fun t front last ht => pieces_append_of_eq ht rfl⟩
  · exact ⟨[], rows below, by simp, fun t front last ht => pieces_append_of_eq ht rfl⟩
  · exact ⟨['\r'], rows below, List.forall_mem_singleton.mpr rfl,
      fun t front last ht => pieces_append_of_eq ht rfl⟩

end DocTypes.Text
