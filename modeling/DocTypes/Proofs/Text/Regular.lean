import DocTypes.Text.Basic
import Mathlib.Computability.Language

/-! # Regular languages of texts

Words, paths, methods and literals are regular: what they look like is said by alternatives (`+`),
by texts that follow one another (`*`) and by repetition (`∗`), with nothing counted or remembered.
The bricks are given texts (`Text.among`) and single characters out of some ranges (`Text.oneOf`), and
a part may be left out (`Text.optional`).

The lemmas open such a language from the front.  A class of characters takes one character off
(`mem_oneOf_mul`), and a class that is repeated is a condition on each character
(`mem_kstar_oneOf`). -/

namespace DocTypes.Text

open scoped Computability

/-- Whether a character is in one of several ranges. -/
def inRanges (ranges : List (Char × Char)) (c : Char) : Bool :=
  ranges.any fun (low, high) => low ≤ c && c ≤ high

/-- The texts of a single character that is in one of several ranges. -/
def oneOf (ranges : List (Char × Char)) : Language Char :=
  {t | ∃ c, t = [c] ∧ inRanges ranges c = true}

/-- The given texts and no others. -/
def among (texts : List Text) : Language Char := {t | t ∈ texts}

/-- The texts of a language, and the empty text. -/
def optional (l : Language Char) : Language Char := 1 + l

variable {ranges : List (Char × Char)} {texts : List Text} {t : Text} {l m : Language Char}

theorem mem_among : t ∈ among texts ↔ t ∈ texts := Iff.rfl

instance : Decidable (t ∈ among texts) := inferInstanceAs (Decidable (t ∈ texts))

/-- A single character is a range, too. -/
theorem beq_eq_inRange (c d : Char) : (c == d) = (decide (d ≤ c) && decide (c ≤ d)) := by
  rw [Bool.eq_iff_iff, beq_iff_eq, Bool.and_eq_true, decide_eq_true_eq, decide_eq_true_eq]
  constructor
  · rintro rfl
    exact ⟨Char.le_refl c, Char.le_refl c⟩
  · rintro ⟨hlow, hhigh⟩
    exact Char.le_antisymm hhigh hlow

theorem mem_optional : t ∈ optional l ↔ t = [] ∨ t ∈ l := by
  rw [optional, Language.mem_add, Language.mem_one]

theorem optional_mul (l m : Language Char) : optional l * m = m + l * m := by
  rw [optional, add_mul, one_mul]

theorem mul_optional (l m : Language Char) : l * optional m = l + l * m := by
  rw [optional, mul_add, mul_one]

/-- A given text that starts off a language is found at the front. -/
theorem mem_among_singleton_mul {lead : Text} :
    t ∈ among [lead] * l ↔ ∃ rest ∈ l, t = lead ++ rest := by
  rw [Language.mem_mul]
  constructor
  · rintro ⟨front, hfront, rest, hrest, rfl⟩
    obtain rfl := List.mem_singleton.mp hfront
    exact ⟨rest, hrest, rfl⟩
  · rintro ⟨rest, hrest, rfl⟩
    exact ⟨lead, List.mem_singleton_self lead, rest, hrest, rfl⟩

/-- **A class of characters takes one character off.** -/
theorem mem_oneOf_mul :
    t ∈ oneOf ranges * l ↔ ∃ c cs, t = c :: cs ∧ inRanges ranges c = true ∧ cs ∈ l := by
  rw [Language.mem_mul]
  constructor
  · rintro ⟨front, ⟨c, rfl, hc⟩, cs, hcs, rfl⟩
    exact ⟨c, cs, rfl, hc, hcs⟩
  · rintro ⟨c, cs, rfl, hc, hcs⟩
    exact ⟨[c], ⟨c, rfl, hc⟩, cs, hcs, rfl⟩

/-- **A class of characters that is repeated holds of each character.** -/
theorem mem_kstar_oneOf : t ∈ (oneOf ranges)∗ ↔ ∀ c ∈ t, inRanges ranges c = true := by
  rw [Language.mem_kstar]
  constructor
  · rintro ⟨parts, rfl, hparts⟩ c hc
    obtain ⟨part, hpart, hmem⟩ := List.mem_flatten.mp hc
    obtain ⟨d, rfl, hd⟩ := hparts part hpart
    obtain rfl := List.mem_singleton.mp hmem
    exact hd
  · intro h
    refine ⟨t.map ([·]), ?_, ?_⟩
    · rw [← List.flatMap_def, List.flatMap_singleton']
    · intro part hpart
      obtain ⟨c, hc, rfl⟩ := List.mem_map.mp hpart
      exact ⟨c, rfl, h c hc⟩

end DocTypes.Text
