import DocTypes.Proofs.Conversion.Names
import DocTypes.Proofs.Name.Grammar
import DocTypes.Proofs.Signature.Harvest
import DocTypes.Proofs.Text.Lines
import Mathlib.Data.String.Basic

/-! # The path at the front of a line

Constant paths are measured twice: character by character where annotations are read
(`Name.pathLength`), and word by word where the lines of signature files are (`leadingPath`).  Both
find the same path (`leadingPath_eq`).  They meet at the end of each word: a separator behind it
counts only if another word follows, so a word either ends the path, or all that comes is measured by
itself and put behind it.

So a name that is taken from a signature file is one that an annotation can be. -/

namespace DocTypes

namespace Name

variable {t w rest : Text}

/-- The length of the longest path at the front of a text that begins with a word. -/
def relativeLength : Text → Nat
  | c :: cs => if isWordStart c then pathTailLength cs + 1 else 0
  | [] => 0

theorem relativeLength_eq_zero (h : ∀ c ∈ t.head?, isWordStart c = false) :
    relativeLength t = 0 := by
  cases t with
  | nil => rfl
  | cons c cs => rw [relativeLength, h c rfl, if_neg Bool.false_ne_true]

theorem relativeLength_append (hw : isWord w = true) (rest : Text) :
    relativeLength (w ++ rest) = w.length + pathTailLength rest := by
  obtain ⟨c, cs, rfl, hc, hcs⟩ := exists_of_isWord hw
  rw [List.cons_append, relativeLength, if_pos hc, pathTailLength_append_word hcs, List.length_cons]
  omega

/-- A separator counts when a path follows. -/
theorem pathTailLength_separator (t : Text) :
    pathTailLength (':' :: ':' :: t) = if relativeLength t = 0 then 0 else relativeLength t + 2 := by
  cases t with
  | nil => rfl
  | cons c cs =>
    rw [pathTailLength, relativeLength]
    by_cases hc : isWordStart c = true
    · rw [if_pos hc, if_pos hc, if_neg (Nat.succ_ne_zero _)]
    · rw [if_neg hc, if_neg hc, if_pos rfl]

/-- Behind a word nothing else continues a path. -/
theorem pathTailLength_stop (hword : ∀ c ∈ rest.head?, isWordPart c = false)
    (hseparator : ∀ t, rest ≠ ':' :: ':' :: t) : pathTailLength rest = 0 := by
  cases rest with
  | nil => rfl
  | cons c cs =>
    rw [pathTailLength, hword c rfl, if_neg Bool.false_ne_true]
    rintro d ds rfl rfl
    exact hseparator (d :: ds) rfl

theorem pathLength_of_relative (h : ∀ rest, t ≠ ':' :: ':' :: rest) :
    pathLength t = relativeLength t := by
  cases t with
  | nil => rfl
  | cons c cs =>
    rw [pathLength, relativeLength]
    rintro d ds rfl rfl
    exact h (d :: ds) rfl

/-- A path with a separator in front is measured like the rest of a path. -/
theorem pathLength_separator (t : Text) :
    pathLength (':' :: ':' :: t) = pathTailLength (':' :: ':' :: t) := by
  cases t <;> rfl

end Name

namespace SignatureLine

open Name

variable {t : Text}

/-- Behind the characters of a word comes another one, or nothing. -/
theorem isWordPart_head?_dropWhile (t : Text) :
    ∀ c ∈ (t.dropWhile isWordPart).head?, isWordPart c = false := by
  intro c hc
  have hhead := List.head?_dropWhile_not isWordPart t
  rw [Option.mem_def.mp hc] at hhead
  simpa using hhead

/-- A text that begins with no character of words, or with a digit, begins with no word. -/
theorem isWordStart_of_takeWhile (h : ∀ c ∈ (t.takeWhile isWordPart).head?, c.isDigit = true) :
    ∀ c ∈ t.head?, isWordStart c = false := by
  intro c hc
  cases t with
  | nil => cases hc
  | cons d cs =>
    obtain rfl := Option.some.inj hc
    by_cases hpart : isWordPart d = true
    · have hdigit := h d (by rw [List.takeWhile_cons, if_pos hpart]; rfl)
      refine Bool.eq_false_iff.mpr fun hstart => ?_
      rw [not_isDigit_of_isWordStart hstart] at hdigit
      cases hdigit
    · exact Bool.eq_false_iff.mpr fun hstart => hpart (isWordPart_of_isWordStart hstart)

/-- The path at the front of a text is its first word and what continues it. -/
theorem take_relativeLength {first : Char} {others : Text}
    (h : t.takeWhile isWordPart = first :: others) (hdigit : ¬first.isDigit = true) :
    t.take (relativeLength t) = first :: others ++
      (t.dropWhile isWordPart).take (pathTailLength (t.dropWhile isWordPart)) := by
  have ht : first :: others ++ t.dropWhile isWordPart = t := by
    rw [← h, List.takeWhile_append_dropWhile]
  have hlength := relativeLength_append (isWord_of_takeWhile h hdigit) (t.dropWhile isWordPart)
  rw [ht] at hlength
  rw [hlength, ← List.take_length_add_append, ht]

/-- A separator continues a path by the path behind it, if there is one. -/
theorem take_separator (rest : Text) :
    (':' :: ':' :: rest).take (pathTailLength (':' :: ':' :: rest)) =
      if rest.take (relativeLength rest) = [] then []
      else separator ++ rest.take (relativeLength rest) := by
  rw [pathTailLength_separator]
  by_cases hzero : relativeLength rest = 0
  · rw [if_pos hzero, hzero, List.take_zero, List.take_zero, if_pos rfl]
  · have hne : rest.take (relativeLength rest) ≠ [] := by
      intro hnil
      rcases List.take_eq_nil_iff.mp hnil with hlength | rfl
      · exact hzero hlength
      · exact hzero rfl
    rw [if_neg hzero, if_neg hne]
    rfl

/-- A separator takes more than one step of the allowance of words. -/
theorem length_le_of_dropWhile {rest : Text} {words : Nat}
    (hrest : t.dropWhile isWordPart = ':' :: ':' :: rest) (h : t.length ≤ words + 1) :
    rest.length ≤ words := by
  have hsuffix : (':' :: ':' :: rest).length ≤ t.length :=
    hrest ▸ (List.dropWhile_suffix isWordPart).length_le
  simp only [List.length_cons] at hsuffix
  omega

/-- **What is taken word by word is the path that is measured character by character**, when there
are words enough. -/
theorem takePath_eq {words : Nat} (h : t.length ≤ words) :
    takePath words t = t.take (relativeLength t) := by
  fun_induction takePath words t with
  | case1 t =>
    rw [List.length_eq_zero_iff.mp (Nat.le_zero.mp h)]
    rfl
  | case2 words t word hword =>
    have hnone : t.takeWhile isWordPart = [] := hword
    have hstart : ∀ c ∈ t.head?, isWordStart c = false := by
      apply isWordStart_of_takeWhile
      intro c hc
      rw [hnone] at hc
      cases hc
    rw [relativeLength_eq_zero hstart, List.take_zero]
  | case3 words t word first others hword hdigit =>
    have htake : t.takeWhile isWordPart = first :: others := hword
    have hstart : ∀ c ∈ t.head?, isWordStart c = false := by
      apply isWordStart_of_takeWhile
      intro c hc
      rw [htake] at hc
      obtain rfl := Option.some.inj hc
      exact hdigit
    rw [relativeLength_eq_zero hstart, List.take_zero]
  | case4 words t word first others hword hdigit rest hrest hnone ih =>
    -- No word follows the separator, so that the path ends in front of it.
    have hpath := ih (length_le_of_dropWhile hrest h)
    rw [take_relativeLength hword hdigit, hrest, take_separator, ← hpath, if_pos hnone,
      List.append_nil]
    exact hword
  | case5 words t word first others hword hdigit rest hrest hmore ih =>
    have hpath := ih (length_le_of_dropWhile hrest h)
    rw [take_relativeLength hword hdigit, hrest, take_separator, ← hpath, if_neg hmore, hword,
      List.append_assoc]
  | case6 words t word first others hword hdigit hstop =>
    have hzero := pathTailLength_stop (isWordPart_head?_dropWhile t) hstop
    rw [take_relativeLength hword hdigit, hzero, List.take_zero, List.append_nil]
    exact hword

/-- **Both ways to measure find the same path.** -/
theorem leadingPath_eq (t : Text) : leadingPath t = t.take (pathLength t) := by
  unfold leadingPath Text.after?
  by_cases hstart : t.startsWith separator = true
  · obtain ⟨rest, rfl⟩ := Text.startsWith_iff.mp hstart
    have htake : takePath rest.length rest = rest.take (relativeLength rest) :=
      takePath_eq (Nat.le_refl _)
    have hrest : (separator ++ rest).drop separator.length = rest := List.drop_left
    have hlength : pathLength (separator ++ rest) = pathTailLength (':' :: ':' :: rest) :=
      pathLength_separator rest
    have hpath : (separator ++ rest).take (pathLength (separator ++ rest)) =
        if takePath rest.length rest = [] then [] else separator ++ takePath rest.length rest := by
      rw [htake, hlength]
      exact take_separator rest
    rw [if_pos hstart, hrest, hpath]
    dsimp only
    split
    · next hnone => rw [if_pos hnone]
    · next hmore => rw [if_neg hmore]
  · have hrelative : ∀ rest, t ≠ ':' :: ':' :: rest := by
      rintro rest rfl
      exact hstart rfl
    rw [if_neg hstart, pathLength_of_relative hrelative]
    exact takePath_eq (Nat.le_refl _)

end SignatureLine

/-! ## Names from signature files -/

/-- Whether a text is read as a name, and converted without a placeholder wherever it stands. -/
def Name.Accepted (t : Text) : Prop :=
  isSimple t = true ∧ Shape.of (Text.trim t) = .identifier t ∧
    ∀ (r : Resolver) (files : FileSystem) (settings : Settings) (entity? : Option EntityId),
      (r.convert files settings entity? (.one t)).value.containsError = false

/-- No identifier is a fault, be it a keyword or a name. -/
theorem Conversion.containsError_convertOne_of_isSimple {t : Text} (h : Name.isSimple t = true)
    (settings : Settings) (scope : Option Scope) :
    (convertOne settings scope t).value.containsError = false := by
  have hshape : Shape.of t = .identifier t := by rw [Shape.of, if_pos h]
  rw [convertOne, convertText, trim_of_isSimple h, convertTrimmed, hshape]
  split
  · rfl
  split
  · rfl
  split
  · rfl
  · exact (flat_convertName scope t).containsError_eq

theorem Name.accepted_of_isSimple {t : Text} (h : isSimple t = true) : Accepted t := by
  refine ⟨h, ?_, ?_⟩
  · rw [Conversion.trim_of_isSimple h, Shape.of, if_pos h]
  · intro r files settings entity?
    exact Conversion.containsError_convertOne_of_isSimple h settings (r.scopeFor files entity?)

/-- The characters of paths take one byte each. -/
theorem Name.utf8ByteSize_eq {t : Text} (h : ∀ c ∈ t, isPathPart c = true) :
    (String.ofList t).utf8ByteSize = t.length := by
  rw [String.utf8ByteSize_ofList]
  induction t with
  | nil => rfl
  | cons c cs ih =>
    obtain ⟨hc, hcs⟩ := List.forall_mem_cons.mp h
    have hcode : c.toNat ≤ 122 := (toNat_of_isPathPart hc).2
    have hsize : c.utf8Size = 1 := by
      rw [Char.utf8Size_eq_one_iff, UInt32.le_iff_toNat_le]
      exact Nat.le_trans hcode (by decide)
    rw [String.utf8Len_cons, ih hcs, hsize, List.length_cons]

namespace SignatureLine

theorem isPathPart_of_mem_leadingPath {t : Text} :
    ∀ c ∈ leadingPath t, Name.isPathPart c = true := by
  intro c hc
  have hsimple := isSimple_of_leadingPath (List.ne_nil_of_mem hc)
  exact Name.isPathPart_of_mem hsimple hc

/-- **A constant path is measured alike wherever names are read**, and it is the longest one at the
front of the text, in characters as in bytes.  An identifier is a text that is such a path as a whole,
and whatever is harvested from a signature file is listed by identifiers, which an annotation may
be. -/
theorem leadingPath_longest (t : Text) :
    (leadingPath t).length = Name.pathLength t ∧ leadingPath t = t.take (Name.pathLength t) ∧
      (String.ofList (leadingPath t)).utf8ByteSize = Name.pathLength t ∧
      IsGreatest (Name.prefixLengths Name.pathLanguage t) (Name.pathLength t) ∧
      (Name.isSimple t = true ↔ t ∈ Name.pathLanguage) ∧
      ∀ (format : SignatureFormat) (source : Text) (signatures : List Signature),
        Signature.scan format source = .ok signatures →
          ∀ known ∈ harvest signatures, Name.Accepted known.name ∧ Name.Accepted known.path := by
  have hpath := leadingPath_eq t
  have hlength : (leadingPath t).length = Name.pathLength t := by
    rw [hpath]
    exact List.length_take_of_le (Name.pathLength_le t)
  have hbytes := Name.utf8ByteSize_eq (@isPathPart_of_mem_leadingPath t)
  refine ⟨hlength, hpath, hbytes.trans hlength, Name.isGreatest_pathLength t,
    Name.mem_pathLanguage.symm, ?_⟩
  intro format source signatures hscan known hknown
  obtain ⟨outer, hwords, hjoin⟩ := proper_of_scan hscan known hknown
  have hname : Name.isWord known.name = true :=
    hwords.word known.name (List.mem_append_right outer (List.mem_singleton_self _))
  have hsingle := Name.isSimple_join (.singleton hname)
  rw [Name.join_singleton] at hsingle
  refine ⟨Name.accepted_of_isSimple hsingle, ?_⟩
  rw [hjoin]
  exact Name.accepted_of_isSimple (Name.isSimple_join hwords)

/-- A path ends where no word follows a separator, and a class is listed without the separator in
front of its name. -/
theorem leadingPath_longest_class :
    let line : Text := "::A::B2::3"
    let source : Text := "class ::A::B2\nend"
    let signatures : List Signature := [.node .classDef "::A::B2" []]
    let known : KnownName := ⟨"B2", "A::B2"⟩
    (String.ofList (leadingPath line)).utf8ByteSize = 7 ∧
      Signature.scan .rbs source = .ok signatures ∧ known ∈ harvest signatures ∧
        Name.Accepted known.name ∧ Name.Accepted known.path := by
  intro line source signatures known
  have hscan : Signature.scan .rbs source = .ok signatures := rfl
  have hknown : known ∈ harvest signatures := by decide
  obtain ⟨-, -, hbytes, -, -, hharvest⟩ := leadingPath_longest line
  exact ⟨hbytes, hscan, hknown, hharvest .rbs source signatures hscan known hknown⟩

/-- A separator at the end is not taken, nor one that a digit follows. -/
example : ["A::", "::A::1", "::", ":::A", "é::A", "A::B_1é"].map leadingPath =
    (["A", "::A", "", "", "", "A::B_1"] : List Text) := by decide

end SignatureLine
end DocTypes
