import DocTypes.Proofs.Annotation.Head
import DocTypes.Proofs.Conversion.Reports

/-! # Converting a name

An identifier that is no keyword is converted by looking it up (`convertOne_of_isSimple`).  The
answer is the name as it is, or the path that it was inferred to (`convertName_eq_raw`).

A scope is *settled* if the paths that names are inferred to are themselves inferred to nothing
else (`Scope.Settled`).  In such a scope a name and the path that it is converted to are converted
to the same, and the path needs no inference (`convertOne_settled`): either they are one text, or
the path is longer than a word, so that it can neither be a keyword nor name a container. -/

namespace DocTypes

/-- Whether a text is one of the words that are not names. -/
def Keyword.isKeyword (t : Text) : Bool := isBoolean t || isNil t || isSelf t

/-- Whether names are inferred to paths that stand for themselves. -/
def Scope.Settled (scope : Scope) : Prop :=
  ∀ name path, Name.isSimple name = true → scope.pathFor? name = some path → path ≠ name →
    Name.isSimple path = true ∧ ':' ∈ path ∧ scope.pathFor? path = some path

/-! ## Words of the vocabulary -/

/-- Keywords are single words. -/
theorem Keyword.isKeyword_of_mem {t : Text} {c : Char} (h : c ∈ t)
    (hpart : Name.isWordPart c = false) : isKeyword t = false := by
  have hwords : ∀ word ∈ booleans ++ [nilWord, selfWord], word.all Name.isWordPart = true := by
    decide
  cases hkeyword : isKeyword t with
  | false => rfl
  | true =>
    have hword : t ∈ booleans ++ [nilWord, selfWord] := by
      simp only [isKeyword, isBoolean, isNil, isSelf, Bool.or_eq_true, beq_iff_eq,
        List.contains_iff_mem] at hkeyword
      simp only [List.mem_append, List.mem_cons]
      rcases hkeyword with (hboolean | hnil) | hself
      · exact Or.inl hboolean
      · exact Or.inr (Or.inl hnil)
      · exact Or.inr (Or.inr (Or.inl hself))
    rw [List.all_eq_true.mp (hwords t hword) c h] at hpart
    cases hpart

/-- The names of containers are single words. -/
theorem Container.named?_of_colon_mem {t : Text} (h : ':' ∈ t) : named? t = none := by
  have hwords : ∀ kind ∈ all, ':' ∉ kind.name := by decide
  refine List.find?_eq_none.mpr fun kind hkind heq => ?_
  rw [beq_iff_eq] at heq
  exact hwords kind hkind (heq ▸ h)

namespace Conversion

variable {settings : Settings} {scope : Option Scope} {name path : Text}

theorem bareContainer?_of_colon_mem (h : ':' ∈ name) : bareContainer? name = none := by
  rw [bareContainer?, Container.named?_of_colon_mem h]

/-- What a container without parameters stands for is not a name. -/
theorem bareContainer?_ne_raw : bareContainer? name ≠ some (.raw path) := by
  unfold bareContainer?
  split
  · exact (Option.some_ne_none _).symm
  · split
    all_goals
      intro h
      cases h

/-! ## Identifiers -/

theorem trim_of_isSimple (h : Name.isSimple name = true) : Text.trim name = name := by
  refine Text.trim_of_forall fun c hc => ?_
  exact (plain_of_isPathPart (Name.isPathPart_of_mem h hc)).1

/-- What is no keyword is read by its shape. -/
theorem Reading.of_eq_ofShape (h : Keyword.isKeyword name = false) (inScope : Bool) :
    Reading.of inScope name = Reading.ofShape name (Shape.of name) := by
  simp only [Keyword.isKeyword, Bool.or_eq_false_iff] at h
  obtain ⟨⟨hboolean, hnil⟩, hself⟩ := h
  rw [Reading.of, hboolean, hself, hnil]
  rfl

/-- **An identifier that is no keyword is looked up.** -/
theorem convertOne_of_isSimple (h : Name.isSimple name = true)
    (hkeyword : Keyword.isKeyword name = false) :
    convertOne settings scope name = convertName settings scope name := by
  have hshape : Shape.of name = .identifier name := by rw [Shape.of, if_pos h]
  rw [convertOne, convertText_succ, trim_of_isSimple h, Reading.of_eq_ofShape hkeyword, hshape]
  rfl

/-! ## Looking a name up -/

/-- A name that is found is kept and nothing is inferred, or it is inferred to another path. -/
theorem lookUp_eq_raw {scope : Scope} (h : (lookUp settings scope name).value = .raw path) :
    path = name ∧ (∀ f ∈ (lookUp settings scope name).findings, f.kind ≠ .inference) ∨
      path ≠ name ∧ scope.pathFor? name = some path := by
  unfold lookUp at h ⊢
  by_cases hresolves : scope.resolves name = true
  · rw [if_pos hresolves] at h ⊢
    cases h
    exact Or.inl ⟨rfl, fun f hf => absurd hf List.not_mem_nil⟩
  · rw [if_neg hresolves] at h ⊢
    cases hpath : scope.pathFor? name with
    | some found =>
      rw [hpath] at h
      cases h
      by_cases hsame : path = name
      · subst hsame
        exact Or.inl ⟨rfl, by simp⟩
      · exact Or.inr ⟨hsame, rfl⟩
    | none =>
      rw [hpath] at h
      cases hreplace : settings.replaceUnresolved with
      | true =>
        rw [hreplace] at h
        cases h
      | false =>
        rw [hreplace] at h
        cases h
        exact Or.inl ⟨rfl, by simp [Finding.kind]⟩

theorem convertName_none (h : bareContainer? name = none) :
    convertName settings none name = checkConstant name >>= fun _ => pure (.raw name) := by
  rw [convertName, h]

theorem convertName_some {scope : Scope} (h : bareContainer? name = none) :
    convertName settings (some scope) name =
      checkConstant name >>= fun _ => lookUp settings scope name := by
  rw [convertName, h]

/-- A doubtful name is worth a warning and no more. -/
theorem kind_of_mem_checkConstant {f : Finding} (h : f ∈ (checkConstant name).findings) :
    f.kind = .warning := by
  rw [checkConstant, Traced.findings_reportIf] at h
  split at h
  · obtain rfl := List.mem_singleton.mp h
    rfl
  · cases h

/-- A name that stands for a path is no container, and the path is the name or was inferred. -/
theorem convertName_eq_raw (h : (convertName settings scope name).value = .raw path) :
    bareContainer? name = none ∧
      (path = name ∧ (∀ f ∈ (convertName settings scope name).findings, f.kind ≠ .inference) ∨
        path ≠ name ∧ ∃ s ∈ scope, s.pathFor? name = some path) := by
  have hbare : bareContainer? name = none := by
    cases hbare : bareContainer? name with
    | none => rfl
    | some type =>
      unfold convertName at h
      rw [hbare] at h
      exact absurd (hbare.trans (congrArg some h)) bareContainer?_ne_raw
  have hcheck : ∀ f ∈ (checkConstant name).findings, f.kind ≠ .inference := by
    intro f hf
    rw [kind_of_mem_checkConstant hf]
    decide
  refine ⟨hbare, ?_⟩
  cases scope with
  | none =>
    rw [convertName_none hbare] at h ⊢
    cases h
    exact Or.inl ⟨rfl, by simpa using hcheck⟩
  | some scope =>
    rw [convertName_some hbare] at h ⊢
    rcases lookUp_eq_raw h with ⟨hsame, hnone⟩ | ⟨hother, hpath⟩
    · refine Or.inl ⟨hsame, ?_⟩
      rw [Traced.findings_bind]
      exact List.forall_mem_append.mpr ⟨hcheck, hnone⟩
    · exact Or.inr ⟨hother, scope, rfl, hpath⟩

/-- A path that is inferred to itself is kept. -/
theorem value_convertName_of_pathFor {scope : Scope} (hbare : bareContainer? path = none)
    (h : scope.pathFor? path = some path) :
    (convertName settings (some scope) path).value = .raw path := by
  rw [convertName_some hbare]
  show (lookUp settings scope path).value = .raw path
  unfold lookUp
  split
  · rfl
  · rw [h]
    rfl

/-- **In a settled scope a conversion to a path is final**: the path is converted to itself, and
nothing is inferred any more. -/
theorem convertOne_settled (hscope : ∀ s ∈ scope, s.Settled) (hsimple : Name.isSimple name = true)
    (hkeyword : Keyword.isKeyword name = false)
    (h : (convertOne settings scope name).value = .raw path) :
    (convertOne settings scope path).value = .raw path ∧
      ∀ f ∈ (convertOne settings scope path).findings, f.kind ≠ .inference := by
  rw [convertOne_of_isSimple hsimple hkeyword] at h
  have hagain : Name.isSimple path = true ∧ Keyword.isKeyword path = false ∧
      (convertName settings scope path).value = .raw path := by
    rcases (convertName_eq_raw h).2 with ⟨rfl, -⟩ | ⟨hother, s, hs, hpath⟩
    · exact ⟨hsimple, hkeyword, h⟩
    · obtain rfl : scope = some s := hs
      obtain ⟨hpathSimple, hcolon, hfixed⟩ := hscope s rfl name path hsimple hpath hother
      exact ⟨hpathSimple, Keyword.isKeyword_of_mem hcolon rfl,
        value_convertName_of_pathFor (bareContainer?_of_colon_mem hcolon) hfixed⟩
  obtain ⟨hpathSimple, hpathKeyword, hvalue⟩ := hagain
  rw [convertOne_of_isSimple hpathSimple hpathKeyword]
  refine ⟨hvalue, ?_⟩
  rcases (convertName_eq_raw hvalue).2 with ⟨-, hnone⟩ | ⟨hother, -⟩
  · exact hnone
  · exact absurd rfl hother

end Conversion
end DocTypes
