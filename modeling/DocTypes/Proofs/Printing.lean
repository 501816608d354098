import DocTypes.Proofs.Name
import DocTypes.Proofs.NormalForm

/-! # What a type is printed with

A type holds names (`TypeExpr.names`), and all else that it shows in print comes from the
vocabulary: words, and the punctuation around them (`forall_mem_describe`).  The text of a
placeholder is shown by its word characters only, so that no text that is no type can be seen in
print but through these.

What is built over types, the union over several of them or `nil` beside one, holds no names but
theirs (`NamesAre.anyOf`, `NamesAre.orNil`). -/

namespace DocTypes
namespace TypeExpr

mutual

/-- The names in an expression, in order. -/
def names : TypeExpr → List Text
  | raw name => [name]
  | nilable inner => inner.names
  | union members => namesOfAll members
  | container _ arguments => namesOfAll arguments
  | generic base arguments => base.names ++ namesOfAll arguments
  | tuple elements => namesOfAll elements
  | untyped | boolean | selfType | error _ => []

/-- The names in several expressions, in order. -/
def namesOfAll : List TypeExpr → List Text
  | [] => []
  | x :: xs => x.names ++ namesOfAll xs

end

/-- Every name in an expression has a property. -/
def NamesAre (P : Text → Prop) (t : TypeExpr) : Prop := ∀ name ∈ t.names, P name

variable {P : Text → Prop} {t : TypeExpr} {ts : List TypeExpr} {c : Char}

theorem forall_mem_namesOfAll :
    (∀ name ∈ namesOfAll ts, P name) ↔ ∀ t ∈ ts, t.NamesAre P := by
  induction ts with
  | nil => simp [namesOfAll]
  | cons t ts ih => rw [namesOfAll, List.forall_mem_append, ih, List.forall_mem_cons, NamesAre]

/-! ## Names in what is built -/

theorem NamesAre.raw {name : Text} (h : P name) : (raw name).NamesAre P :=
  fun _ hname => List.mem_singleton.mp hname ▸ h

theorem NamesAre.of_names_eq_nil (h : t.names = []) : t.NamesAre P := by
  intro name hname
  rw [h] at hname
  cases hname

theorem NamesAre.container {kind : Container} (h : ∀ t ∈ ts, t.NamesAre P) :
    (container kind ts).NamesAre P := forall_mem_namesOfAll.mpr h

theorem NamesAre.tuple (h : ∀ t ∈ ts, t.NamesAre P) : (tuple ts).NamesAre P :=
  forall_mem_namesOfAll.mpr h

theorem NamesAre.generic {name : Text} (hname : P name) (h : ∀ t ∈ ts, t.NamesAre P) :
    (generic (.raw name) ts).NamesAre P := by
  intro other hother
  rcases List.mem_append.mp hother with hbase | harguments
  · exact NamesAre.raw hname other hbase
  · exact forall_mem_namesOfAll.mpr h other harguments

theorem NamesAre.of_mem_alternatives {a : TypeExpr} (h : t.NamesAre P) (ha : a ∈ t.alternatives) :
    a.NamesAre P := by
  cases t with
  | union members => exact forall_mem_namesOfAll.mp h a ha
  | _ => exact List.mem_singleton.mp ha ▸ h

theorem NamesAre.ofAlternatives (h : ∀ t ∈ ts, t.NamesAre P) : (ofAlternatives ts).NamesAre P := by
  match ts with
  | [] => exact .of_names_eq_nil rfl
  | [only] => exact h only List.mem_cons_self
  | _ :: _ :: _ => exact forall_mem_namesOfAll.mpr h

/-- A union holds the names of its members. -/
theorem NamesAre.anyOf (h : ∀ t ∈ ts, t.NamesAre P) : (anyOf ts).NamesAre P := by
  rw [anyOf_eq]
  refine .ofAlternatives fun a ha => ?_
  obtain ⟨t, ht, hat⟩ := List.mem_flatMap.mp (mem_distinct.mp ha)
  exact (h t ht).of_mem_alternatives hat

theorem NamesAre.orNil (h : t.NamesAre P) : t.orNil.NamesAre P := by
  cases t <;> exact h

/-! ## Print -/

section Parts
variable {separator : Text} {kind : Container} {base x y : TypeExpr}

theorem describe_container :
    (container kind ts).describe = kind.name ++ "<" ++ describeAll ", " ts ++ ">" := rfl

theorem describe_generic :
    (generic base ts).describe = base.describe ++ "<" ++ describeAll ", " ts ++ ">" := rfl

theorem describe_tuple : (tuple ts).describe = "[" ++ describeAll ", " ts ++ "]" := rfl

theorem describe_nilable_union :
    (nilable (union ts)).describe = "?(" ++ describeAll " | " ts ++ ")" := rfl

theorem describeAll_cons_cons :
    describeAll separator (x :: y :: ts) =
      x.describe ++ separator ++ describeAll separator (y :: ts) := rfl

end Parts

/-- Whether a character is one of those that types are punctuated with. -/
def isPunctuation (c : Char) : Bool := (" <>,|?()[]".toList).contains c

/-- Whether a character comes from the vocabulary or is punctuation. -/
def isPlainPrint (c : Char) : Bool := Name.isWordPart c || isPunctuation c

/-- A placeholder shows nothing but characters of words. -/
theorem isWordPart_of_mem_errorConstant {text : Text} (h : c ∈ errorConstant text) :
    Name.isWordPart c = true := by
  rcases List.mem_append.mp h with hmark | htext
  · have hall : "SORD_ERROR_".toList.all Name.isWordPart = true := rfl
    exact List.all_eq_true.mp hall c hmark
  · exact (List.mem_filter.mp htext).2

theorem isWordPart_of_mem_containerName {kind : Container} (h : c ∈ kind.name) :
    Name.isWordPart c = true := by
  have hall : kind.name.all Name.isWordPart = true := by cases kind <;> rfl
  exact List.all_eq_true.mp hall c h

section Print
variable {p : Char → Bool} (hplain : ∀ c, isPlainPrint c = true → p c = true)
include hplain

/-- Plain text between two parts. -/
theorem forall_mem_of_plain {s : Text} (h : s.all isPlainPrint = true) : ∀ c ∈ s, p c = true :=
  fun c hc => hplain c (List.all_eq_true.mp h c hc)

mutual

/-- **A type in print shows its names, the vocabulary and punctuation.**  What the characters of
these have in common, all its characters have. -/
theorem forall_mem_describe : ∀ t : TypeExpr, (t.NamesAre fun name => ∀ c ∈ name, p c = true) →
    ∀ c ∈ t.describe, p c = true
  | untyped, _ | boolean, _ | selfType, _ => forall_mem_of_plain hplain (by decide)
  | raw name, h => h name List.mem_cons_self
  | error text, _ => fun c hc => hplain c (by
      rw [isPlainPrint, isWordPart_of_mem_errorConstant hc, Bool.true_or])
  | union members, h =>
    forall_mem_describeAll " | " (by decide) members (forall_mem_namesOfAll.mp h)
  | container kind arguments, h => by
    have harguments := forall_mem_describeAll ", " (by decide) arguments
      (forall_mem_namesOfAll.mp h)
    have hname : ∀ c ∈ kind.name, p c = true := fun c hc => hplain c (by
      rw [isPlainPrint, isWordPart_of_mem_containerName hc, Bool.true_or])
    simp only [describe_container, List.forall_mem_append]
    exact ⟨⟨⟨hname, forall_mem_of_plain hplain (by decide)⟩, harguments⟩,
      forall_mem_of_plain hplain (by decide)⟩
  | generic base arguments, h => by
    have hnames := List.forall_mem_append.mp h
    have hbase := forall_mem_describe base hnames.1
    have harguments := forall_mem_describeAll ", " (by decide) arguments
      (forall_mem_namesOfAll.mp hnames.2)
    simp only [describe_generic, List.forall_mem_append]
    exact ⟨⟨⟨hbase, forall_mem_of_plain hplain (by decide)⟩, harguments⟩,
      forall_mem_of_plain hplain (by decide)⟩
  | tuple elements, h => by
    have helements := forall_mem_describeAll ", " (by decide) elements
      (forall_mem_namesOfAll.mp h)
    simp only [describe_tuple, List.forall_mem_append]
    exact ⟨⟨forall_mem_of_plain hplain (by decide), helements⟩,
      forall_mem_of_plain hplain (by decide)⟩
  | nilable inner, h => by
    -- A union is put in parentheses, and anything else is not.
    have hinner := forall_mem_describe inner h
    cases inner with
    | union members =>
      simp only [describe_nilable_union, List.forall_mem_append]
      exact ⟨⟨forall_mem_of_plain hplain (by decide), hinner⟩,
        forall_mem_of_plain hplain (by decide)⟩
    | _ => exact List.forall_mem_cons.mpr ⟨hplain _ (by decide), hinner⟩

theorem forall_mem_describeAll (separator : Text) (hseparator : separator.all isPlainPrint = true) :
    ∀ ts : List TypeExpr, (∀ t ∈ ts, t.NamesAre fun name => ∀ c ∈ name, p c = true) →
      ∀ c ∈ describeAll separator ts, p c = true
  | [], _ => fun c hc => absurd hc List.not_mem_nil
  | [t], h => forall_mem_describe t (h t List.mem_cons_self)
  | x :: y :: ts, h => by
    have hx := forall_mem_describe x (h x List.mem_cons_self)
    have hrest := forall_mem_describeAll separator hseparator (y :: ts)
      fun t ht => h t (List.mem_cons_of_mem _ ht)
    simp only [describeAll_cons_cons, List.forall_mem_append]
    exact ⟨⟨hx, forall_mem_of_plain hplain hseparator⟩, hrest⟩

end

end Print

end TypeExpr
end DocTypes
