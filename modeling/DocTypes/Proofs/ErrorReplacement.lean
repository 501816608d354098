import DocTypes.Proofs.NormalForm

/-! # Types without placeholders

`withoutErrors` puts `untyped` in the place of every placeholder and builds the expression again
from the inside, so that unions and absence are normal afterwards.  The result holds no placeholder
(`containsError_withoutErrors`), and an expression that held none stays as it is
(`Regular.withoutErrors_eq`).

Replacing placeholders makes alternatives equal that were different, so a union may lose members, or
be none any more.  On regular expressions it makes no difference whether that happens before a union
is built or after (`withoutErrors_anyOf`), and the same holds of absence (`withoutErrors_orNil`).
-/
namespace DocTypes
namespace TypeExpr

mutual

/-- The expression with `untyped` in the place of every placeholder. -/
def withoutErrors : TypeExpr → TypeExpr
  | error _ => untyped
  | nilable inner => inner.withoutErrors.orNil
  | union members => anyOf (allWithoutErrors members)
  | container kind arguments => container kind (allWithoutErrors arguments)
  | generic base arguments => generic base.withoutErrors (allWithoutErrors arguments)
  | tuple elements => tuple (allWithoutErrors elements)
  | untyped => untyped
  | boolean => boolean
  | selfType => selfType
  | raw name => raw name

/-- Several expressions, each without placeholders. -/
def allWithoutErrors : List TypeExpr → List TypeExpr
  | [] => []
  | x :: xs => x.withoutErrors :: allWithoutErrors xs

end

theorem allWithoutErrors_eq (l : List TypeExpr) : allWithoutErrors l = l.map withoutErrors := by
  induction l with
  | nil => rfl
  | cons x l ih => rw [allWithoutErrors, ih, List.map_cons]

/-! ## Placeholders in built expressions -/

theorem anyContainsError_eq (l : List TypeExpr) : anyContainsError l = l.any containsError := by
  induction l with
  | nil => rfl
  | cons x l ih => rw [anyContainsError, ih, List.any_cons]

theorem any_containsError_alternatives (t : TypeExpr) :
    t.alternatives.any containsError = t.containsError := by
  cases t with
  | union members => rw [alternatives, containsError, anyContainsError_eq]
  | _ => exact Bool.or_false _

theorem any_distinct (p : TypeExpr → Bool) (l : List TypeExpr) :
    (distinct l).any p = l.any p := by
  rw [Bool.eq_iff_iff]
  simp only [List.any_eq_true, mem_distinct]

theorem containsError_ofAlternatives (l : List TypeExpr) :
    (ofAlternatives l).containsError = l.any containsError := by
  match l with
  | [] => rfl
  | [only] => exact (Bool.or_false _).symm
  | x :: y :: l => exact anyContainsError_eq (x :: y :: l)

/-- A union loses no placeholder, whatever it drops. -/
theorem containsError_anyOf (members : List TypeExpr) :
    (anyOf members).containsError = members.any containsError := by
  rw [anyOf_eq, containsError_ofAlternatives, any_distinct, List.any_flatMap]
  simp only [any_containsError_alternatives]

theorem containsError_orNil (t : TypeExpr) : t.orNil.containsError = t.containsError := by
  cases t <;> rfl

/-! ## What is left -/

mutual

/-- No placeholder is left. -/
theorem containsError_withoutErrors : ∀ t : TypeExpr, t.withoutErrors.containsError = false
  | error _ | untyped | boolean | selfType | raw _ => rfl
  | nilable inner => by
    rw [withoutErrors, containsError_orNil, containsError_withoutErrors inner]
  | union members => by
    rw [withoutErrors, containsError_anyOf, ← anyContainsError_eq,
      anyContainsError_allWithoutErrors members]
  | container _ arguments => by
    rw [withoutErrors, containsError, anyContainsError_allWithoutErrors arguments]
  | generic base arguments => by
    rw [withoutErrors, containsError, containsError_withoutErrors base,
      anyContainsError_allWithoutErrors arguments, Bool.or_false]
  | tuple elements => by
    rw [withoutErrors, containsError, anyContainsError_allWithoutErrors elements]

theorem anyContainsError_allWithoutErrors :
    ∀ l : List TypeExpr, anyContainsError (allWithoutErrors l) = false
  | [] => rfl
  | x :: l => by
    rw [allWithoutErrors, anyContainsError, containsError_withoutErrors x,
      anyContainsError_allWithoutErrors l, Bool.or_false]

end

theorem map_withoutErrors_eq {l : List TypeExpr} (hfree : anyContainsError l = false)
    (h : ∀ t ∈ l, t.containsError = false → t.withoutErrors = t) : l.map withoutErrors = l := by
  rw [anyContainsError_eq, List.any_eq_false] at hfree
  calc l.map withoutErrors = l.map id :=
        List.map_congr_left fun t ht => h t ht (by simpa using hfree t ht)
    _ = l := List.map_id l

/-- A regular expression without placeholders stays as it is. -/
theorem Regular.withoutErrors_eq {t : TypeExpr} (h : t.Regular)
    (hfree : t.containsError = false) : t.withoutErrors = t := by
  induction h with
  | untyped | boolean | selfType | raw => rfl
  | error => exact absurd hfree (by simp [containsError])
  | union several different flat regular ih =>
    rw [withoutErrors, allWithoutErrors_eq, map_withoutErrors_eq hfree ih]
    exact anyOf_members (.union several different flat regular)
  | container complete regular ih =>
    rw [withoutErrors, allWithoutErrors_eq, map_withoutErrors_eq hfree ih]
  | generic some regular ih =>
    have hfree : anyContainsError _ = false := hfree
    rw [withoutErrors, allWithoutErrors_eq, map_withoutErrors_eq hfree ih]
    rfl
  | tuple some regular ih =>
    rw [withoutErrors, allWithoutErrors_eq, map_withoutErrors_eq hfree ih]

theorem Normal.withoutErrors_eq {t : TypeExpr} (h : t.Normal)
    (hfree : t.containsError = false) : t.withoutErrors = t := by
  cases h with
  | regular h => exact h.withoutErrors_eq hfree
  | nilable h wanted => rw [withoutErrors, h.withoutErrors_eq hfree, h.orNil_eq wanted]

/-- Without its placeholders a regular expression is regular still. -/
theorem regular_withoutErrors {t : TypeExpr} (h : t.Regular) : t.withoutErrors.Regular := by
  induction h with
  | untyped | error => exact .untyped
  | boolean => exact .boolean
  | selfType => exact .selfType
  | raw name => exact .raw name
  | union several different flat regular ih =>
    rw [withoutErrors, allWithoutErrors_eq]
    exact regular_anyOf (List.forall_mem_map.mpr ih)
  | container complete regular ih =>
    rw [withoutErrors, allWithoutErrors_eq]
    exact .container (by rwa [List.length_map]) (List.forall_mem_map.mpr ih)
  | generic some regular ih =>
    rw [withoutErrors, allWithoutErrors_eq]
    exact .generic (by simpa using some) (List.forall_mem_map.mpr ih)
  | tuple some regular ih =>
    rw [withoutErrors, allWithoutErrors_eq]
    exact .tuple (by simpa using some) (List.forall_mem_map.mpr ih)

/-! ## Replacing and building

A union is built from the alternatives of its members, so both sides are compared there: the
alternatives of a member without placeholders are its alternatives without placeholders, each of
them once (`Regular.alternatives_withoutErrors`). -/

theorem Regular.isUnion_withoutErrors {t : TypeExpr} (h : t.Regular) (hu : t.isUnion = false) :
    t.withoutErrors.isUnion = false := by
  cases h with
  | union => exact absurd hu (by simp [isUnion])
  | _ => rfl

theorem isUnion_map_withoutErrors {l : List TypeExpr}
    (h : ∀ m ∈ l, m.Regular ∧ m.isUnion = false) :
    ∀ m ∈ l.map withoutErrors, m.isUnion = false :=
  List.forall_mem_map.mpr fun t ht => (h t ht).1.isUnion_withoutErrors (h t ht).2

theorem withoutErrors_ofAlternatives {l : List TypeExpr}
    (h : ∀ m ∈ l, m.Regular ∧ m.isUnion = false) :
    (ofAlternatives l).withoutErrors = ofAlternatives (distinct (l.map withoutErrors)) := by
  match l with
  | [] => rfl
  | [only] => rfl
  | x :: y :: l =>
    show (union (x :: y :: l)).withoutErrors = _
    rw [withoutErrors, allWithoutErrors_eq, anyOf_eq,
      flatMap_alternatives (isUnion_map_withoutErrors h)]

theorem Regular.alternatives_withoutErrors {t : TypeExpr} (h : t.Regular) :
    t.withoutErrors.alternatives = distinct (t.alternatives.map withoutErrors) := by
  have halt : ∀ m ∈ t.alternatives, m.Regular ∧ m.isUnion = false :=
    fun m hm => h.of_mem_alternatives hm
  have hflat : ∀ m ∈ distinct (t.alternatives.map withoutErrors), m.isUnion = false :=
    fun m hm => isUnion_map_withoutErrors halt m (mem_distinct.mp hm)
  have hne : distinct (t.alternatives.map withoutErrors) ≠ [] := fun hnil =>
    h.tidy.alternatives_ne_nil (List.map_eq_nil_iff.mp (distinct_eq_nil.mp hnil))
  rw [← alternatives_ofAlternatives hne hflat, ← withoutErrors_ofAlternatives halt,
    h.tidy.ofAlternatives_alternatives]

/-- **A union without placeholders is the union of its members without placeholders.** -/
theorem withoutErrors_anyOf {members : List TypeExpr} (h : ∀ m ∈ members, m.Regular) :
    (anyOf members).withoutErrors = anyOf (members.map withoutErrors) := by
  have halt := regular_of_mem_alternatives h
  have hmembers : (members.map withoutErrors).flatMap alternatives =
      members.flatMap fun m => distinct (m.alternatives.map withoutErrors) := by
    rw [List.flatMap_map, List.flatMap_def, List.flatMap_def]
    exact congrArg List.flatten
      (List.map_congr_left fun m hm => (h m hm).alternatives_withoutErrors)
  rw [anyOf_eq, withoutErrors_ofAlternatives halt, distinct_map_distinct, anyOf_eq, hmembers,
    distinct_flatMap_distinct, List.map_flatMap]

theorem withoutErrors_orNil {t : TypeExpr} (h : t.Regular) :
    t.orNil.withoutErrors = t.withoutErrors.orNil := by
  by_cases ht : t = .untyped
  · subst ht
    rfl
  · rw [h.orNil_eq ht, withoutErrors]

end TypeExpr
end DocTypes
