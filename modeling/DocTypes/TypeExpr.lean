import DocTypes.Name
import DocTypes.Vocabulary.Container

/-! # Type expressions

What an annotation means: a constant name, a truth value, a container over other types, and so on
(`TypeExpr`).  An expression is a plain value, compared by its shape.

Alternatives and absence are built by two functions that keep an expression normal.  `anyOf` joins
alternatives: it looks through a member that is a union, keeps the first of equal alternatives,
and makes no union of fewer than two.  `orNil` allows absence once: it does not wrap an
expression that allows it already, and `untyped` always does.

`describe` prints an expression, independently of any signature format. -/

namespace DocTypes

/-- A type, as an annotation means it. -/
inductive TypeExpr where
  /-- Anything: unknown or not stated. -/
  | untyped
  /-- A truth value. -/
  | boolean
  /-- The type of the enclosing declaration. -/
  | selfType
  /-- A constant path or the name of a type, kept as it is. -/
  | raw (name : Text)
  /-- The inner type or `nil`. -/
  | nilable (inner : TypeExpr)
  /-- Any of several types, in the order they were first seen. -/
  | union (members : List TypeExpr)
  /-- A container of the vocabulary over element types. -/
  | container (kind : Container) (arguments : List TypeExpr)
  /-- Any other type that takes parameters. -/
  | generic (base : TypeExpr) (arguments : List TypeExpr)
  /-- A sequence with a type for each position. -/
  | tuple (elements : List TypeExpr)
  /-- A placeholder for a text that is no type. -/
  | error (text : Text)

namespace TypeExpr

/-! ## Equality -/

mutual

/-- Whether two expressions have the same shape. -/
def same : TypeExpr → TypeExpr → Bool
  | untyped, untyped => true
  | boolean, boolean => true
  | selfType, selfType => true
  | raw a, raw b => a == b
  | nilable a, nilable b => same a b
  | union as, union bs => sameAll as bs
  | container k as, container l bs => k == l && sameAll as bs
  | generic a as, generic b bs => same a b && sameAll as bs
  | tuple as, tuple bs => sameAll as bs
  | error a, error b => a == b
  | _, _ => false

/-- Whether two lists of expressions have the same shape. -/
def sameAll : List TypeExpr → List TypeExpr → Bool
  | [], [] => true
  | a :: as, b :: bs => same a b && sameAll as bs
  | _, _ => false

end

mutual

theorem eq_of_same : ∀ a b : TypeExpr, same a b = true → a = b
  | untyped, b, h => by cases b <;> simp_all [same]
  | boolean, b, h => by cases b <;> simp_all [same]
  | selfType, b, h => by cases b <;> simp_all [same]
  | raw _, b, h => by cases b <;> simp_all [same]
  | nilable a, b, h => by
    cases b with
    | nilable b => rw [eq_of_same a b (by simpa [same] using h)]
    | _ => simp [same] at h
  | union as, b, h => by
    cases b with
    | union bs => rw [eq_of_sameAll as bs (by simpa [same] using h)]
    | _ => simp [same] at h
  | container k as, b, h => by
    cases b with
    | container l bs =>
      simp only [same, Bool.and_eq_true, beq_iff_eq] at h
      rw [h.1, eq_of_sameAll as bs h.2]
    | _ => simp [same] at h
  | generic a as, b, h => by
    cases b with
    | generic b bs =>
      simp only [same, Bool.and_eq_true] at h
      rw [eq_of_same a b h.1, eq_of_sameAll as bs h.2]
    | _ => simp [same] at h
  | tuple as, b, h => by
    cases b with
    | tuple bs => rw [eq_of_sameAll as bs (by simpa [same] using h)]
    | _ => simp [same] at h
  | error _, b, h => by cases b <;> simp_all [same]

theorem eq_of_sameAll : ∀ as bs : List TypeExpr, sameAll as bs = true → as = bs
  | [], bs, h => by cases bs <;> simp_all [sameAll]
  | a :: as, bs, h => by
    cases bs with
    | nil => simp [sameAll] at h
    | cons b bs =>
      simp only [sameAll, Bool.and_eq_true] at h
      rw [eq_of_same a b h.1, eq_of_sameAll as bs h.2]

end

mutual

theorem same_refl : ∀ a : TypeExpr, same a a = true
  | untyped | boolean | selfType => rfl
  | raw _ | error _ => by simp [same]
  | nilable a => by simp [same, same_refl a]
  | union as | tuple as => by simp [same, sameAll_refl as]
  | container k as => by simp [same, sameAll_refl as]
  | generic a as => by simp [same, same_refl a, sameAll_refl as]

theorem sameAll_refl : ∀ as : List TypeExpr, sameAll as as = true
  | [] => rfl
  | a :: as => by simp [sameAll, same_refl a, sameAll_refl as]

end

/-- Two expressions are equal exactly when they have the same shape. -/
theorem same_iff {a b : TypeExpr} : same a b = true ↔ a = b :=
  ⟨eq_of_same a b, fun h => h ▸ same_refl a⟩

instance : DecidableEq TypeExpr := fun _ _ => decidable_of_iff _ same_iff

/-! ## Alternatives and absence -/

/-- The alternatives that an expression offers as a member of a union. -/
def alternatives : TypeExpr → List TypeExpr
  | union members => members
  | other => [other]

/-- Adds an alternative at the end, unless it is there already. -/
def addUnique (members : List TypeExpr) (new : TypeExpr) : List TypeExpr :=
  if new ∈ members then members else members ++ [new]

/-- The type that alternatives without repetition make up. -/
def ofAlternatives : List TypeExpr → TypeExpr
  | [] => untyped
  | [only] => only
  | members => union members

/-- Any of several types.  Unions among them are looked through, and of equal alternatives the
first counts; no alternative leaves `untyped`, and one leaves itself. -/
def anyOf (members : List TypeExpr) : TypeExpr :=
  ofAlternatives ((members.flatMap alternatives).foldl addUnique [])

/-- The type, or `nil`. -/
def orNil : TypeExpr → TypeExpr
  | untyped => untyped
  | nilable inner => nilable inner
  | other => nilable other

/-! ## Containers -/

/-- A list of any length over one type. -/
def array (element : TypeExpr) : TypeExpr := container .array [element]

/-- A map from keys to values. -/
def hash (key value : TypeExpr) : TypeExpr := container .hash [key, value]

/-- The class object of a type. -/
def classOf (inst : TypeExpr) : TypeExpr := container .classObject [inst]

/-! ## Placeholders -/

/-- Whether the expression is itself a placeholder. -/
def isError : TypeExpr → Bool
  | error _ => true
  | _ => false

mutual

/-- Whether the expression or a part of it is a placeholder. -/
def containsError : TypeExpr → Bool
  | error _ => true
  | nilable inner => inner.containsError
  | union members => anyContainsError members
  | container _ arguments => anyContainsError arguments
  | generic base arguments => base.containsError || anyContainsError arguments
  | tuple elements => anyContainsError elements
  | untyped | boolean | selfType | raw _ => false

/-- Whether some expression of a list holds a placeholder. -/
def anyContainsError : List TypeExpr → Bool
  | [] => false
  | x :: xs => x.containsError || anyContainsError xs

end

/-- The constant that stands for a text that is no type. -/
def errorConstant (text : Text) : Text := "SORD_ERROR_" ++ Name.sanitized text

/-- The constant that a signature shows for a placeholder. -/
def fallbackName? : TypeExpr → Option Text
  | error text => some (errorConstant text)
  | _ => none

/-! ## Printing -/

mutual

/-- An expression in print. -/
def describe : TypeExpr → Text
  | untyped => "untyped"
  | boolean => "bool"
  | selfType => "self"
  | raw name => name
  | nilable (union members) => "?(" ++ describeAll " | " members ++ ")"
  | nilable inner => '?' :: inner.describe
  | union members => describeAll " | " members
  | container kind arguments => kind.name ++ "<" ++ describeAll ", " arguments ++ ">"
  | generic base arguments => base.describe ++ "<" ++ describeAll ", " arguments ++ ">"
  | tuple elements => "[" ++ describeAll ", " elements ++ "]"
  | error text => errorConstant text

/-- Several expressions in print, with a separator between them. -/
def describeAll (separator : Text) : List TypeExpr → Text
  | [] => []
  | [x] => x.describe
  | x :: y :: xs => x.describe ++ separator ++ describeAll separator (y :: xs)

end

end TypeExpr
end DocTypes
