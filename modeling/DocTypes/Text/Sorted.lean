/-! # Sorted lists without repetition

`sortUnique` puts the members of a list into strictly increasing order, each of them once.  Texts
are ordered by code point, the names of files by their bytes, and lists of names one by one, so the
same function orders names and the paths of files. -/

namespace DocTypes

variable {α : Type} [LT α] [DecidableLT α] [DecidableEq α]

/-- Adds a member to a strictly increasing list. -/
def insertSorted (x : α) : List α → List α
  | [] => [x]
  | y :: ys => if x = y then y :: ys else if x < y then x :: y :: ys else y :: insertSorted x ys

/-- The members of a list in strictly increasing order, each of them once. -/
def sortUnique (xs : List α) : List α := xs.foldr insertSorted []

@[simp] theorem mem_insertSorted {x y : α} {xs : List α} :
    y ∈ insertSorted x xs ↔ y = x ∨ y ∈ xs := by
  induction xs with
  | nil => simp [insertSorted]
  | cons z zs ih =>
    rw [insertSorted]
    split
    · next h => simp [h]
    · split
      · simp
      · simp only [List.mem_cons, ih]
        exact or_left_comm

/-- Sorting neither adds nor loses a member. -/
@[simp] theorem mem_sortUnique {y : α} {xs : List α} : y ∈ sortUnique xs ↔ y ∈ xs := by
  induction xs with
  | nil => rfl
  | cons x xs ih =>
    rw [sortUnique, List.foldr_cons, mem_insertSorted, List.mem_cons]
    exact or_congr_right ih

end DocTypes
