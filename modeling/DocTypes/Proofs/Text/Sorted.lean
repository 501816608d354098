import DocTypes.Text.Sorted
import Mathlib.Data.List.Sort

/-! # What sorting gives

Inserting a member into a strictly increasing list leaves the list strictly increasing, so
`sortUnique` gives a list in which every member stands once (`nodup_sortUnique`), and there is only
one such list for given members (`sortUnique_eq_of_mem_iff`).

Where the order is to be kept, repetitions are dropped by `List.eraseDups`.  That each member then
stands once, and that nothing is dropped if it did before, is stated at the end. -/

namespace DocTypes

variable {α : Type} [LT α] [DecidableLT α] [DecidableEq α]
  [Trans (fun x y : α => x < y) (fun x y : α => x < y) (fun x y : α => x < y)]
  [Std.Trichotomous fun x y : α => x < y] {x : α} {xs : List α}

theorem pairwise_insertSorted (h : xs.Pairwise (· < ·)) :
    (insertSorted x xs).Pairwise (· < ·) := by
  induction xs with
  | nil => exact List.pairwise_singleton _ x
  | cons y ys ih =>
    obtain ⟨hy, hys⟩ := List.pairwise_cons.mp h
    rw [insertSorted]
    split
    · exact h
    split
    · next hlt =>
      refine List.pairwise_cons.mpr ⟨?_, h⟩
      intro z hz
      rcases List.mem_cons.mp hz with rfl | hz
      · exact hlt
      · exact Std.lt_trans hlt (hy z hz)
    · next hne hlt =>
      refine List.pairwise_cons.mpr ⟨?_, ih hys⟩
      intro z hz
      rcases mem_insertSorted.mp hz with rfl | hz
      · rcases Std.lt_trichotomy y z with hyz | heq | hzy
        · exact hyz
        · exact absurd heq.symm hne
        · exact absurd hzy hlt
      · exact hy z hz

/-- **A sorted list is strictly increasing.** -/
theorem pairwise_sortUnique (xs : List α) : (sortUnique xs).Pairwise (· < ·) := by
  induction xs with
  | nil => exact List.Pairwise.nil
  | cons x xs ih => exact pairwise_insertSorted ih

theorem nodup_sortUnique [Std.Irrefl fun x y : α => x < y] (xs : List α) :
    (sortUnique xs).Nodup := by
  refine (pairwise_sortUnique xs).imp ?_
  rintro x y hlt rfl
  exact Std.lt_irrefl hlt

/-- **Sorting gives the same list for all lists of the same members.** -/
theorem sortUnique_eq_of_mem_iff [Std.Irrefl fun x y : α => x < y] {ys : List α}
    (h : ∀ x, x ∈ xs ↔ x ∈ ys) : sortUnique xs = sortUnique ys := by
  have hantisymm : Std.Antisymm fun x y : α => x < y :=
    ⟨fun _ _ hxy hyx => absurd (Std.lt_trans hxy hyx) Std.lt_irrefl⟩
  refine (pairwise_sortUnique xs).eq_of_mem_iff (pairwise_sortUnique ys) fun x => ?_
  rw [mem_sortUnique, mem_sortUnique, h]

/-! ## Dropping repetitions -/

section Repetitions

variable {β : Type} [BEq β] [LawfulBEq β]

theorem nodup_eraseDups (l : List β) : l.eraseDups.Nodup := by
  induction hlength : l.length using Nat.strongRecOn generalizing l with
  | ind n ih =>
    cases l with
    | nil => exact List.nodup_nil
    | cons x l =>
      have hshorter : (l.filter fun y => !y == x).length < n := by
        rw [← hlength, List.length_cons]
        exact Nat.lt_succ_of_le (List.length_filter_le _ _)
      rw [List.eraseDups_cons]
      refine List.nodup_cons.mpr ⟨?_, ih _ hshorter _ rfl⟩
      simp

theorem eraseDups_of_nodup {l : List β} (h : l.Nodup) : l.eraseDups = l := by
  induction l with
  | nil => rfl
  | cons x l ih =>
    obtain ⟨hx, hl⟩ := List.nodup_cons.mp h
    have hkept : l.filter (fun y => !y == x) = l := by
      refine List.filter_eq_self.mpr fun y hy => ?_
      have hne : y ≠ x := fun heq => hx (heq ▸ hy)
      simp [hne]
    rw [List.eraseDups_cons, hkept, ih hl]

end Repetitions

end DocTypes
