import DocTypes.Proofs.Text.Sorted
import DocTypes.Proofs.TypeParts

/-! # The algebra of unions

Alternatives are joined at several places of a conversion: in a group, among the parameters of a
list, and among the texts of an annotation.  For the result it does not matter how they were grouped
(`anyOf_splice`), and their order is only seen in the order of the members (`anyOf_perm`).

`anyOf` looks through a member that is a union, but not through the members of that one.  So these
laws hold where no member of a union is itself one, anywhere in the expressions that are joined
(`Flattened`); such is everything in normal form (`Normal.flattened`), and such is what `anyOf`
gives again.

What repetitions amount to is dealt with first.  Dropping all but the first of equal expressions is
`List.eraseDups` (`distinct_eq_eraseDups`), and it does not matter whether what is joined is freed of
repetitions before (`distinct_flatMap_eraseDups`). -/

namespace DocTypes.TypeExpr

variable {t x a : TypeExpr} {l l' members members' front run back : List TypeExpr}

/-! ## Repetitions among what is joined -/

section Repetitions

variable {α : Type} [BEq α] [LawfulBEq α] {f : α → List TypeExpr} {acc : List TypeExpr}

/-- What is there already is not added. -/
theorem foldl_addUnique_of_subset (h : ∀ x ∈ l, x ∈ acc) : l.foldl addUnique acc = acc := by
  induction l with
  | nil => rfl
  | cons x l ih =>
    obtain ⟨hx, hl⟩ := List.forall_mem_cons.mp h
    rw [List.foldl_cons, addUnique_of_mem hx, ih hl]

/-- Where all that `x` stands for is there already, it may be left out. -/
theorem foldl_addUnique_filter {x : α} (h : ∀ m ∈ f x, m ∈ acc) (l : List α) :
    ((l.filter fun y => !y == x).flatMap f).foldl addUnique acc =
      (l.flatMap f).foldl addUnique acc := by
  induction l generalizing acc with
  | nil => rfl
  | cons y l ih =>
    rw [List.flatMap_cons, List.foldl_append]
    by_cases hy : y = x
    · subst hy
      rw [List.filter_cons_of_neg (by simp), ih h, foldl_addUnique_of_subset h]
    · rw [List.filter_cons_of_pos (by simpa using hy), List.flatMap_cons, List.foldl_append]
      exact ih fun m hm => mem_foldl_addUnique.mpr (Or.inl (h m hm))

/-- **A repetition does not change what is joined.** -/
theorem distinct_flatMap_eraseDups (f : α → List TypeExpr) (l : List α) :
    distinct (l.eraseDups.flatMap f) = distinct (l.flatMap f) := by
  suffices h : ∀ acc, (l.eraseDups.flatMap f).foldl addUnique acc = (l.flatMap f).foldl addUnique acc
    from h []
  -- What is left after the first element is a filtered list, so the induction is on the length.
  induction hlength : l.length using Nat.strongRecOn generalizing l with
  | ind n ih =>
    intro acc
    cases l with
    | nil => rfl
    | cons x l =>
      have hshorter : (l.filter fun y => !y == x).length < n := by
        rw [← hlength, List.length_cons]
        exact Nat.lt_succ_of_le (List.length_filter_le _ _)
      rw [List.eraseDups_cons, List.flatMap_cons, List.flatMap_cons, List.foldl_append,
        List.foldl_append, ih _ hshorter _ rfl]
      exact foldl_addUnique_filter (fun m hm => mem_foldl_addUnique.mpr (Or.inr hm)) l

theorem distinct_eq_eraseDups (l : List TypeExpr) : distinct l = l.eraseDups := by
  have hsame : distinct l.eraseDups = distinct l := by
    simpa only [List.flatMap_singleton'] using distinct_flatMap_eraseDups (fun x => [x]) l
  rw [← hsame, distinct_of_nodup (nodup_eraseDups l)]

/-- What is in the middle may be freed of repetitions first. -/
theorem distinct_append_distinct (l₁ l₂ l₃ : List TypeExpr) :
    distinct (l₁ ++ (distinct l₂ ++ l₃)) = distinct (l₁ ++ (l₂ ++ l₃)) := by
  rw [distinct, List.foldl_append, List.foldl_append, foldl_addUnique_distinct, ← List.foldl_append,
    ← List.foldl_append, ← distinct]

end Repetitions

/-! ## Expressions with flat unions only -/

/-- Whether every union in an expression has several members, all different and none of them a
union. -/
def Flattened (t : TypeExpr) : Prop := ∀ s : TypeExpr, s.Part t → s.Tidy

theorem Flattened.tidy (h : t.Flattened) : t.Tidy := h t .self

theorem Flattened.of_mem_operands (h : t.Flattened) (hx : x ∈ t.operands) : x.Flattened :=
  fun s hs => h s (.within hx hs)

theorem flattened_iff : t.Flattened ↔ t.Tidy ∧ ∀ x ∈ t.operands, x.Flattened := by
  constructor
  · exact fun h => ⟨h.tidy, fun _ hx => h.of_mem_operands hx⟩
  · rintro ⟨htidy, hoperands⟩ s (_ | ⟨hx, hs⟩)
    · exact htidy
    · exact hoperands _ hx s hs

theorem Flattened.of_mem_alternatives (h : t.Flattened) (ha : a ∈ t.alternatives) :
    a.Flattened := by
  cases t with
  | union members => exact h.of_mem_operands ha
  | _ => exact List.mem_singleton.mp ha ▸ h

theorem flattened_of_not_union (h : t.isUnion = false) (hoperands : ∀ x ∈ t.operands, x.Flattened) :
    t.Flattened := flattened_iff.mpr ⟨.of_not_union h, hoperands⟩

theorem flattened_union (several : 2 ≤ members.length) (different : members.Nodup)
    (flat : ∀ m ∈ members, m.isUnion = false) (h : ∀ m ∈ members, m.Flattened) :
    (union members).Flattened := by
  refine flattened_iff.mpr ⟨?_, h⟩
  rintro _ heq
  cases heq
  exact ⟨several, different, flat⟩

/-- A name has no parts. -/
theorem flattened_raw (name : Text) : (raw name).Flattened :=
  flattened_of_not_union rfl fun _ hx => absurd hx List.not_mem_nil

theorem Flattened.nilable (h : t.Flattened) : (nilable t).Flattened :=
  flattened_of_not_union rfl (List.forall_mem_singleton.mpr h)

theorem Regular.flattened (h : t.Regular) : t.Flattened := by
  induction h with
  | untyped | boolean | selfType | raw | error =>
    exact flattened_of_not_union rfl fun _ hx => absurd hx List.not_mem_nil
  | container _ _ ih | tuple _ _ ih => exact flattened_of_not_union rfl ih
  | generic _ _ ih =>
    exact flattened_of_not_union rfl (List.forall_mem_cons.mpr ⟨flattened_raw _, ih⟩)
  | union several different flat _ ih => exact flattened_union several different flat ih

/-- Every expression in normal form has flat unions only. -/
theorem Normal.flattened (h : t.Normal) : t.Flattened := by
  cases h with
  | regular h => exact h.flattened
  | nilable h => exact h.flattened.nilable

/-- Several different alternatives make up an expression with flat unions only, if they are such and
no unions. -/
theorem flattened_ofAlternatives (hnodup : l.Nodup) (hflat : ∀ m ∈ l, m.isUnion = false)
    (h : ∀ m ∈ l, m.Flattened) : (ofAlternatives l).Flattened := by
  match l with
  | [] => exact Regular.untyped.flattened
  | [only] => exact h only List.mem_cons_self
  | _ :: _ :: _ => exact flattened_union (by simp) hnodup hflat h

/-! ## What a union offers -/

theorem isUnion_of_mem_flatMap (h : ∀ m ∈ members, m.Tidy) (ha : a ∈ members.flatMap alternatives) :
    a.isUnion = false := by
  obtain ⟨m, hm, ha⟩ := List.mem_flatMap.mp ha
  exact (h m hm).isUnion_of_mem ha

/-- Any of several types offers what they offer, without repetition and in the order in which it is
first seen. -/
theorem alternatives_anyOf (h : ∀ m ∈ members, m.Tidy) (hne : members ≠ []) :
    (anyOf members).alternatives = distinct (members.flatMap alternatives) := by
  have hsome : distinct (members.flatMap alternatives) ≠ [] := by
    obtain ⟨m, rest, rfl⟩ := List.exists_cons_of_ne_nil hne
    intro hnil
    have hm : m.alternatives = [] := (List.append_eq_nil_iff.mp (distinct_eq_nil.mp hnil)).1
    exact (h m List.mem_cons_self).alternatives_ne_nil hm
  rw [anyOf_eq]
  exact alternatives_ofAlternatives hsome fun a ha => isUnion_of_mem_flatMap h (mem_distinct.mp ha)

/-- Any of several types offers what one of them offers. -/
theorem mem_alternatives_anyOf (h : ∀ m ∈ members, m.Tidy) (hne : members ≠ []) :
    a ∈ (anyOf members).alternatives ↔ ∃ m ∈ members, a ∈ m.alternatives := by
  rw [alternatives_anyOf h hne, mem_distinct, List.mem_flatMap]

/-- Any of several types has flat unions only, if they have. -/
theorem flattened_anyOf (h : ∀ m ∈ members, m.Flattened) : (anyOf members).Flattened := by
  refine flattened_ofAlternatives (nodup_distinct _) (fun a ha => ?_) fun a ha => ?_
  · exact isUnion_of_mem_flatMap (fun m hm => (h m hm).tidy) (mem_distinct.mp ha)
  · obtain ⟨m, hm, ha⟩ := List.mem_flatMap.mp (mem_distinct.mp ha)
    exact (h m hm).of_mem_alternatives ha

/-! ## Grouping -/

/-- **Alternatives that follow one another may be joined first.** -/
theorem anyOf_splice (h : ∀ m ∈ run, m.Tidy) (hne : run ≠ []) :
    anyOf (front ++ anyOf run :: back) = anyOf (front ++ run ++ back) := by
  have hleft : (front ++ anyOf run :: back).flatMap alternatives =
      front.flatMap alternatives ++
        (distinct (run.flatMap alternatives) ++ back.flatMap alternatives) := by
    rw [List.flatMap_append, List.flatMap_cons, alternatives_anyOf h hne]
  have hright : (front ++ run ++ back).flatMap alternatives =
      front.flatMap alternatives ++ (run.flatMap alternatives ++ back.flatMap alternatives) := by
    rw [List.flatMap_append, List.flatMap_append, List.append_assoc]
  rw [anyOf_eq (front ++ _ :: back), hleft, distinct_append_distinct, anyOf_eq, hright]

/-! ## Order -/

/-- Alternatives in another order make up the same type, or a union of the same members in another
order. -/
theorem ofAlternatives_perm (h : l.Perm l') :
    ofAlternatives l = ofAlternatives l' ∨
      ∃ ms ms', ms.Perm ms' ∧ ofAlternatives l = union ms ∧ ofAlternatives l' = union ms' := by
  match l, l', h.length_eq with
  | [], [], _ => exact Or.inl rfl
  | [_], [_], _ => exact Or.inl (congrArg ofAlternatives (List.perm_singleton.mp h.symm).symm)
  | _ :: _ :: _, _ :: _ :: _, _ => exact Or.inr ⟨_, _, h, rfl, rfl⟩

/-- Alternatives in another order make up a type that offers them in another order. -/
theorem perm_alternatives_ofAlternatives (h : l.Perm l') :
    (ofAlternatives l).alternatives.Perm (ofAlternatives l').alternatives := by
  rcases ofAlternatives_perm h with heq | ⟨ms, ms', hperm, heq, heq'⟩
  · rw [heq]
  · rwa [heq, heq']

theorem perm_distinct_of_mem_iff (h : ∀ x, x ∈ l ↔ x ∈ l') : (distinct l).Perm (distinct l') := by
  refine (List.perm_ext_iff_of_nodup (nodup_distinct _) (nodup_distinct _)).mpr fun x => ?_
  rw [mem_distinct, mem_distinct, h]

/-- **Types in another order make up the same type**, or a union of the same members in another
order. -/
theorem anyOf_perm (h : members.Perm members') :
    anyOf members = anyOf members' ∨
      ∃ ms ms', ms.Perm ms' ∧ anyOf members = union ms ∧ anyOf members' = union ms' := by
  have hperm : (members.flatMap alternatives).Perm (members'.flatMap alternatives) :=
    h.flatMap_right alternatives
  exact ofAlternatives_perm (perm_distinct_of_mem_iff fun _ => hperm.mem_iff)

/-! ## Absence -/

/-- Absence is allowed once. -/
theorem orNil_orNil (t : TypeExpr) : t.orNil.orNil = t.orNil := by cases t <;> rfl

/-! ## The laws together -/

/-- **The laws of unions.**  Let unions be flat in all that is joined.  Then they are in the result,
which offers what is offered to it, each once and in the order in which it is first seen; no
alternatives leave `untyped`.  Some that follow one another may be replaced by what they make up
together, and another order of all changes at most the order of the members.  One alternative is
itself, and allowing absence twice is allowing it once. -/
theorem anyOf_laws (members : List TypeExpr) (h : ∀ m ∈ members, m.Flattened) :
    (anyOf members).Flattened ∧
      (members = [] → anyOf members = .untyped) ∧
      (members ≠ [] →
        (anyOf members).alternatives = (members.flatMap alternatives).eraseDups) ∧
      (∀ front run back, members = front ++ run ++ back → run ≠ [] →
        anyOf (front ++ anyOf run :: back) = anyOf members) ∧
      (∀ members', members.Perm members' →
        anyOf members = anyOf members' ∨
          ∃ ms ms', ms.Perm ms' ∧ anyOf members = union ms ∧ anyOf members' = union ms') ∧
      ∀ t : TypeExpr, t.Flattened → anyOf [t] = t ∧ t.orNil.orNil = t.orNil := by
  have htidy : ∀ m ∈ members, m.Tidy := fun m hm => (h m hm).tidy
  refine ⟨flattened_anyOf h, ?_, ?_, ?_, fun _ => anyOf_perm, ?_⟩
  · rintro rfl
    rfl
  · intro hne
    rw [alternatives_anyOf htidy hne, distinct_eq_eraseDups]
  · rintro front run back rfl hne
    refine anyOf_splice (fun m hm => htidy m ?_) hne
    exact List.mem_append_left _ (List.mem_append_right _ hm)
  · exact fun t ht => ⟨ht.tidy.anyOf_singleton, orNil_orNil t⟩

/-- A union, a tuple with one in it, and two names, of which one is in the union, too. -/
theorem anyOf_laws_sample :
    let a := raw "A"
    let b := raw "B"
    let c := raw "C"
    let pair := tuple [union [a, nilable b], c]
    let members := [union [a, b], pair, a, c]
    (∀ m ∈ members, m.Flattened) ∧
      (anyOf members).alternatives = [a, b, pair, c] ∧
      anyOf [union [a, b], anyOf [pair, a], c] = anyOf members ∧
      anyOf [c, a, pair, union [a, b]] = union [c, a, pair, b] ∧
      ∃ ms ms', ms.Perm ms' ∧ anyOf members = union ms ∧
        anyOf [c, a, pair, union [a, b]] = union ms' := by
  intro a b c pair members
  have ha : a.Flattened := flattened_raw _
  have hb : b.Flattened := flattened_raw _
  have hc : c.Flattened := flattened_raw _
  have hunion : (union [a, b]).Flattened :=
    flattened_union (by decide) (by decide) (by decide) (by simp [ha, hb])
  have hinner : (union [a, nilable b]).Flattened :=
    flattened_union (by decide) (by decide) (by decide) (by simp [ha, hb.nilable])
  have hpair : pair.Flattened := flattened_of_not_union rfl (by simp [pair, operands, hinner, hc])
  have hmembers : ∀ m ∈ members, m.Flattened := by simp [members, hunion, hpair, ha, hc]
  obtain ⟨-, -, halternatives, hsplice, hperm, -⟩ := anyOf_laws members hmembers
  refine ⟨hmembers, halternatives (List.cons_ne_nil _ _),
    hsplice [union [a, b]] [pair, a] [c] rfl (List.cons_ne_nil _ _), by decide, ?_⟩
  rcases hperm [c, a, pair, union [a, b]] (by decide) with heq | hsame
  · exact absurd heq (by decide)
  · exact hsame

end DocTypes.TypeExpr
