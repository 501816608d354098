import DocTypes.TypeExpr

/-! # Normal type expressions

`anyOf` and `orNil` are said to keep an expression normal.  This module says what normal is and
proves it of the two.

Inside an expression nothing is nilable, and such an expression is `Regular`: a union has two or
more members, all different and none of them a union, a container of the vocabulary has as many
arguments as its arity asks for, and whatever else takes parameters has at least one.  A whole
expression is `Normal` when it is regular, or `nil` is allowed beside a regular one that does not
allow it already.  For what an expression offers as a member of a union it is enough that it is
`Tidy`, no matter what its parts are.

A union keeps the first of equal alternatives (`distinct`).  Everything about unions follows from
three facts: keeping the first ones loses no member and repeats none (`mem_distinct`,
`nodup_distinct`), and it may be done early or late (`foldl_addUnique_map`).
-/
namespace DocTypes

/-- How many arguments a container of an arity has in a type expression. -/
def Arity.size : Arity → Nat
  | .single => 1
  | .keyValue => 2
  | .singleton => 1

namespace TypeExpr

/-- Whether an expression is a union. -/
def isUnion : TypeExpr → Bool
  | union _ => true
  | _ => false

/-- Whether an expression, if it is a union, has several members, all different and none of them a
union. -/
def Tidy (t : TypeExpr) : Prop :=
  ∀ members, t = union members →
    2 ≤ members.length ∧ members.Nodup ∧ ∀ m ∈ members, m.isUnion = false

/-- The expressions that conversions build everywhere below the root. -/
inductive Regular : TypeExpr → Prop where
  | untyped : Regular untyped
  | boolean : Regular boolean
  | selfType : Regular selfType
  | raw (name : Text) : Regular (raw name)
  | error (text : Text) : Regular (error text)
  | union {members : List TypeExpr} (several : 2 ≤ members.length) (different : members.Nodup)
      (flat : ∀ m ∈ members, m.isUnion = false) (regular : ∀ m ∈ members, m.Regular) :
      Regular (union members)
  | container {kind : Container} {arguments : List TypeExpr}
      (complete : arguments.length = kind.arity.size) (regular : ∀ a ∈ arguments, a.Regular) :
      Regular (container kind arguments)
  | generic {name : Text} {arguments : List TypeExpr} (some : arguments ≠ [])
      (regular : ∀ a ∈ arguments, a.Regular) : Regular (generic (.raw name) arguments)
  | tuple {elements : List TypeExpr} (some : elements ≠ [])
      (regular : ∀ e ∈ elements, e.Regular) : Regular (tuple elements)

/-- The normal form of a whole expression. -/
inductive Normal : TypeExpr → Prop where
  | regular {t : TypeExpr} (h : t.Regular) : Normal t
  | nilable {t : TypeExpr} (h : t.Regular) (wanted : t ≠ .untyped) : Normal (nilable t)

/-! ## The first of equal expressions -/

/-- The expressions of a list without repetition, each where it is first seen. -/
def distinct (l : List TypeExpr) : List TypeExpr := l.foldl addUnique []

theorem anyOf_eq (members : List TypeExpr) :
    anyOf members = ofAlternatives (distinct (members.flatMap alternatives)) := rfl

theorem addUnique_of_mem {l : List TypeExpr} {x : TypeExpr} (h : x ∈ l) : addUnique l x = l :=
  if_pos h

theorem addUnique_of_not_mem {l : List TypeExpr} {x : TypeExpr} (h : x ∉ l) :
    addUnique l x = l ++ [x] := if_neg h

theorem mem_addUnique {l : List TypeExpr} {x y : TypeExpr} :
    y ∈ addUnique l x ↔ y ∈ l ∨ y = x := by
  by_cases h : x ∈ l
  · rw [addUnique_of_mem h]
    constructor
    · exact Or.inl
    · rintro (hy | rfl)
      · exact hy
      · exact h
  · rw [addUnique_of_not_mem h, List.mem_append, List.mem_singleton]

theorem mem_foldl_addUnique {l acc : List TypeExpr} {x : TypeExpr} :
    x ∈ l.foldl addUnique acc ↔ x ∈ acc ∨ x ∈ l := by
  induction l generalizing acc with
  | nil => simp
  | cons y l ih => rw [List.foldl_cons, ih, mem_addUnique, List.mem_cons, or_assoc]

@[simp] theorem mem_distinct {l : List TypeExpr} {x : TypeExpr} : x ∈ distinct l ↔ x ∈ l := by
  simp [distinct, mem_foldl_addUnique]

theorem nodup_foldl_addUnique {l acc : List TypeExpr} (h : acc.Nodup) :
    (l.foldl addUnique acc).Nodup := by
  induction l generalizing acc with
  | nil => exact h
  | cons y l ih =>
    refine ih ?_
    by_cases hy : y ∈ acc
    · rwa [addUnique_of_mem hy]
    · rw [addUnique_of_not_mem hy]
      refine List.nodup_append.mpr ⟨h, by simp, ?_⟩
      rintro a ha b hb rfl
      exact hy (List.mem_singleton.mp hb ▸ ha)

theorem nodup_distinct (l : List TypeExpr) : (distinct l).Nodup := nodup_foldl_addUnique (by simp)

theorem foldl_addUnique_of_nodup {l acc : List TypeExpr} (h : (acc ++ l).Nodup) :
    l.foldl addUnique acc = acc ++ l := by
  induction l generalizing acc with
  | nil => simp
  | cons y l ih =>
    have hy : y ∉ acc := fun hmem =>
      (List.nodup_append.mp h).2.2 y hmem y List.mem_cons_self rfl
    rw [List.foldl_cons, addUnique_of_not_mem hy, ih (by simpa using h)]
    simp

/-- A list without repetition stays as it is. -/
theorem distinct_of_nodup {l : List TypeExpr} (h : l.Nodup) : distinct l = l :=
  foldl_addUnique_of_nodup h

theorem distinct_eq_nil {l : List TypeExpr} : distinct l = [] ↔ l = [] := by
  simp only [List.eq_nil_iff_forall_not_mem, mem_distinct]

/-- Repetitions may be dropped before the members are replaced, or only afterwards, and the same
members are seen first. -/
theorem foldl_addUnique_map (f : TypeExpr → TypeExpr) (l acc acc' : List TypeExpr) :
    ((l.foldl addUnique acc').map f).foldl addUnique acc =
      (l.map f).foldl addUnique ((acc'.map f).foldl addUnique acc) := by
  induction l generalizing acc' with
  | nil => rfl
  | cons x l ih =>
    rw [List.foldl_cons, ih, List.map_cons, List.foldl_cons]
    by_cases hx : x ∈ acc'
    · have hf : f x ∈ (acc'.map f).foldl addUnique acc :=
        mem_foldl_addUnique.mpr (Or.inr (List.mem_map_of_mem hx))
      rw [addUnique_of_mem hx, addUnique_of_mem hf]
    · rw [addUnique_of_not_mem hx, List.map_append, List.foldl_append]
      rfl

theorem distinct_map_distinct (f : TypeExpr → TypeExpr) (l : List TypeExpr) :
    distinct ((distinct l).map f) = distinct (l.map f) := foldl_addUnique_map f l [] []

theorem foldl_addUnique_distinct (l acc : List TypeExpr) :
    (distinct l).foldl addUnique acc = l.foldl addUnique acc := by
  simpa [distinct] using foldl_addUnique_map id l acc []

/-- Lists that follow one another may each be freed of repetitions first. -/
theorem distinct_flatMap_distinct (f : TypeExpr → List TypeExpr) (l : List TypeExpr) :
    distinct (l.flatMap fun x => distinct (f x)) = distinct (l.flatMap f) := by
  suffices h : ∀ acc, (l.flatMap fun x => distinct (f x)).foldl addUnique acc =
      (l.flatMap f).foldl addUnique acc from h []
  induction l with
  | nil => exact fun _ => rfl
  | cons x l ih =>
    intro acc
    rw [List.flatMap_cons, List.flatMap_cons, List.foldl_append, List.foldl_append,
      foldl_addUnique_distinct, ih]

/-! ## Alternatives -/

theorem alternatives_of_not_union {t : TypeExpr} (h : t.isUnion = false) :
    t.alternatives = [t] := by
  cases t with
  | union => simp [isUnion] at h
  | _ => rfl

theorem Tidy.of_not_union {t : TypeExpr} (h : t.isUnion = false) : t.Tidy := by
  rintro members rfl
  cases h

theorem Regular.tidy {t : TypeExpr} (h : t.Regular) : t.Tidy := by
  rintro members rfl
  cases h with
  | union several different flat regular => exact ⟨several, different, flat⟩

theorem Tidy.alternatives_ne_nil {t : TypeExpr} (h : t.Tidy) : t.alternatives ≠ [] := by
  cases t with
  | union members =>
    rintro rfl
    exact absurd (h [] rfl).1 (by decide)
  | _ => exact List.cons_ne_nil _ _

/-- What a tidy expression offers is no union. -/
theorem Tidy.isUnion_of_mem {t m : TypeExpr} (h : t.Tidy) (hm : m ∈ t.alternatives) :
    m.isUnion = false := by
  cases t with
  | union members => exact (h members rfl).2.2 m hm
  | _ =>
    obtain rfl := List.mem_singleton.mp hm
    rfl

theorem Regular.of_mem_alternatives {t m : TypeExpr} (h : t.Regular) (hm : m ∈ t.alternatives) :
    m.Regular ∧ m.isUnion = false := by
  cases hu : t.isUnion with
  | false =>
    rw [alternatives_of_not_union hu] at hm
    obtain rfl := List.mem_singleton.mp hm
    exact ⟨h, hu⟩
  | true =>
    cases h with
    | union several different flat regular => exact ⟨regular m hm, flat m hm⟩
    | _ => exact absurd hu (by simp [isUnion])

theorem Tidy.nodup_alternatives {t : TypeExpr} (h : t.Tidy) : t.alternatives.Nodup := by
  cases t with
  | union members => exact (h members rfl).2.1
  | _ => exact List.pairwise_singleton _ _

/-- What several different alternatives make up offers just these. -/
theorem alternatives_ofAlternatives {l : List TypeExpr} (hne : l ≠ [])
    (hflat : ∀ m ∈ l, m.isUnion = false) : (ofAlternatives l).alternatives = l := by
  match l with
  | [] => exact absurd rfl hne
  | [only] => exact alternatives_of_not_union (hflat only List.mem_cons_self)
  | _ :: _ :: _ => rfl

theorem regular_ofAlternatives {l : List TypeExpr} (hnodup : l.Nodup)
    (hflat : ∀ m ∈ l, m.isUnion = false) (hregular : ∀ m ∈ l, m.Regular) :
    (ofAlternatives l).Regular := by
  match l with
  | [] => exact .untyped
  | [only] => exact hregular only List.mem_cons_self
  | _ :: _ :: _ => exact .union (by simp) hnodup hflat hregular

theorem Tidy.ofAlternatives_alternatives {t : TypeExpr} (h : t.Tidy) :
    ofAlternatives t.alternatives = t := by
  cases t with
  | union members =>
    obtain ⟨several, -⟩ := h members rfl
    match members, several with
    | _ :: _ :: _, _ => rfl
  | _ => rfl

theorem flatMap_alternatives {l : List TypeExpr} (hflat : ∀ m ∈ l, m.isUnion = false) :
    l.flatMap alternatives = l := by
  induction l with
  | nil => rfl
  | cons x l ih =>
    rw [List.flatMap_cons, alternatives_of_not_union (hflat x List.mem_cons_self),
      ih fun m hm => hflat m (List.mem_cons_of_mem x hm)]
    rfl

/-! ## What the builders keep -/

/-- The alternatives that make up a union of regular types. -/
theorem regular_of_mem_alternatives {members : List TypeExpr} (h : ∀ m ∈ members, m.Regular) :
    ∀ a ∈ distinct (members.flatMap alternatives), a.Regular ∧ a.isUnion = false := by
  intro a ha
  obtain ⟨m, hm, ham⟩ := List.mem_flatMap.mp (mem_distinct.mp ha)
  exact (h m hm).of_mem_alternatives ham

/-- Any of several regular types is regular. -/
theorem regular_anyOf {members : List TypeExpr} (h : ∀ m ∈ members, m.Regular) :
    (anyOf members).Regular := by
  have halt := regular_of_mem_alternatives h
  exact regular_ofAlternatives (nodup_distinct _) (fun a ha => (halt a ha).2)
    (fun a ha => (halt a ha).1)

/-- One type as the only alternative is that type. -/
theorem Tidy.anyOf_singleton {t : TypeExpr} (h : t.Tidy) : anyOf [t] = t := by
  rw [anyOf_eq, List.flatMap_singleton, distinct_of_nodup h.nodup_alternatives,
    h.ofAlternatives_alternatives]

/-- The members of a regular union make it up again. -/
theorem anyOf_members {members : List TypeExpr} (h : (union members).Regular) :
    anyOf members = union members := by
  cases h with
  | union several different flat regular =>
    rw [anyOf_eq, flatMap_alternatives flat, distinct_of_nodup different]
    match members, several with
    | _ :: _ :: _, _ => rfl

theorem Regular.orNil_eq {t : TypeExpr} (h : t.Regular) (hne : t ≠ .untyped) :
    t.orNil = .nilable t := by
  cases h with
  | untyped => exact absurd rfl hne
  | _ => rfl

/-- Allowing absence of a regular type is normal. -/
theorem normal_orNil {t : TypeExpr} (h : t.Regular) : t.orNil.Normal := by
  by_cases ht : t = .untyped
  · subst ht
    exact .regular .untyped
  · rw [h.orNil_eq ht]
    exact .nilable h ht

end TypeExpr
end DocTypes
