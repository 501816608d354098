import DocTypes.Proofs.Printing

/-! # Parts of a type in print

The *parts* of an expression are the expression itself and the parts of those that it is built over
(`TypeExpr.Part`): the members of a union, the base and the parameters of a generic, and so on.  An
expression holds the names of its parts (`NamesAre.part`), and it is printed with the print of each of
them in one piece (`Part.describe_infix`).

An expression in normal form prints something, if its names are not empty
(`Normal.describe_ne_nil`). -/

namespace DocTypes.TypeExpr

/-- The expressions that an expression is directly built over. -/
def operands : TypeExpr → List TypeExpr
  | nilable inner => [inner]
  | union members => members
  | container _ arguments => arguments
  | generic base arguments => base :: arguments
  | tuple elements => elements
  | untyped | boolean | selfType | raw _ | error _ => []

/-- Whether an expression is another one or a part of one that this is built over. -/
inductive Part (s : TypeExpr) : TypeExpr → Prop where
  | self : Part s s
  | within {t x : TypeExpr} (hx : x ∈ t.operands) (h : Part s x) : Part s t

variable {s t x : TypeExpr} {ts : List TypeExpr} {P : Text → Prop} {separator : Text}

/-! ## Names -/

theorem NamesAre.of_mem_operands (h : t.NamesAre P) (hx : x ∈ t.operands) : x.NamesAre P := by
  cases t with
  | nilable inner => exact List.mem_singleton.mp hx ▸ h
  | union | container | tuple => exact forall_mem_namesOfAll.mp h x hx
  | generic base arguments =>
    obtain ⟨hbase, harguments⟩ := List.forall_mem_append.mp h
    rcases List.mem_cons.mp hx with rfl | hx
    · exact hbase
    · exact forall_mem_namesOfAll.mp harguments x hx
  | untyped | boolean | selfType | raw | error => cases hx

/-- What all names of an expression have, those of its parts have. -/
theorem NamesAre.part (h : t.NamesAre P) (hpart : s.Part t) : s.NamesAre P := by
  induction hpart with
  | self => exact h
  | within hx _ ih => exact ih (h.of_mem_operands hx)

/-! ## Print -/

theorem describe_infix_describeAll (separator : Text) (h : x ∈ ts) :
    x.describe <:+: describeAll separator ts := by
  induction ts with
  | nil => cases h
  | cons y ts ih =>
    cases ts with
    | nil => exact List.mem_singleton.mp h ▸ List.infix_rfl
    | cons z ts =>
      rw [describeAll_cons_cons]
      rcases List.mem_cons.mp h with rfl | h
      · exact ⟨[], separator ++ describeAll separator (z :: ts), by simp⟩
      · exact (ih h).trans (List.suffix_append _ _).isInfix

theorem describe_infix_of_mem_operands (h : x ∈ t.operands) : x.describe <:+: t.describe := by
  cases t with
  | nilable inner =>
    obtain rfl := List.mem_singleton.mp h
    cases x with
    | union members => exact ⟨"?(", ")", rfl⟩
    | _ => exact (List.suffix_cons '?' _).isInfix
  | union members => exact describe_infix_describeAll " | " h
  | container kind arguments =>
    exact (describe_infix_describeAll ", " h).trans ⟨kind.name ++ "<", ">", rfl⟩
  | generic base arguments =>
    rcases List.mem_cons.mp h with rfl | h
    · exact ⟨[], "<" ++ describeAll ", " arguments ++ ">", by simp [describe_generic]⟩
    · exact (describe_infix_describeAll ", " h).trans ⟨base.describe ++ "<", ">", rfl⟩
  | tuple elements => exact (describe_infix_describeAll ", " h).trans ⟨"[", "]", rfl⟩
  | untyped | boolean | selfType | raw | error => cases h

/-- **An expression is printed with the print of each of its parts in one piece.** -/
theorem Part.describe_infix (h : s.Part t) : s.describe <:+: t.describe := by
  induction h with
  | self => exact List.infix_rfl
  | within hx _ ih => exact ih.trans (describe_infix_of_mem_operands hx)

/-! ## Print is not empty -/

theorem Regular.describe_ne_nil (h : t.Regular) (hnames : t.NamesAre (· ≠ [])) :
    t.describe ≠ [] := by
  induction h with
  | untyped | boolean | selfType => exact List.cons_ne_nil _ _
  | raw name => exact hnames name List.mem_cons_self
  | error text => exact List.append_ne_nil_of_left_ne_nil (List.cons_ne_nil _ _) _
  | container | generic | tuple =>
    exact List.append_ne_nil_of_right_ne_nil _ (List.cons_ne_nil _ _)
  | @union members several _ _ _ ih =>
    have hmembers : members ≠ [] :=
      List.ne_nil_of_length_pos (Nat.lt_of_lt_of_le Nat.zero_lt_two several)
    obtain ⟨first, hfirst⟩ := List.exists_mem_of_ne_nil members hmembers
    have hshown : first.describe <:+: (TypeExpr.union members).describe :=
      describe_infix_of_mem_operands hfirst
    intro hnil
    rw [hnil, List.infix_nil] at hshown
    exact ih first hfirst (hnames.of_mem_operands hfirst) hshown

/-- **An expression in normal form prints something**, if its names do. -/
theorem Normal.describe_ne_nil (h : t.Normal) (hnames : t.NamesAre (· ≠ [])) :
    t.describe ≠ [] := by
  cases h with
  | regular h => exact h.describe_ne_nil hnames
  | @nilable inner => cases inner <;> exact List.cons_ne_nil _ _

end DocTypes.TypeExpr
