import DocTypes.Proofs.Printing

/-! # Types that print alike

Print is not meant to be read back, but it could be: two plain expressions that print alike are equal
(`describe_injective`).  An expression is `Plain` when nothing in it is printed as if it were
something else.  A placeholder is printed like a name, and so are `untyped` and other words if there
is a name that reads like them; a name that takes parameters may be that of a container.

No marks close a union, and commas separate parameters, so how far a print goes has to be told from
what follows it.  Two kinds of rests matter.  A rest ends one alternative (`EndsOne`) when it
continues no name and opens no parameters, and it ends them all (`EndsAll`) when moreover it does not
begin like the mark between alternatives.  Of one alternative, print in front of a rest of the first
kind tells both the expression and the rest (`Readable`), and of a whole expression it does so in
front of one of the second kind (`Plain.told`).  Each is proved with the other for the parts
of an expression, and lists of either sort are dealt with once (`eq_of_describeAll`). -/

namespace DocTypes

/-- An identifier is told from what follows it, if that does not continue it. -/
theorem Name.eq_of_append {name name' rest rest' : Text} (hname : isSimple name = true)
    (hname' : isSimple name' = true) (hrest : ∀ c ∈ rest.head?, isPathPart c = false)
    (hrest' : ∀ c ∈ rest'.head?, isPathPart c = false) (h : name ++ rest = name' ++ rest') :
    name = name' ∧ rest = rest' := by
  have hlength : name.length = name'.length := by
    rw [← pathLength_append hname hrest, h, pathLength_append hname' hrest']
  exact List.append_inj h hlength

theorem Name.exists_cons_of_isSimple {name : Text} (h : isSimple name = true) :
    ∃ c cs, name = c :: cs ∧ isPathPart c = true := by
  cases name with
  | nil => cases h
  | cons c cs => exact ⟨c, cs, rfl, isPathPart_of_mem h List.mem_cons_self⟩

namespace TypeExpr

/-! ## Plain expressions -/

/-- The words that expressions without a name have in print. -/
def printedWords : List Text := ["untyped", "bool", "self"]

/-- An expression without placeholders whose names are identifiers and no words that stand for
anything else, and in which `nil` and alternatives are allowed once at a place. -/
inductive Plain : TypeExpr → Prop where
  | untyped : Plain untyped
  | boolean : Plain boolean
  | selfType : Plain selfType
  | raw {name : Text} (simple : Name.isSimple name = true) (free : name ∉ printedWords) :
      Plain (raw name)
  | nilable {inner : TypeExpr} (plain : inner.Plain) (wanted : inner ≠ .untyped)
      (once : ∀ t, inner ≠ .nilable t) : Plain (nilable inner)
  | union {members : List TypeExpr} (several : 2 ≤ members.length)
      (flat : ∀ m ∈ members, m.isUnion = false) (plain : ∀ m ∈ members, m.Plain) :
      Plain (union members)
  | tuple {elements : List TypeExpr} (plain : ∀ e ∈ elements, e.Plain) : Plain (tuple elements)
  | container {kind : Container} {arguments : List TypeExpr} (plain : ∀ a ∈ arguments, a.Plain) :
      Plain (container kind arguments)
  | generic {name : Text} {arguments : List TypeExpr} (simple : Name.isSimple name = true)
      (free : Container.named? name = none) (some : arguments ≠ [])
      (plain : ∀ a ∈ arguments, a.Plain) : Plain (generic (.raw name) arguments)

/-- A plain expression that is no union. -/
def PlainOne (t : TypeExpr) : Prop := t.Plain ∧ t.isUnion = false

variable {s t x y inner : TypeExpr} {xs ys : List TypeExpr} {rest rest' separator name : Text}
variable {arguments? : Option (List TypeExpr)}

theorem Plain.alternatives_ne_nil (h : t.Plain) : t.alternatives ≠ [] := by
  cases h with
  | union several => exact List.ne_nil_of_length_pos (Nat.lt_of_lt_of_le Nat.zero_lt_two several)
  | _ => exact List.cons_ne_nil _ _

theorem Plain.of_mem_alternatives (h : t.Plain) (hx : x ∈ t.alternatives) : x.PlainOne := by
  cases h with
  | union several flat plain => exact ⟨plain x hx, flat x hx⟩
  | untyped => exact List.mem_singleton.mp hx ▸ ⟨.untyped, rfl⟩
  | boolean => exact List.mem_singleton.mp hx ▸ ⟨.boolean, rfl⟩
  | selfType => exact List.mem_singleton.mp hx ▸ ⟨.selfType, rfl⟩
  | raw simple free => exact List.mem_singleton.mp hx ▸ ⟨.raw simple free, rfl⟩
  | nilable plain wanted once => exact List.mem_singleton.mp hx ▸ ⟨.nilable plain wanted once, rfl⟩
  | tuple plain => exact List.mem_singleton.mp hx ▸ ⟨.tuple plain, rfl⟩
  | container plain => exact List.mem_singleton.mp hx ▸ ⟨.container plain, rfl⟩
  | generic simple free some plain =>
    exact List.mem_singleton.mp hx ▸ ⟨.generic simple free some plain, rfl⟩

/-- A plain expression is what its alternatives make up. -/
theorem Plain.ofAlternatives_alternatives (h : t.Plain) : ofAlternatives t.alternatives = t := by
  cases h with
  | @union members several =>
    match members, several with
    | _ :: _ :: _, _ => rfl
  | _ => rfl

/-- An expression prints as its alternatives do. -/
theorem describeAll_alternatives (t : TypeExpr) : describeAll " | " t.alternatives = t.describe := by
  cases t <;> rfl

/-! ## Names and brackets -/

/-- The name that an expression begins with in print, and the types in brackets after it if there
are brackets. -/
def named? : TypeExpr → Option (Text × Option (List TypeExpr))
  | untyped => some ("untyped", none)
  | boolean => some ("bool", none)
  | selfType => some ("self", none)
  | raw name => some (name, none)
  | container kind arguments => some (kind.name, some arguments)
  | generic (raw name) arguments => some (name, some arguments)
  | _ => none

/-- Parameters in print. -/
def brackets : Option (List TypeExpr) → Text
  | none => []
  | some arguments => '<' :: (describeAll ", " arguments ++ ">")

theorem describe_of_named (h : t.named? = some (name, arguments?)) :
    t.describe = name ++ brackets arguments? := by
  have hparameters : ∀ (front : Text) (arguments : List TypeExpr),
      front ++ "<" ++ describeAll ", " arguments ++ ">" = front ++ brackets (some arguments) := by
    intro front arguments
    simp [brackets]
  cases t with
  | untyped | boolean | selfType =>
    cases h
    rfl
  | raw name =>
    cases h
    exact (List.append_nil _).symm
  | container kind arguments =>
    cases h
    exact hparameters kind.name arguments
  | generic base arguments =>
    cases base with
    | raw name =>
      cases h
      exact hparameters name arguments
    | _ => cases h
  | nilable | union | tuple | error => cases h

theorem Plain.isSimple_of_named (h : t.Plain) (hnamed : t.named? = some (name, arguments?)) :
    Name.isSimple name = true := by
  cases h with
  | untyped | boolean | selfType =>
    cases hnamed
    rfl
  | raw simple =>
    cases hnamed
    exact simple
  | @container kind =>
    cases hnamed
    cases kind <;> rfl
  | generic simple =>
    cases hnamed
    exact simple
  | nilable | union | tuple => cases hnamed

/-- The plain expression that has a name and parameters in print. -/
def ofNamed (name : Text) : Option (List TypeExpr) → TypeExpr
  | none =>
    if name = "untyped" then untyped
    else if name = "bool" then boolean
    else if name = "self" then selfType
    else raw name
  | some arguments =>
    match Container.named? name with
    | some kind => container kind arguments
    | none => generic (raw name) arguments

theorem Plain.ofNamed_eq (h : t.Plain) (hnamed : t.named? = some (name, arguments?)) :
    ofNamed name arguments? = t := by
  cases h with
  | untyped | boolean | selfType =>
    cases hnamed
    rfl
  | raw simple free =>
    cases hnamed
    simp only [printedWords, List.mem_cons, List.not_mem_nil, or_false, not_or] at free
    rw [ofNamed, if_neg free.1, if_neg free.2.1, if_neg free.2.2]
  | @container kind =>
    cases hnamed
    cases kind <;> rfl
  | generic simple free =>
    cases hnamed
    rw [ofNamed, free]
  | nilable | union | tuple => cases hnamed

/-- A plain expression that is no union begins with a name in print, or it is `nil` beside another
or a sequence. -/
theorem PlainOne.form (h : t.PlainOne) :
    (∃ name arguments?, t.named? = some (name, arguments?)) ∨
      (∃ inner, t = nilable inner ∧ inner.Plain) ∨
        ∃ elements, t = tuple elements ∧ ∀ e ∈ elements, e.Plain := by
  obtain ⟨hplain, hflat⟩ := h
  cases hplain with
  | nilable plain => exact Or.inr (Or.inl ⟨_, rfl, plain⟩)
  | tuple plain => exact Or.inr (Or.inr ⟨_, rfl, plain⟩)
  | union => cases hflat
  | _ => exact Or.inl ⟨_, _, rfl⟩

/-- The types in the brackets of a plain expression are plain. -/
theorem Plain.of_mem_arguments {arguments : List TypeExpr} (h : t.Plain)
    (hnamed : t.named? = some (name, some arguments)) : ∀ a ∈ arguments, a.Plain := by
  cases h with
  | container plain =>
    cases hnamed
    exact plain
  | generic _ _ _ plain =>
    cases hnamed
    exact plain
  | _ => cases hnamed

/-! ## Where a print ends -/

/-- Whether a rest that follows an alternative neither continues its name nor opens parameters. -/
def EndsOne (rest : Text) : Prop := ∀ c ∈ rest.head?, Name.isPathPart c = false ∧ c ≠ '<'

/-- Whether a rest that follows an expression does not add an alternative, either. -/
def EndsAll (rest : Text) : Prop := EndsOne rest ∧ ∀ c ∈ rest.head?, c ≠ ' '

/-- Whether a character may be the first of a print. -/
def beginsPrint (c : Char) : Bool := Name.isPathPart c || c == '?' || c == '['

/-- Whether an expression is told by its print from each of some others, if rests of some sort
follow. -/
def Told (ends : Text → Prop) (others : TypeExpr → Prop) (x : TypeExpr) : Prop :=
  ∀ y rest rest', others y → ends rest → ends rest' →
    x.describe ++ rest = y.describe ++ rest' → x = y ∧ rest = rest'

theorem EndsOne.isPathPart (h : EndsOne rest) : ∀ c ∈ rest.head?, Name.isPathPart c = false :=
  fun c hc => (h c hc).1

theorem endsOne_cons {c : Char} (hpath : Name.isPathPart c = false) (hangle : c ≠ '<')
    (rest : Text) : EndsOne (c :: rest) := by
  intro d hd
  cases hd
  exact ⟨hpath, hangle⟩

theorem endsAll_cons {c : Char} (hpath : Name.isPathPart c = false) (hangle : c ≠ '<')
    (hspace : c ≠ ' ') (rest : Text) : EndsAll (c :: rest) := by
  refine ⟨endsOne_cons hpath hangle rest, fun d hd => ?_⟩
  cases hd
  exact hspace

theorem endsAll_nil : EndsAll [] := ⟨fun _ hc => (by cases hc), fun _ hc => (by cases hc)⟩

/-- The first of several expressions in print, and what follows it. -/
theorem describeAll_cons_append (separator : Text) (x : TypeExpr) (xs : List TypeExpr)
    (rest : Text) :
    describeAll separator (x :: xs) ++ rest =
      x.describe ++ if xs = [] then rest else separator ++ (describeAll separator xs ++ rest) := by
  cases xs with
  | nil => rfl
  | cons y xs => simp [describeAll_cons_cons]

/-- **Expressions in a list are told one by one**, if a separator and the end of the list both end
an expression, and the end of the list does not begin like a separator. -/
theorem eq_of_describeAll {ends : Text → Prop} {others : TypeExpr → Prop}
    (hseparator : ∀ t, ends (separator ++ t)) (hxs : ∀ x ∈ xs, Told ends others x)
    (hys : ∀ y ∈ ys, others y) (hx : xs ≠ []) (hy : ys ≠ []) (hrest : ends rest)
    (hrest' : ends rest') (hlast : ∀ t, rest ≠ separator ++ t) (hlast' : ∀ t, rest' ≠ separator ++ t)
    (h : describeAll separator xs ++ rest = describeAll separator ys ++ rest') :
    xs = ys ∧ rest = rest' := by
  induction xs generalizing ys with
  | nil => exact absurd rfl hx
  | cons x xs ih =>
    cases ys with
    | nil => exact absurd rfl hy
    | cons y ys =>
      obtain ⟨htold, hxrest⟩ := List.forall_mem_cons.mp hxs
      obtain ⟨hother, hyrest⟩ := List.forall_mem_cons.mp hys
      rw [describeAll_cons_append, describeAll_cons_append] at h
      have hends : ∀ (zs : List TypeExpr) {t : Text}, ends t →
          ends (if zs = [] then t else separator ++ (describeAll separator zs ++ t)) := by
        intro zs t ht
        split
        · exact ht
        · exact hseparator _
      obtain ⟨rfl, hbehind⟩ := htold y _ _ hother (hends xs hrest) (hends ys hrest') h
      -- Both lists end here, or a separator follows in both.
      split at hbehind
      · next hnil =>
        split at hbehind
        · next hnil' => exact ⟨by rw [hnil, hnil'], hbehind⟩
        · exact absurd hbehind (hlast _)
      · next hmore =>
        split at hbehind
        · exact absurd hbehind.symm (hlast' _)
        · next hmore' =>
          obtain ⟨rfl, hsame⟩ := ih hxrest hyrest hmore hmore' (List.append_cancel_left hbehind)
          exact ⟨rfl, hsame⟩

/-! ## Expressions are told from what they print -/

/-- Whether each alternative of an expression is told from all others. -/
def Readable (t : TypeExpr) : Prop := ∀ x ∈ t.alternatives, Told EndsOne PlainOne x

/-- A plain expression prints something, and not like the end of a list. -/
theorem Plain.exists_describe_eq_cons (h : t.Plain) :
    ∃ c cs, t.describe = c :: cs ∧ beginsPrint c = true := by
  have hone : ∀ {x : TypeExpr}, x.PlainOne → ∃ c cs, x.describe = c :: cs ∧ beginsPrint c = true := by
    intro x hx
    rcases hx.form with ⟨name, arguments?, hnamed⟩ | ⟨inner, rfl, -⟩ | ⟨elements, rfl, -⟩
    · obtain ⟨c, cs, hname, hc⟩ := Name.exists_cons_of_isSimple (hx.1.isSimple_of_named hnamed)
      refine ⟨c, cs ++ brackets arguments?, ?_, by rw [beginsPrint, hc]; rfl⟩
      rw [describe_of_named hnamed, hname]
      rfl
    · cases inner <;> exact ⟨'?', _, rfl, rfl⟩
    · exact ⟨'[', _, rfl, rfl⟩
  obtain ⟨x, xs, hx⟩ := List.exists_cons_of_ne_nil h.alternatives_ne_nil
  obtain ⟨c, cs, hprint, hc⟩ := hone (h.of_mem_alternatives (hx ▸ List.mem_cons_self))
  have hcons := describeAll_cons_append " | " x xs []
  rw [List.append_nil, ← hx, describeAll_alternatives, hprint] at hcons
  exact ⟨c, _, hcons, hc⟩

/-- **A plain expression is told from what it prints**, if no alternative follows. -/
theorem Plain.told (h : t.Plain) (hreadable : t.Readable) : Told EndsAll Plain t := by
  intro s rest rest' hs hrest hrest' heq
  rw [← describeAll_alternatives t, ← describeAll_alternatives s] at heq
  have hbar : ∀ u, EndsOne (" | " ++ u) := endsOne_cons rfl (by decide)
  have hlast : ∀ {u : Text}, EndsAll u → ∀ v : Text, u ≠ " | " ++ v := by
    rintro u ⟨-, hu⟩ v rfl
    exact hu ' ' rfl rfl
  obtain ⟨hsame, hrest⟩ := eq_of_describeAll hbar hreadable (fun _ => hs.of_mem_alternatives)
    h.alternatives_ne_nil hs.alternatives_ne_nil hrest.1 hrest'.1 (hlast hrest) (hlast hrest') heq
  exact ⟨by rw [← h.ofAlternatives_alternatives, hsame, hs.ofAlternatives_alternatives], hrest⟩

/-- **The elements of a list in brackets are told from what they print**, down to the bracket that
closes the list. -/
theorem eq_of_elements {close : Char} (hclose : close = '>' ∨ close = ']')
    (hxs : ∀ x ∈ xs, x.Plain ∧ x.Readable) (hys : ∀ y ∈ ys, y.Plain)
    (h : describeAll ", " xs ++ close :: rest = describeAll ", " ys ++ close :: rest') :
    xs = ys ∧ rest = rest' := by
  have hbegins : ∀ {zs : List TypeExpr} {t t' : Text}, (∀ z ∈ zs, z.Plain) → zs ≠ [] →
      close :: t ≠ describeAll ", " zs ++ t' := by
    intro zs t t' hzs hne heq
    obtain ⟨z, zs, rfl⟩ := List.exists_cons_of_ne_nil hne
    obtain ⟨c, cs, hprint, hc⟩ := (hzs z List.mem_cons_self).exists_describe_eq_cons
    rw [describeAll_cons_append, hprint] at heq
    obtain ⟨rfl, -⟩ := List.cons.inj heq
    rcases hclose with rfl | rfl <;> cases hc
  have hcomma : ∀ u, EndsAll (", " ++ u) := endsAll_cons rfl (by decide) (by decide)
  have hends : ∀ u, EndsAll (close :: u) := by
    rcases hclose with rfl | rfl <;> exact endsAll_cons rfl (by decide) (by decide)
  have hlast : ∀ u v, close :: u ≠ ", ".toList ++ v := by
    intro u v heq
    obtain ⟨rfl, -⟩ := List.cons.inj heq
    rcases hclose with heq | heq <;> cases heq
  by_cases hx : xs = []
  · by_cases hy : ys = []
    · subst hx hy
      exact ⟨rfl, List.tail_eq_of_cons_eq h⟩
    · subst hx
      exact absurd h (hbegins hys hy)
  · by_cases hy : ys = []
    · subst hy
      exact absurd h.symm (hbegins (fun x hmem => (hxs x hmem).1) hx)
    · have htold : ∀ x ∈ xs, Told EndsAll Plain x := fun x hmem => (hxs x hmem).1.told (hxs x hmem).2
      obtain ⟨hsame, hrest⟩ := eq_of_describeAll hcomma htold hys hx hy (hends _) (hends _)
        (hlast _) (hlast _) h
      exact ⟨hsame, List.tail_eq_of_cons_eq hrest⟩

/-- What follows a name in print does not continue it. -/
theorem endsPath_brackets (arguments? : Option (List TypeExpr)) (hrest : EndsOne rest) :
    ∀ c ∈ (brackets arguments? ++ rest).head?, Name.isPathPart c = false := by
  cases arguments? with
  | none => exact hrest.isPathPart
  | some arguments =>
    intro c hc
    cases hc
    rfl

/-- Parameters are told from what they print, and from there being none. -/
theorem eq_of_brackets {other? : Option (List TypeExpr)}
    (hxs : ∀ xs ∈ arguments?, ∀ x ∈ xs, x.Plain ∧ x.Readable)
    (hys : ∀ ys ∈ other?, ∀ y ∈ ys, y.Plain) (hrest : EndsOne rest) (hrest' : EndsOne rest')
    (h : brackets arguments? ++ rest = brackets other? ++ rest') :
    arguments? = other? ∧ rest = rest' := by
  cases arguments? with
  | none =>
    cases other? with
    | none => exact ⟨rfl, h⟩
    | some ys =>
      obtain rfl : rest = _ := h
      exact absurd rfl (hrest '<' rfl).2
  | some xs =>
    cases other? with
    | none =>
      obtain rfl : _ = rest' := h
      have hangle := hrest' '<' rfl
      exact absurd rfl hangle.2
    | some ys =>
      have hlist : describeAll ", " xs ++ '>' :: rest = describeAll ", " ys ++ '>' :: rest' := by
        simpa [brackets] using h
      obtain ⟨rfl, hsame⟩ := eq_of_elements (Or.inl rfl) (hxs xs rfl) (hys ys rfl) hlist
      exact ⟨rfl, hsame⟩

/-- The first character of an alternative in print tells a name from the marks. -/
theorem PlainOne.isPathPart_head (h : t.PlainOne) (hnamed : t.named? = some (name, arguments?)) :
    ∃ c cs, t.describe = c :: cs ∧ Name.isPathPart c = true := by
  obtain ⟨c, cs, rfl, hc⟩ := Name.exists_cons_of_isSimple (h.1.isSimple_of_named hnamed)
  exact ⟨c, cs ++ brackets arguments?, describe_of_named hnamed, hc⟩

theorem told_of_named (h : t.PlainOne) (hnamed : t.named? = some (name, arguments?))
    (harguments : ∀ xs ∈ arguments?, ∀ x ∈ xs, x.Plain ∧ x.Readable) :
    Told EndsOne PlainOne t := by
  intro s rest rest' hs hrest hrest' heq
  have hmark : ∀ {c : Char} {cs : Text}, Name.isPathPart c = false → s.describe = c :: cs → False := by
    intro c cs hc hprint
    obtain ⟨d, ds, hd, hpath⟩ := h.isPathPart_head hnamed
    rw [hd, hprint] at heq
    obtain ⟨rfl, -⟩ := List.cons.inj heq
    exact absurd hpath (Bool.eq_false_iff.mp hc)
  rcases hs.form with ⟨name', arguments'?, hnamed'⟩ | ⟨inner, rfl, -⟩ | ⟨elements, rfl, -⟩
  · rw [describe_of_named hnamed, describe_of_named hnamed', List.append_assoc,
      List.append_assoc] at heq
    obtain ⟨rfl, hbehind⟩ := Name.eq_of_append (h.1.isSimple_of_named hnamed)
      (hs.1.isSimple_of_named hnamed') (endsPath_brackets _ hrest) (endsPath_brackets _ hrest') heq
    obtain ⟨rfl, hsame⟩ := eq_of_brackets harguments
      (fun ys hys => hs.1.of_mem_arguments (by rw [hnamed', Option.mem_def.mp hys])) hrest hrest'
      hbehind
    exact ⟨by rw [← h.1.ofNamed_eq hnamed, hs.1.ofNamed_eq hnamed'], hsame⟩
  · cases inner <;> exact (hmark (by decide) rfl).elim
  · exact (hmark (by decide) rfl).elim

theorem describe_nilable (inner : TypeExpr) :
    (nilable inner).describe =
      '?' :: if inner.isUnion then '(' :: (inner.describe ++ ")") else inner.describe := by
  cases inner <;> rfl

/-- A parenthesis is told from what stands without one. -/
theorem Plain.ne_parenthesis (h : t.Plain) (u : Text) : '(' :: u ≠ t.describe ++ rest := by
  obtain ⟨c, cs, hprint, hc⟩ := h.exists_describe_eq_cons
  intro heq
  rw [hprint] at heq
  obtain ⟨rfl, -⟩ := List.cons.inj heq
  cases hc

theorem told_nilable (h : inner.Plain) (hreadable : inner.Readable) :
    Told EndsOne PlainOne (nilable inner) := by
  intro s rest rest' hs hrest hrest' heq
  rw [describe_nilable] at heq
  rcases hs.form with ⟨name, arguments?, hnamed⟩ | ⟨inner', rfl, hinner'⟩ | ⟨elements, rfl, -⟩
  · obtain ⟨c, cs, hprint, hc⟩ := hs.isPathPart_head hnamed
    rw [hprint] at heq
    obtain ⟨rfl, -⟩ := List.cons.inj heq
    cases hc
  · rw [describe_nilable] at heq
    have hparts := List.tail_eq_of_cons_eq heq
    -- Parentheses stand around unions, and around nothing else.
    cases hunion : inner.isUnion <;> cases hunion' : inner'.isUnion <;>
      simp only [hunion, hunion', if_true, if_false, Bool.false_eq_true] at hparts
    · have hself : inner ∈ inner.alternatives := by
        rw [alternatives_of_not_union hunion]
        exact List.mem_cons_self
      obtain ⟨rfl, hsame⟩ := hreadable inner hself inner' rest rest' ⟨hinner', hunion'⟩ hrest
        hrest' hparts
      exact ⟨rfl, hsame⟩
    · exact absurd hparts.symm (h.ne_parenthesis _)
    · exact absurd hparts (hinner'.ne_parenthesis _)
    · have hends : ∀ u, EndsAll (')' :: u) := endsAll_cons rfl (by decide) (by decide)
      have hinside : inner.describe ++ ')' :: rest = inner'.describe ++ ')' :: rest' := by
        simpa using hparts
      obtain ⟨rfl, hsame⟩ := h.told hreadable inner' _ _ hinner' (hends _) (hends _) hinside
      exact ⟨rfl, List.tail_eq_of_cons_eq hsame⟩
  · have hmark : '?' = '[' := List.head_eq_of_cons_eq heq
    cases hmark

theorem told_tuple (hxs : ∀ x ∈ xs, x.Plain ∧ x.Readable) : Told EndsOne PlainOne (tuple xs) := by
  intro s rest rest' hs hrest hrest' heq
  rcases hs.form with ⟨name, arguments?, hnamed⟩ | ⟨inner, rfl, -⟩ | ⟨ys, rfl, hys⟩
  · obtain ⟨c, cs, hprint, hc⟩ := hs.isPathPart_head hnamed
    rw [hprint] at heq
    obtain ⟨rfl, -⟩ := List.cons.inj heq
    cases hc
  · rw [describe_nilable] at heq
    have hmark : '[' = '?' := List.head_eq_of_cons_eq heq
    cases hmark
  · have hlist : describeAll ", " xs ++ ']' :: rest = describeAll ", " ys ++ ']' :: rest' := by
      simpa [describe_tuple] using heq
    obtain ⟨rfl, hsame⟩ := eq_of_elements (Or.inr rfl) hxs hys hlist
    exact ⟨rfl, hsame⟩

/-- **Plain expressions are told from what they print.** -/
theorem Plain.readable (h : t.Plain) : t.Readable := by
  have hnone : ∀ xs ∈ (none : Option (List TypeExpr)), ∀ x ∈ xs, x.Plain ∧ x.Readable :=
    fun xs hxs => by cases hxs
  induction h with
  | untyped => exact List.forall_mem_singleton.mpr (told_of_named ⟨.untyped, rfl⟩ rfl hnone)
  | boolean => exact List.forall_mem_singleton.mpr (told_of_named ⟨.boolean, rfl⟩ rfl hnone)
  | selfType => exact List.forall_mem_singleton.mpr (told_of_named ⟨.selfType, rfl⟩ rfl hnone)
  | raw simple free =>
    exact List.forall_mem_singleton.mpr (told_of_named ⟨.raw simple free, rfl⟩ rfl hnone)
  | nilable plain _ _ ih => exact List.forall_mem_singleton.mpr (told_nilable plain ih)
  | union _ flat _ ih =>
    intro m hm
    have hself : m ∈ m.alternatives := by
      rw [alternatives_of_not_union (flat m hm)]
      exact List.mem_cons_self
    exact ih m hm m hself
  | tuple plain ih =>
    exact List.forall_mem_singleton.mpr (told_tuple fun x hx => ⟨plain x hx, ih x hx⟩)
  | container plain ih =>
    refine List.forall_mem_singleton.mpr (told_of_named ⟨.container plain, rfl⟩ rfl ?_)
    rintro xs ⟨⟩ x hx
    exact ⟨plain x hx, ih x hx⟩
  | generic simple free some plain ih =>
    refine List.forall_mem_singleton.mpr (told_of_named ⟨.generic simple free some plain, rfl⟩ rfl ?_)
    rintro xs ⟨⟩ x hx
    exact ⟨plain x hx, ih x hx⟩

/-- **Print is unambiguous**: plain expressions that print alike are equal. -/
theorem describe_injective (hs : s.Plain) (ht : t.Plain) (h : s.describe = t.describe) : s = t := by
  have hnil : s.describe ++ [] = t.describe ++ [] := by rw [h]
  exact (hs.told hs.readable t [] [] ht endsAll_nil endsAll_nil hnil).1

/-- Alternatives that were joined in two steps, with `nil` beside them, and the type written out. -/
theorem describe_injective_joined :
    let box : TypeExpr := .generic (.raw "Box") [.nilable .boolean]
    let pair : TypeExpr := .tuple [.hash .untyped (.raw "::A::B"), .tuple []]
    let joined : TypeExpr := (anyOf [pair, anyOf [box, pair]]).orNil
    (joined.Plain ∧ (nilable (union [pair, box])).Plain ∧
      joined.describe = "?([Hash<untyped, ::A::B>, []] | Box<?bool>)".toList ∧
      (nilable (union [pair, box])).describe = joined.describe) ∧
      nilable (union [pair, box]) = joined := by
  intro box pair joined
  have hbox : box.Plain := by
    refine .generic rfl rfl (List.cons_ne_nil _ _) (List.forall_mem_singleton.mpr ?_)
    exact .nilable .boolean TypeExpr.noConfusion fun _ => TypeExpr.noConfusion
  have hpair : pair.Plain := by
    refine .tuple (List.forall_mem_cons.mpr ⟨.container ?_, List.forall_mem_singleton.mpr ?_⟩)
    · exact List.forall_mem_cons.mpr
        ⟨.untyped, List.forall_mem_singleton.mpr (.raw rfl (by decide))⟩
    · exact .tuple fun _ he => by cases he
  have hall : ∀ m ∈ [pair, box], m.Plain :=
    List.forall_mem_cons.mpr ⟨hpair, List.forall_mem_singleton.mpr hbox⟩
  have hflat : ∀ m ∈ [pair, box], m.isUnion = false := List.forall_mem_cons.mpr
    ⟨rfl, List.forall_mem_singleton.mpr rfl⟩
  have hwritten : (nilable (union [pair, box])).Plain :=
    .nilable (.union (Nat.le_refl 2) hflat hall) TypeExpr.noConfusion fun _ => TypeExpr.noConfusion
  have hjoined : joined.Plain := hwritten
  exact ⟨⟨hjoined, hwritten, rfl, rfl⟩, describe_injective hwritten hjoined rfl⟩

/-- A name may be a word that stands for something else in print, and then it is not plain. -/
example : (raw "untyped").describe = untyped.describe := rfl

end TypeExpr
end DocTypes
