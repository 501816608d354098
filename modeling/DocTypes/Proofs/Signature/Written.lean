import DocTypes.Proofs.Signature.Line
import DocTypes.Signature.Scan
import Mathlib.Data.List.TakeWhile

/-! # Writing declarations down

Declarations are written line by line: a module, a class or an interface is a heading, the lines of
what it holds and the line `end`, and a constant is one line with its type or its value.

What is written is told apart from how it is laid out.  The `Row`s of a declaration are its lines
without layout, and each stands for one event of a scan (`Row.event`).  A `Layout` makes a line of a
row: it indents the row and says what stands behind the name of a constant.  Reading a line that was
laid out gives the event of its row (`Layout.of_line`), and from there on a scan is a matter of
events. -/

namespace DocTypes

variable {format : SignatureFormat}

/-! ## What can be written -/

/-- Whether the first component of a path begins with an uppercase letter. -/
def Name.BeginsUpper (name : Text) : Prop :=
  ∃ c cs, c.isUpper = true ∧ (name = c :: cs ∨ name = ':' :: ':' :: c :: cs)

/-- Whether a character may stand in the name of an interface: letters, digits and underscores do,
and nothing does that ends a word, or begins parameters or a comment. -/
def Name.isInterfacePart (c : Char) : Bool :=
  !Text.isBlank c && c != '[' && c != ';' && c != '#'

/-- Whether something of a kind may have a name, in a format. -/
def SignatureKind.Allows (format : SignatureFormat) (name : Text) : SignatureKind → Prop
  | moduleDef | classDef => Name.isSimple name = true
  | constantDef => Name.isSimple name = true ∧ Name.BeginsUpper name
  | interfaceDef =>
    format = .rbs ∧ ∃ cs, name = '_' :: cs ∧ ∀ c ∈ cs, Name.isInterfacePart c = true

/-- A declaration that can be written in a format. -/
inductive Signature.Writable (format : SignatureFormat) : Signature → Prop where
  | node {kind : SignatureKind} {name : Text} {members : List Signature}
      (allowed : kind.Allows format name) (leaf : kind = .constantDef → members = [])
      (members_writable : ∀ m ∈ members, m.Writable format) :
      Writable format (.node kind name members)

/-! ## Rows -/

/-- A line of a signature file, its layout left aside. -/
inductive Row where
  /-- The beginning of a module, a class or an interface. -/
  | heading (kind : SignatureKind) (name : Text)
  | constant (name : Text)
  /-- The line that closes what a heading opened. -/
  | ending

namespace Row

/-- What a row does. -/
def event : Row → LineEvent
  | heading kind name => .opens (.declaration kind name)
  | constant name => .declares .constantDef name
  | ending => .closes

/-- What a row says, up to where the type or the value of a constant begins. -/
def front (format : SignatureFormat) : Row → Text
  | heading kind name => kind.name ++ ' ' :: name
  | constant name =>
    match format with
    | .rbs => name ++ ":"
    | .rbi => name ++ " ="
  | ending => "end"

/-- What follows, when `value` is the type or the value of the constant. -/
def back (value : Text) : Row → Text
  | constant _ => ' ' :: value
  | _ => []

/-- A row of a declaration that can be written. -/
def Writable (format : SignatureFormat) : Row → Prop
  | heading kind name => kind ≠ .constantDef ∧ kind.Allows format name
  | constant name => SignatureKind.constantDef.Allows format name
  | ending => True

end Row

mutual

/-- The rows of a declaration. -/
def Signature.rows : Signature → List Row
  | .node kind name members =>
    if kind = .constantDef then [.constant name]
    else .heading kind name :: (rowsOf members ++ [.ending])

/-- The rows of several declarations. -/
def rowsOf : List Signature → List Row
  | [] => []
  | s :: rest => s.rows ++ rowsOf rest

end

/-- How a row is laid out: with some blanks in front, and with a type or a value that is on one line
and, in the format that has blocks of code, begins none. -/
structure Layout (format : SignatureFormat) where
  indentation : Text
  value : Text
  blank : ∀ c ∈ indentation, Text.isBlank c = true
  oneLine : ∀ c ∈ indentation ++ value, Text.isLineEnd c = false
  noBlock : format = .rbi → ("do" : Text) ∉ Text.words value

/-- Spaces in front, and a type or a value that begins no block in any format. -/
def Layout.spaced (width : Nat) (value : Text) (oneLine : ∀ c ∈ value, Text.isLineEnd c = false)
    (noBlock : ("do" : Text) ∉ Text.words value) : Layout format where
  indentation := List.replicate width ' '
  value := value
  blank := fun _ hc => List.eq_of_mem_replicate hc ▸ rfl
  oneLine := List.forall_mem_append.mpr ⟨fun _ hc => List.eq_of_mem_replicate hc ▸ rfl, oneLine⟩
  noBlock := fun _ => noBlock

/-- The line that a row is laid out as. -/
def Layout.line (layout : Layout format) (row : Row) : Text :=
  layout.indentation ++ (row.front format ++ row.back layout.value)

/-- The lines of several declarations, each line with its own layout. -/
def Signature.writtenLines (layout : Nat → Layout format) (forest : List Signature) : List Text :=
  (rowsOf forest).mapIdx fun number row => (layout number).line row

/-- The text of a signature file with the given declarations. -/
def Signature.written (layout : Nat → Layout format) (forest : List Signature) : Text :=
  Text.unlines (writtenLines layout forest)

variable {kind : SignatureKind} {name kept value : Text} {row : Row}

/-! ## Names -/

theorem not_isLower_of_isUpper {c : Char} (h : c.isUpper = true) : c.isLower = false := by
  have hupper : c.isUpper = decide (c.val ≥ 'A'.val ∧ c.val ≤ 'Z'.val) := rfl
  have hlower : c.isLower = (decide (c.val ≥ 'a'.val) && decide (c.val ≤ 'z'.val)) := rfl
  refine Bool.eq_false_iff.mpr fun hboth => ?_
  simp only [hupper, hlower, Bool.and_eq_true, decide_eq_true_eq, UInt32.le_iff_toNat_le,
    ge_iff_le] at h hboth
  exact absurd (Nat.le_trans hboth.1 h.2) (by decide)

theorem Name.isInterfacePart_iff {c : Char} : isInterfacePart c = true ↔
    Text.isBlank c = false ∧ c ≠ '[' ∧ c ≠ ';' ∧ c ≠ '#' := by
  simp [isInterfacePart, and_assoc]

/-- No name that is allowed is empty, and none holds a blank or begins a comment. -/
theorem SignatureKind.Allows.plain (h : kind.Allows format name) :
    name ≠ [] ∧ ∀ c ∈ name, Text.isBlank c = false ∧ c ≠ '#' := by
  have hsimple : Name.isSimple name = true →
      name ≠ [] ∧ ∀ c ∈ name, Text.isBlank c = false ∧ c ≠ '#' := by
    intro hname
    refine ⟨?_, fun c hc => plain_of_isPathPart (Name.isPathPart_of_mem hname hc)⟩
    rintro rfl
    cases hname
  cases kind with
  | moduleDef | classDef => exact hsimple h
  | constantDef => exact hsimple h.1
  | interfaceDef =>
    obtain ⟨-, cs, rfl, hcs⟩ := h
    refine ⟨List.cons_ne_nil _ _, List.forall_mem_cons.mpr ⟨by decide, fun c hc => ?_⟩⟩
    obtain ⟨hblank, -, -, hcomment⟩ := Name.isInterfacePart_iff.mp (hcs c hc)
    exact ⟨hblank, hcomment⟩

theorem SignatureKind.Allows.solid (h : kind.Allows format name) : SignatureLine.Solid name :=
  .of_forall h.plain.1 (fun c hc => (h.plain.2 c hc).1) fun hc => (h.plain.2 '#' hc).2 rfl

theorem SignatureKind.solid_name (kind : SignatureKind) : SignatureLine.Solid kind.name := by
  cases kind <;> exact .of_forall (by decide) (Text.forall_of_any rfl) (by decide)

theorem Row.solid_front (h : row.Writable format) : SignatureLine.Solid (row.front format) := by
  cases row with
  | heading kind name =>
    have hheading := kind.solid_name.append [' '] (by decide) h.2.solid
    rwa [List.append_assoc] at hheading
  | constant name =>
    have hallowed : SignatureKind.constantDef.Allows format name := h
    have hname := hallowed.solid
    cases format with
    | rbs =>
      have hcolon : SignatureLine.Solid ":" :=
        .of_forall (by decide) (Text.forall_of_any rfl) (by decide)
      exact List.append_nil name ▸ hname.append [] (by decide) hcolon
    | rbi =>
      have hequals : SignatureLine.Solid "=" :=
        .of_forall (by decide) (Text.forall_of_any rfl) (by decide)
      have hconstant := hname.append [' '] (by decide) hequals
      rw [List.append_assoc] at hconstant
      exact hconstant
  | ending =>
    show SignatureLine.Solid "end"
    exact .of_forall (by decide) (Text.forall_of_any rfl) (by decide)

theorem Row.not_isLineEnd_of_mem_front (h : row.Writable format) :
    ∀ c ∈ row.front format, Text.isLineEnd c = false := by
  have hname : ∀ {kind : SignatureKind} {name : Text}, kind.Allows format name →
      ∀ c ∈ name, Text.isLineEnd c = false := by
    intro kind name hallowed c hc
    refine Bool.eq_false_iff.mpr fun hend => ?_
    exact Bool.eq_false_iff.mp (hallowed.plain.2 c hc).1 (Text.isBlank_of_isLineEnd hend)
  cases row with
  | heading kind name =>
    have hkind : ∀ c ∈ kind.name, Text.isLineEnd c = false := by
      cases kind <;> exact Text.forall_of_any rfl
    exact List.forall_mem_append.mpr ⟨hkind, List.forall_mem_cons.mpr ⟨rfl, hname h.2⟩⟩
  | constant name =>
    have hallowed : SignatureKind.constantDef.Allows format name := h
    cases format <;>
      exact List.forall_mem_append.mpr ⟨hname hallowed, Text.forall_of_any rfl⟩
  | ending => exact Text.forall_of_any rfl

/-! ## Rows are read back -/

namespace SignatureLine

/-- A word that begins with a lowercase letter is no word that begins otherwise. -/
theorem ne_of_head? {c : Char} {t word : Text} (h : t.head? = some c) (hc : c.isLower = false)
    (hword : word.head?.any Char.isLower = true) : t ≠ word := by
  rintro rfl
  rw [h, Option.any_some, hc] at hword
  cases hword

theorem splitConstant?_of_isSimple (h : Name.isSimple name = true) :
    splitConstant? name = some (name, []) := by
  have hsplit := splitConstant?_append h endsPath_nil
  rwa [List.append_nil] at hsplit

/-- A heading of a module or a class opens its frame. -/
theorem namespaceEvents_name {keyword : Text} (h : Name.isSimple name = true)
    (isWhole : Text → Bool) (hwhole : isWhole [] = false) :
    namespaceEvents keyword name isWhole =
      [.opens (.declaration (if keyword = "module" then .moduleDef else .classDef) name)] := by
  rw [namespaceEvents, splitConstant?_of_isSimple h]
  dsimp only
  rw [hwhole, if_neg Bool.false_ne_true]

theorem endsWithEnd_interface {cs : Text} (h : ∀ c ∈ cs, Name.isInterfacePart c = true) :
    endsWithEnd ('_' :: cs) = false := by
  have hcuts : ∀ c ∈ '_' :: cs, (Text.isBlank c || c == ';') = false := by
    refine List.forall_mem_cons.mpr ⟨by decide, fun c hc => ?_⟩
    obtain ⟨hblank, -, hsemicolon, -⟩ := Name.isInterfacePart_iff.mp (h c hc)
    simp [hblank, hsemicolon]
  rw [endsWithEnd, Text.pieces_of_forall hcuts]
  simp

theorem splitKeyword_heading (h : kind.Allows format name) :
    splitKeyword (kind.name ++ ' ' :: name) = (kind.name, name) := by
  have hkind : ∀ c ∈ kind.name, Text.isBlank c = false := by
    cases kind <;> exact Text.forall_of_any rfl
  obtain ⟨c, cs, rfl, hc⟩ := h.solid.first
  rw [splitKeyword_append hkind rfl, Text.trimStart_cons hc]

/-- What a constant begins with is no lowercase letter. -/
theorem exists_of_constant (h : SignatureKind.constantDef.Allows format name) :
    ∃ c cs, name = c :: cs ∧ Text.isBlank c = false ∧ c.isLower = false := by
  have hplain := h.plain.2
  obtain ⟨-, c, cs, hc, rfl | rfl⟩ := h
  · exact ⟨c, cs, rfl, (hplain c List.mem_cons_self).1, not_isLower_of_isUpper hc⟩
  · exact ⟨':', ':' :: c :: cs, rfl, rfl, rfl⟩

theorem isCapitalized_of_beginsUpper (h : Name.BeginsUpper name) : isCapitalized name = true := by
  obtain ⟨c, cs, hc, rfl | rfl⟩ := h
  all_goals
    have hcolon : c ≠ ':' := by
      rintro rfl
      cases hc
    have hdrop : dropSeparators (c :: cs) = c :: cs := by
      rw [dropSeparators]
      rintro ds heq
      exact absurd (List.cons.inj heq).1 hcolon
  · rw [isCapitalized, hdrop]
    exact hc
  · rw [isCapitalized, dropSeparators, hdrop]
    exact hc

theorem CutOff.eq_nil (h : CutOff kept []) : kept = [] := by
  obtain ⟨rest, hrest, -⟩ := h
  exact (List.append_eq_nil_iff.mp hrest.symm).1

/-- What is left behind a constant is nothing or begins with a space, and so continues no sign. -/
theorem CutOff.not_startsWith {d : Char} (h : CutOff kept (' ' :: value)) (hd : d ≠ ' ') (c : Char) :
    Text.startsWith (c :: kept) [c, d] = false := by
  cases kept with
  | nil => simp [Text.startsWith, List.isPrefixOf]
  | cons e kept =>
    have hspace : e = ' ' := by simpa using (h.head_eq e rfl).symm
    simp [Text.startsWith, List.isPrefixOf, hspace, hd]

/-- A constant is declared when what stands behind its name is as it is asked to be. -/
theorem constantEvents_append {rest : Text} {isDefined : Text → Bool}
    (hallowed : SignatureKind.constantDef.Allows format name) (hrest : EndsPath rest)
    (hdefined : isDefined (Text.trimStart rest) = true) :
    constantEvents (name ++ rest) isDefined = [.declares .constantDef name] := by
  obtain ⟨hsimple, hupper⟩ := hallowed
  rw [constantEvents, splitConstant?_append hsimple hrest]
  simp [isCapitalized_of_beginsUpper hupper, hdefined]

/-- In RBS, a line that begins with no lowercase letter may only be that of a constant. -/
theorem rbsEvents_cons {c : Char} (hblank : Text.isBlank c = false) (hc : c.isLower = false)
    (cs : Text) :
    rbsEvents (c :: cs) = constantEvents (c :: cs) fun after =>
      after.startsWith ":" && !after.startsWith Name.separator := by
  have hhead := head?_splitKeyword hblank cs
  unfold rbsEvents
  cases hsplit : splitKeyword (c :: cs) with
  | mk keyword rest =>
    rw [hsplit] at hhead
    have hne : ∀ word : Text, word.head?.any Char.isLower = true → keyword ≠ word :=
      fun word hword => ne_of_head? hhead hc hword
    dsimp only
    rw [if_neg (not_or.mpr ⟨hne "module" rfl, hne "class" rfl⟩), if_neg (hne "interface" rfl),
      if_neg (hne "end" rfl)]

theorem rbsEvents_front (h : row.Writable .rbs) (hkept : CutOff kept (row.back value)) :
    rbsEvents (row.front .rbs ++ kept) = [row.event] := by
  cases row with
  | heading kind name =>
    obtain ⟨hkind, hallowed⟩ := h
    rw [hkept.eq_nil, List.append_nil, Row.front, rbsEvents, splitKeyword_heading hallowed]
    cases kind with
    | moduleDef | classDef => exact namespaceEvents_name hallowed _ rfl
    | constantDef => exact absurd rfl hkind
    | interfaceDef =>
      obtain ⟨-, cs, rfl, hcs⟩ := hallowed
      have htake : ('_' :: cs).takeWhile (fun c => c != '[' && c != ' ') = '_' :: cs := by
        refine List.takeWhile_eq_self_iff.mpr (List.forall_mem_cons.mpr ⟨by decide, fun c hc => ?_⟩)
        obtain ⟨hblank, hbracket, -, -⟩ := Name.isInterfacePart_iff.mp (hcs c hc)
        have hspace : c ≠ ' ' := by
          rintro rfl
          cases hblank
        simp [hbracket, hspace]
      show opensUnlessEnded (.declaration .interfaceDef _) ('_' :: cs) = _
      rw [htake, opensUnlessEnded, endsWithEnd_interface hcs]
      rfl
  | constant name =>
    have hallowed : SignatureKind.constantDef.Allows .rbs name := h
    obtain ⟨c, cs, hname, hblank, hlower⟩ := exists_of_constant hallowed
    -- Two colons would continue the path, but nothing or a space follows the one that is written.
    have hseparator := hkept.not_startsWith (by decide : ':' ≠ ' ') ':'
    have hends : EndsPath (':' :: kept) := ⟨fun d hd => by cases hd; rfl, hseparator⟩
    have hfront : Row.front .rbs (.constant name) ++ kept = name ++ ':' :: kept :=
      List.append_assoc _ _ _
    have hline := rbsEvents_cons hblank hlower (cs ++ ':' :: kept)
    rw [← List.cons_append, ← hname] at hline
    rw [hfront, hline]
    refine constantEvents_append hallowed hends ?_
    rw [Text.trimStart_cons rfl, Bool.and_eq_true]
    exact ⟨rfl, congrArg not hseparator⟩
  | ending =>
    rw [hkept.eq_nil]
    rfl

/-- In RBI, a line that begins with no lowercase letter may be that of a constant and open a
block. -/
theorem rbiEvents_cons {c : Char} (hblank : Text.isBlank c = false) (hc : c.isLower = false)
    (cs : Text) :
    rbiEvents (c :: cs) = constantEvents (c :: cs) (fun after =>
        after.startsWith "=" && !after.startsWith "==" && !after.startsWith "=~")
      ++ if opensBlock (c :: cs) then [.opens .code] else [] := by
  have hhead := head?_splitKeyword hblank cs
  have hend : Text.startsWith (c :: cs) "end." = false := by
    have hne : c ≠ 'e' := by
      rintro rfl
      cases hc
    exact Text.startsWith_cons_of_ne hne
  unfold rbiEvents
  cases hsplit : splitKeyword (c :: cs) with
  | mk keyword rest =>
    rw [hsplit] at hhead
    have hne : ∀ word : Text, word.head?.any Char.isLower = true → keyword ≠ word :=
      fun word hword => ne_of_head? hhead hc hword
    have hblock : keyword ∉ blockKeywords := fun hmem =>
      ne_of_head? hhead hc ((by decide : ∀ word ∈ blockKeywords, word.head?.any Char.isLower = true)
        keyword hmem) rfl
    dsimp only
    rw [if_neg fun hboth => hne "class" rfl hboth.1,
      if_neg (not_or.mpr ⟨hne "module" rfl, hne "class" rfl⟩), if_neg (hne "def" rfl),
      if_neg (not_or.mpr ⟨hne "end" rfl, not_or.mpr ⟨hne "end;" rfl, Bool.eq_false_iff.mp hend⟩⟩),
      if_neg hblock]

/-- The line of a constant has the word `do` only if its value has. -/
theorem not_do_mem_words (h : SignatureKind.constantDef.Allows format name)
    (hkept : CutOff kept (' ' :: value)) (hvalue : ("do" : Text) ∉ Text.words value) :
    ("do" : Text) ∉ Text.words (name ++ ' ' :: '=' :: kept) := by
  obtain ⟨c, cs, rfl, -, hlower⟩ := exists_of_constant h
  have hname : ("do" : Text) ≠ c :: cs := (ne_of_head? rfl hlower rfl).symm
  have hwords : Text.words ('=' :: kept) ⊆ ['='] :: Text.words value := by
    cases kept with
    | nil => exact List.cons_subset_cons ['='] (List.nil_subset _)
    | cons d kept =>
      have hspace : d = ' ' := by simpa using (hkept.head_eq d rfl).symm
      have hsubset := hkept.words_subset
      subst hspace
      rw [Text.words_cons rfl, Text.words_cons rfl] at hsubset
      have hequals : Text.words ('=' :: ' ' :: kept) = ['='] :: Text.words kept :=
        Text.words_append rfl ['='] kept
      rw [hequals]
      exact List.cons_subset_cons _ hsubset
  rw [Text.words_append rfl, Text.words_of_forall h.plain.1 fun d hd => (h.plain.2 d hd).1]
  intro hmem
  rcases List.mem_append.mp hmem with hmem | hmem
  · exact hname (List.mem_singleton.mp hmem)
  · rcases List.mem_cons.mp (hwords hmem) with heq | hmem
    · exact absurd heq (by decide)
    · exact hvalue hmem

theorem rbiEvents_front (h : row.Writable .rbi) (hkept : CutOff kept (row.back value))
    (hvalue : ("do" : Text) ∉ Text.words value) :
    rbiEvents (row.front .rbi ++ kept) = [row.event] := by
  cases row with
  | heading kind name =>
    obtain ⟨hkind, hallowed⟩ := h
    rw [hkept.eq_nil, List.append_nil, Row.front, rbiEvents, splitKeyword_heading hallowed]
    cases kind with
    | moduleDef => exact namespaceEvents_name hallowed _ rfl
    | classDef =>
      have hself : ¬(("class" : Text) = "class" ∧ name.startsWith "<<" = true) := by
        obtain ⟨c, cs, rfl, -⟩ := hallowed.solid.first
        have hangle : c ≠ '<' := by
          rintro rfl
          exact absurd (Name.isPathPart_of_mem hallowed List.mem_cons_self) (by decide)
        exact fun hboth => Bool.eq_false_iff.mp (Text.startsWith_cons_of_ne hangle) hboth.2
      exact (if_neg hself).trans (namespaceEvents_name hallowed _ rfl)
    | constantDef => exact absurd rfl hkind
    | interfaceDef => exact absurd hallowed.1 (by decide)
  | constant name =>
    have hallowed : SignatureKind.constantDef.Allows .rbi name := h
    obtain ⟨c, cs, hname, hblank, hlower⟩ := exists_of_constant hallowed
    have hends : EndsPath (' ' :: '=' :: kept) := ⟨fun d hd => by cases hd; rfl, rfl⟩
    have hfront : Row.front .rbi (.constant name) ++ kept = name ++ ' ' :: '=' :: kept :=
      List.append_assoc _ _ _
    have hline := rbiEvents_cons hblank hlower (cs ++ ' ' :: '=' :: kept)
    rw [← List.cons_append, ← hname] at hline
    -- A line that opened a block would have the word `do`, be it in the value.
    have hblock : ¬opensBlock (name ++ ' ' :: '=' :: kept) = true := fun hopens =>
      not_do_mem_words hallowed hkept hvalue (do_mem_words_of_opensBlock hopens)
    rw [hfront, hline, if_neg hblock, List.append_nil]
    refine constantEvents_append hallowed hends ?_
    have hequal := hkept.not_startsWith (by decide : '=' ≠ ' ') '='
    have hmatch := hkept.not_startsWith (by decide : '~' ≠ ' ') '='
    have htrim : Text.trimStart (' ' :: '=' :: kept) = '=' :: kept := rfl
    rw [htrim, Bool.and_eq_true, Bool.and_eq_true]
    exact ⟨⟨rfl, congrArg not hequal⟩, congrArg not hmatch⟩
  | ending =>
    rw [hkept.eq_nil]
    rfl

end SignatureLine

/-- **Reading a line that was laid out gives the event of its row.** -/
theorem Layout.of_line (layout : Layout format) (h : row.Writable format) :
    LineEvent.of format (layout.line row) = [row.event] := by
  obtain ⟨kept, hkept, hstrip⟩ :=
    SignatureLine.exists_strip_eq layout.blank (row.solid_front h) (row.back layout.value)
  have hne : row.front format ++ kept ≠ [] := by
    obtain ⟨c, cs, hfront, -⟩ := (row.solid_front h).first
    simp [hfront]
  unfold LineEvent.of line
  rw [hstrip]
  dsimp only
  rw [if_neg hne]
  cases format with
  | rbs => exact SignatureLine.rbsEvents_front h hkept
  | rbi => exact SignatureLine.rbiEvents_front h hkept (layout.noBlock rfl)

/-- A line that was laid out is one line. -/
theorem Layout.not_isLineEnd_of_mem (layout : Layout format) (h : row.Writable format) :
    ∀ c ∈ layout.line row, Text.isLineEnd c = false := by
  have hback : ∀ c ∈ row.back layout.value, Text.isLineEnd c = false := by
    cases row with
    | constant name =>
      exact List.forall_mem_cons.mpr
        ⟨rfl, fun c hc => layout.oneLine c (List.mem_append_right _ hc)⟩
    | heading | ending => exact fun c hc => by cases hc
  intro c hc
  rcases List.mem_append.mp hc with hc | hc
  · exact layout.oneLine c (List.mem_append_left _ hc)
  rcases List.mem_append.mp hc with hc | hc
  · exact row.not_isLineEnd_of_mem_front h c hc
  · exact hback c hc

end DocTypes
