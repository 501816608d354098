import DocTypes.Proofs.Conversion.Alternatives
import DocTypes.Proofs.Resolver.Lifecycle

/-! # Alternatives one after another

An annotation of several texts is converted as if its texts were annotations of their own, converted
one after another (`convertEach`): the types are joined, the reports follow one another, and the
first text that uses the index leaves it to the others (`convert_alternatives`).  A text `nil` is no
alternative.  It makes the others nilable, and of several such texts one is as good as all.

Which texts come first, and how often each is given, does not matter to the alternatives that result
(`convert_reordered`). -/

namespace DocTypes

theorem Answer.map_map {α β γ : Type} (g : β → γ) (f : α → β) (a : Answer α) :
    (a.map f).map g = a.map (g ∘ f) := rfl

@[simp] theorem Answer.diagnostics_map {α β : Type} (f : α → β) (a : Answer α) :
    (a.map f).diagnostics = a.diagnostics := rfl

theorem Answer.map_congr {α β : Type} {f g : α → β} {a : Answer α} (h : f a.value = g a.value) :
    a.map f = a.map g := by
  rw [map, h]
  rfl

theorem Answer.map_eq_self {α : Type} {f : α → α} {a : Answer α} (h : f a.value = a.value) :
    a.map f = a := by
  rw [map, h]

namespace Resolver
open Conversion TypeExpr

variable {r : Resolver} {files : FileSystem} {settings : Settings} {entity? : Option EntityId}
variable {texts texts' : List Text}

/-- The types of several texts, each converted by itself with the resolver that the one before it
leaves. -/
def convertEach (r : Resolver) (files : FileSystem) (settings : Settings)
    (entity? : Option EntityId) : List Text → Answer (List TypeExpr)
  | [] => ⟨[], [], r⟩
  | text :: texts =>
    let first := r.convert files settings entity? (.one text)
    let rest := first.resolver.convertEach files settings entity? texts
    ⟨first.value :: rest.value, first.diagnostics ++ rest.diagnostics, rest.resolver⟩

/-! ## One text after another -/

/-- The reports of the index stand in the first of two traces that asks for it. -/
theorem settle_append (item : Option Text) (findings : Thunk (List DependencyFinding))
    (notes notes' : List Note) :
    settle item findings (notes ++ notes') = settle item findings notes ++
      settle item (if asksIndex notes then .pure [] else findings) notes' := by
  induction notes generalizing findings with
  | nil => rfl
  | cons note notes ih =>
    cases note with
    | finding f =>
      have hasks : asksIndex (.finding f :: notes) = asksIndex notes := by simp [asksIndex]
      rw [hasks]
      exact congrArg (f.diagnostic item :: ·) (ih findings)
    | indexUse =>
      have hasks : asksIndex (.indexUse :: notes) = true := by simp [asksIndex]
      -- The index is there from now on, and asking for it again reports nothing in either trace.
      have hrest := ih (.pure [])
      rw [ite_self] at hrest
      rw [List.cons_append, settle, settle, hrest, hasks, if_pos rfl, List.append_assoc]

theorem asksIndex_append (notes notes' : List Note) :
    asksIndex (notes ++ notes') = (asksIndex notes || asksIndex notes') := by
  simp [asksIndex]

/-- The resolver that a conversion with the given notes leaves. -/
def left (r : Resolver) (files : FileSystem) (notes : List Note) : Resolver :=
  if asksIndex notes then r.indexed files else r

theorem convert_eq (tag : Annotation) :
    r.convert files settings entity? tag =
      let traced := Conversion.convert settings (r.scopeFor files entity?) tag
      ⟨traced.value,
        settle ((r.scopeFor files entity?).map (·.path)) ((r.built files).map (·.2)) traced.notes,
        r.left files traced.notes⟩ := by
  dsimp only
  rw [left, ← resolver_convert]
  rfl

theorem scopeFor_left (notes : List Note) :
    (r.left files notes).scopeFor files entity? = r.scopeFor files entity? := by
  unfold left
  split
  · exact r.scopeFor_indexed files files entity?
  · rfl

theorem built_left (notes : List Note) :
    ((r.left files notes).built files).map (·.2) =
      if asksIndex notes then .pure [] else (r.built files).map (·.2) := by
  unfold left
  split <;> rfl

theorem left_left (notes notes' : List Note) :
    (r.left files notes).left files notes' = r.left files (notes ++ notes') := by
  unfold left
  rw [asksIndex_append]
  cases asksIndex notes <;> cases asksIndex notes' <;> rfl

/-- Texts that are converted one after another give what each of them gives, and report and leave
what one conversion with all their notes does. -/
theorem convertEach_eq (texts : List Text) :
    r.convertEach files settings entity? texts =
      let scope := r.scopeFor files entity?
      let notes := texts.flatMap fun text => (convertOne settings scope text).notes
      ⟨texts.map fun text => (convertOne settings scope text).value,
        settle (scope.map (·.path)) ((r.built files).map (·.2)) notes, r.left files notes⟩ := by
  induction texts generalizing r with
  | nil => rfl
  | cons text texts ih =>
    -- The texts after the first one are converted with the resolver that it leaves.
    rw [convertEach, convert_eq, ih]
    simp only [scopeFor_left, built_left, left_left, List.map_cons, List.flatMap_cons, settle_append]
    rfl

theorem convertEach_singleton (text : Text) :
    r.convertEach files settings entity? [text] =
      (r.convert files settings entity? (.one text)).map fun type => [type] := by
  rw [convertEach, convertEach]
  dsimp only
  rw [List.append_nil]
  rfl

theorem regular_of_mem_convertEach :
    ∀ type ∈ (r.convertEach files settings entity? texts).value, type.Regular := by
  rw [convertEach_eq]
  exact List.forall_mem_map.mpr fun _ _ => regular_convertOne _

/-- **Several texts are converted one after another**, joined, and made nilable if one of them is
`nil`. -/
theorem convert_many_eq (r : Resolver) (files : FileSystem) (settings : Settings)
    (entity? : Option EntityId) (texts : List Text) :
    r.convert files settings entity? (.many texts) =
      (r.convertEach files settings entity? (withoutNil texts)).map fun types =>
        if texts.any isNilEntry then (anyOf types).orNil else anyOf types := by
  rw [convert_eq, convertEach_eq, convert_many]
  rfl

/-- Where no text is `nil`, the types are only joined. -/
theorem convert_many_of_all (h : withoutNil texts = texts) :
    r.convert files settings entity? (.many texts) =
      (r.convertEach files settings entity? texts).map anyOf := by
  rw [convert_many_eq, h, withoutNil_eq_self_iff.mp h]
  rfl

theorem convert_many_singleton {text : Text} (h : withoutNil [text] = [text]) :
    r.convert files settings entity? (.many [text]) =
      r.convert files settings entity? (.one text) := by
  have hregular : (r.convert files settings entity? (.one text)).value.Regular :=
    regular_convertOne text
  rw [convert_many_of_all h, convertEach_singleton, Answer.map_map]
  exact Answer.map_eq_self hregular.tidy.anyOf_singleton

theorem convert_many_of_isBooleanPair (h : isBooleanPair texts = true) :
    r.convert files settings entity? (.many texts) = ⟨.boolean, [], r⟩ := by
  have hboolean : Conversion.convert settings (r.scopeFor files entity?) (.many texts) =
      pure .boolean := if_pos h
  rw [convert_eq, hboolean]
  rfl

theorem convert_many_of_none (h : withoutNil texts = []) :
    r.convert files settings entity? (.many texts) = ⟨.untyped, [], r⟩ := by
  rw [convert_many_eq, h]
  cases texts.any isNilEntry <;> rfl

/-- Where some text is `nil`, the type of the others is made nilable. -/
theorem convert_many_of_removed (h : withoutNil texts ≠ texts) :
    r.convert files settings entity? (.many texts) =
      (r.convert files settings entity? (.many (withoutNil texts))).map fun type =>
        if type = .untyped then .untyped else .nilable type := by
  have hregular : (anyOf (r.convertEach files settings entity? (withoutNil texts)).value).Regular :=
    regular_anyOf regular_of_mem_convertEach
  rw [convert_many_eq, withoutNil_ne_self_iff.mp h, convert_many_of_all (withoutNil_withoutNil texts),
    Answer.map_map]
  refine Answer.map_congr ?_
  rw [if_pos rfl, Function.comp_apply]
  split
  · next huntyped =>
    rw [huntyped]
    rfl
  · next hwanted => exact hregular.orNil_eq hwanted

/-- Every alternative is one of some text that is not `nil`. -/
theorem exists_of_mem_choices (hne : withoutNil texts ≠ []) {a : TypeExpr}
    (ha : a ∈ (r.convert files settings entity? (.many texts)).value.choices) :
    ∃ text ∈ withoutNil texts,
      a ∈ (r.convert files settings entity? (.one text)).value.alternatives := by
  have hchoices : (r.convert files settings entity? (.many texts)).value.choices =
      (joined settings (r.scopeFor files entity?) texts).alternatives := choices_convert_many
  rw [hchoices, joined, mem_alternatives_anyOf] at ha
  · obtain ⟨type, htype, ha⟩ := ha
    obtain ⟨text, htext, rfl⟩ := List.mem_map.mp htype
    exact ⟨text, htext, ha⟩
  · exact List.forall_mem_map.mpr fun _ _ => (regular_convertOne _).tidy
  · exact fun hnil => hne (List.map_eq_nil_iff.mp hnil)

/-- **Alternatives are converted one after another, and `nil` is none of them.**  Without a text
`nil`, the type is any of the types of the texts, converted one after another, and the reports are
theirs in order; a single text is converted as if it stood alone, and the two truth values are no
exception.  If some texts are `nil`, the answer is the one for the other texts, made nilable unless
it allows anything: it does not matter how many of them there are and where, and every alternative
is one of another text. -/
theorem convert_alternatives (r : Resolver) (files : FileSystem) (settings : Settings)
    (entity? : Option EntityId) (texts : List Text) :
    let kept := withoutNil texts
    let answer := r.convert files settings entity? (.many texts)
    (kept = texts →
        answer = (r.convertEach files settings entity? texts).map anyOf ∧
          ∀ text, texts = [text] → answer = r.convert files settings entity? (.one text)) ∧
      (isBooleanPair texts = true → kept = texts ∧ answer = ⟨.boolean, [], r⟩) ∧
      (kept = [] → answer = ⟨.untyped, [], r⟩) ∧
      (kept ≠ texts →
        answer = (r.convert files settings entity? (.many kept)).map (fun type =>
            if type = .untyped then .untyped else .nilable type) ∧
          (∀ others, withoutNil others = kept → kept ≠ others →
            r.convert files settings entity? (.many others) = answer) ∧
          (kept ≠ [] → ∀ a ∈ answer.value.choices, ∃ text ∈ kept,
            a ∈ (r.convert files settings entity? (.one text)).value.alternatives)) := by
  intro kept answer
  refine ⟨fun hkept => ⟨convert_many_of_all hkept, ?_⟩, fun hpair => ⟨?_, ?_⟩,
    fun hnone => convert_many_of_none hnone,
    fun hremoved => ⟨convert_many_of_removed hremoved, ?_, fun hne a ha => ?_⟩⟩
  · rintro text rfl
    exact convert_many_singleton hkept
  · exact (@of_isBooleanPair settings none texts hpair).1
  · exact convert_many_of_isBooleanPair hpair
  · intro others hothers hne
    rw [convert_many_of_removed (hothers ▸ hne), hothers]
    exact (convert_many_of_removed hremoved).symm
  · exact exists_of_mem_choices hne ha

/-- The first text that is not `nil` has two alternatives and asks for the index, and the last one
is inferred from the same index. -/
theorem convert_alternatives_inferred :
    let r := fresh (.ofDeclarations [⟨.classDef, "A::B"⟩, ⟨.classDef, "C"⟩]) .default
      ⟨some "collection", []⟩
    let settings : Settings := ⟨false, false, .rbi⟩
    let kept : List Text := ["Class<B, C>", "B"]
    let texts : List Text := ["nil", "Class<B, C>", " nil ", "B"]
    let each := r.convertEach ⟨[], []⟩ settings (some 3) kept
    let answer := r.convert ⟨[], []⟩ settings (some 3) (.many texts)
    each.value = [.union [.classOf (.raw "A::B"), .classOf (.raw "C")], .raw "A::B"] ∧
      answer.value =
        .nilable (.union [.classOf (.raw "A::B"), .classOf (.raw "C"), .raw "A::B"]) ∧
      answer.diagnostics = each.diagnostics ∧
      r.convert ⟨[], []⟩ settings (some 3) (.many ["Class<B, C>", "B", "nil"]) = answer ∧
      ∀ a ∈ answer.value.choices, ∃ text ∈ kept,
        a ∈ (r.convert ⟨[], []⟩ settings (some 3) (.one text)).value.alternatives := by
  intro r settings kept texts each answer
  have hwithout : withoutNil texts = kept := by decide +kernel
  have hremoved : kept ≠ texts := by decide
  obtain ⟨heach, -⟩ := (convert_alternatives r ⟨[], []⟩ settings (some 3) kept).1 (by decide +kernel)
  obtain ⟨-, -, -, hnil⟩ := convert_alternatives r ⟨[], []⟩ settings (some 3) texts
  rw [hwithout] at hnil
  obtain ⟨hanswer, hothers, hchoices⟩ := hnil hremoved
  have hvalues : each.value =
        [.union [.classOf (.raw "A::B"), .classOf (.raw "C")], .raw "A::B"] ∧
      answer.value =
        .nilable (.union [.classOf (.raw "A::B"), .classOf (.raw "C"), .raw "A::B"]) := by
    decide +kernel
  have hdiagnostics : answer.diagnostics = each.diagnostics := by
    show (r.convert ⟨[], []⟩ settings (some 3) (.many texts)).diagnostics = each.diagnostics
    rw [hanswer, Answer.diagnostics_map, heach, Answer.diagnostics_map]
  exact ⟨hvalues.1, hvalues.2, hdiagnostics, hothers _ (by decide +kernel) (by decide),
    hchoices (List.cons_ne_nil _ _)⟩

/-- **The order of alternatives and their repetition do not matter.**  Texts in another order, or some
of them repeated anywhere, give a type that is nilable if and only if the other is, and that has the
same alternatives.  Texts that are repeated only after they came first give the very same type. -/
theorem convert_reordered (r : Resolver) (files : FileSystem) (settings : Settings)
    (entity? : Option EntityId) (texts texts' : List Text) :
    let type := (r.convert files settings entity? (.many texts)).value
    let type' := (r.convert files settings entity? (.many texts')).value
    ((∀ text, text ∈ texts ↔ text ∈ texts') →
        type.isNilable = type'.isNilable ∧ type.choices.Perm type'.choices) ∧
      (texts.eraseDups = texts'.eraseDups → type = type') ∧
      ∀ front text back, text ∈ front → texts = front ++ back → texts' = front ++ text :: back →
        type = type' := by
  intro type type'
  have hsame : texts.eraseDups = texts'.eraseDups → type = type' := by
    intro h
    have hmem : ∀ text, text ∈ texts ↔ text ∈ texts' := fun text => by
      rw [← List.mem_eraseDups, h, List.mem_eraseDups]
    show (Conversion.convert settings _ (.many texts)).value =
      (Conversion.convert settings _ (.many texts')).value
    rw [convert_many, convert_many, joined_eq_of_eraseDups h, any_isNilEntry_congr hmem]
  refine ⟨fun h => ⟨isNilable_convert_many_congr h, ?_⟩, hsame, ?_⟩
  · show (Conversion.convert settings (r.scopeFor files entity?) (.many texts)).value.choices.Perm
      (Conversion.convert settings (r.scopeFor files entity?) (.many texts')).value.choices
    rw [choices_convert_many, choices_convert_many]
    exact perm_alternatives_joined h
  · rintro front text back htext rfl rfl
    refine hsame ?_
    rw [List.eraseDups_append, List.eraseDups_append, List.cons_removeAll,
      List.contains_iff_mem.mpr htext]
    rfl

/-- Two alternatives of one text and a third one, in another order and with a repetition, make up
another union of the same alternatives, and the repetition alone changes nothing. -/
theorem convert_reordered_swapped :
    let r := fresh (.ofDeclarations []) .default ⟨none, []⟩
    let type texts := (r.convert ⟨[], []⟩ ⟨false, false, .rbi⟩ none (.many texts)).value
    let front : TypeExpr := type ["Class<A, B>", "C", "nil"]
    let back : TypeExpr := type ["C", "nil", "Class<A, B>", "C"]
    front ≠ back ∧ (front.isNilable = back.isNilable ∧ front.choices.Perm back.choices) ∧
      back = type ["C", "nil", "Class<A, B>"] := by
  intro r type front back
  have hmem : ∀ text : Text, text ∈ (["Class<A, B>", "C", "nil"] : List Text) ↔
      text ∈ (["C", "nil", "Class<A, B>", "C"] : List Text) := by
    intro text
    simp only [List.mem_cons, List.not_mem_nil]
    tauto
  obtain ⟨hsame, -⟩ := convert_reordered r ⟨[], []⟩ ⟨false, false, .rbi⟩ none
    ["Class<A, B>", "C", "nil"] ["C", "nil", "Class<A, B>", "C"]
  obtain ⟨-, hrepeated, -⟩ := convert_reordered r ⟨[], []⟩ ⟨false, false, .rbi⟩ none
    ["C", "nil", "Class<A, B>", "C"] ["C", "nil", "Class<A, B>"]
  exact ⟨by decide +kernel, hsame hmem, hrepeated (by decide +kernel)⟩

end Resolver
end DocTypes
