import DocTypes.Conversion.Basic
import DocTypes.Conversion.Finding
import DocTypes.Resolver.Basic

/-! # Converting with a resolver

In the scope of a documented entity, names are looked up through a resolver.  The index may have to
be built for that, in the middle of a conversion: what there is to report about the dependencies is
then reported at the place where the index was first asked for.  A conversion that does not ask for
the index does not build it. -/

namespace DocTypes.Resolver

/-- The surroundings of an annotation that belongs to an entity, over an index that is built when it
is asked for. -/
def scopeAt (r : Resolver) (index : Thunk NameIndex) (entity : EntityId) : Scope where
  path := r.corpus.path entity
  resolves := r.resolves entity
  pathFor? name := only? (if Name.isAbsolute name then [name] else index.get.pathsFor name)

/-- Whether a trace asks for the index. -/
def asksIndex (notes : List Note) : Bool := notes.contains .indexUse

/-- The diagnostics of a trace, where `findings` are reported at the first place that asks for the
index. -/
def settle (item : Option Text) (findings : Thunk (List DependencyFinding)) :
    List Note → List Diagnostic
  | [] => []
  | .finding f :: notes => f.diagnostic item :: settle item findings notes
  | .indexUse :: notes =>
    findings.get.map (·.diagnostic) ++ settle item (.pure []) notes

/-- Every finding of a trace is reported. -/
theorem mem_settle {item : Option Text} {findings : Thunk (List DependencyFinding)}
    {notes : List Note} {f : Finding} (h : .finding f ∈ notes) :
    f.diagnostic item ∈ settle item findings notes := by
  induction notes generalizing findings with
  | nil => cases h
  | cons note notes ih =>
    cases note with
    | finding g =>
      rw [settle]
      rcases List.mem_cons.mp h with heq | h
      · cases heq
        exact List.mem_cons_self
      · exact List.mem_cons_of_mem _ (ih h)
    | indexUse =>
      rcases List.mem_cons.mp h with heq | h
      · cases heq
      · exact List.mem_append_right _ (ih h)

/-- The index over the files as they are, and what is to be reported when it is first asked for.
Neither is computed before it is needed. -/
def built (r : Resolver) (files : FileSystem) : Thunk (NameIndex × List DependencyFinding) :=
  match r.index? with
  | some index => .pure (index, [])
  | none => .mk fun _ => r.build files

/-- What a conversion gives in the surroundings of an entity, or in none. -/
def answer (r : Resolver) (files : FileSystem) (entity? : Option EntityId)
    (conversion : Option Scope → Traced TypeExpr) : Answer TypeExpr :=
  let built := r.built files
  let scope := entity?.map (r.scopeAt (built.map (·.1)))
  let traced := conversion scope
  ⟨traced.value, settle (scope.map (·.path)) (built.map (·.2)) traced.notes,
    if asksIndex traced.notes then { r with index? := some built.get.1 } else r⟩

/-- The type of an annotation that belongs to an entity, or to none. -/
def convert (r : Resolver) (files : FileSystem) (settings : Settings) (entity? : Option EntityId)
    (tag : Annotation) : Answer TypeExpr :=
  r.answer files entity? fun scope => Conversion.convert settings scope tag

/-- The surroundings in which an entity's annotations are converted. -/
def scopeFor (r : Resolver) (files : FileSystem) (entity? : Option EntityId) : Option Scope :=
  entity?.map (r.scopeAt ((r.built files).map (·.1)))

variable {r : Resolver} {files : FileSystem} {entity? : Option EntityId}

theorem value_answer (conversion : Option Scope → Traced TypeExpr) :
    (r.answer files entity? conversion).value =
      (conversion (r.scopeFor files entity?)).value := rfl

/-- What a conversion reports is read off its notes, whatever the conversion is. -/
theorem diagnostics_answer (conversion : Option Scope → Traced TypeExpr) :
    (r.answer files entity? conversion).diagnostics =
      settle ((r.scopeFor files entity?).map (·.path)) ((r.built files).map (·.2))
        (conversion (r.scopeFor files entity?)).notes := rfl

theorem answer_congr {conversion conversion' : Option Scope → Traced TypeExpr}
    (h : conversion (r.scopeFor files entity?) = conversion' (r.scopeFor files entity?)) :
    r.answer files entity? conversion = r.answer files entity? conversion' := by
  unfold scopeFor at h
  simp only [answer, h]

end DocTypes.Resolver
