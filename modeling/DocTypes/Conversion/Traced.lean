import DocTypes.Diagnostic

/-! # Values with a trace

A conversion gives a value and, beside it, the trace of what happened on the way: what there is to
report (`Finding`), and where the index of names was asked.  Nothing that is converted later depends
on the trace, so a trace is only ever put together: a computation that continues another has the
two traces one after the other. -/

namespace DocTypes

/-- What there is to report about an annotation. -/
inductive Finding where
  /-- Brackets are nested deeper than allowed. -/
  | nestedTooDeep (limit : Nat)
  /-- A text has none of the shapes of an annotation. -/
  | notAType (text : Text)
  /-- A word that is no name takes parameters. -/
  | unsupportedGeneric (name text : Text)
  /-- A map has not exactly a key and a value. -/
  | invalidHash (text : Text)
  /-- A name looks like that of a variable. -/
  | notAConstant (name : Text)
  /-- No known path ends in the name, or several do. -/
  | unresolved (name : Text) (replaced : Bool)
  /-- A name was taken for a longer path. -/
  | inferred (name path : Text)
  /-- A duck type was given up. -/
  | duckDropped (text : Text)
  /-- A duck type was replaced by an interface. -/
  | duckReplaced (text replacement : Text)
  deriving DecidableEq

namespace Finding

/-- The kind of diagnostic that a finding is. -/
def kind : Finding → DiagnosticKind
  | inferred _ _ => .inference
  | duckDropped _ | duckReplaced _ _ => .duckType
  | _ => .warning

end Finding

/-- A step worth noting. -/
inductive Note where
  /-- Something to report. -/
  | finding (f : Finding)
  /-- The index of names was asked. -/
  | indexUse
  deriving DecidableEq

/-- A value and the trace of how it came about. -/
structure Traced (α : Type) where
  value : α
  notes : List Note

namespace Traced

variable {α β : Type}

/-- A value that nothing is to be noted about. -/
protected def pure (value : α) : Traced α := ⟨value, []⟩

/-- Continues with the value, and the trace of the continuation follows. -/
protected def bind (t : Traced α) (next : α → Traced β) : Traced β :=
  let after := next t.value
  ⟨after.value, t.notes ++ after.notes⟩

instance : Monad Traced where
  pure := Traced.pure
  bind := Traced.bind

/-- Notes a finding. -/
def report (f : Finding) : Traced Unit := ⟨(), [.finding f]⟩

/-- Notes a finding if there is reason to. -/
def reportIf (reason : Bool) (f : Finding) : Traced Unit := if reason then report f else pure ()

/-- Notes that the index of names is asked, if it is. -/
def askIndexIf (asked : Bool) : Traced Unit := ⟨(), if asked then [.indexUse] else []⟩

/-- All values, with the traces one after the other. -/
def all (ts : List (Traced α)) : Traced (List α) := ⟨ts.map (·.value), ts.flatMap (·.notes)⟩

/-! ## Values and notes of each step -/

@[simp] theorem value_pure (a : α) : (pure a : Traced α).value = a := rfl

@[simp] theorem notes_pure (a : α) : (pure a : Traced α).notes = [] := rfl

@[simp] theorem value_bind (t : Traced α) (next : α → Traced β) :
    (t >>= next).value = (next t.value).value := rfl

@[simp] theorem notes_bind (t : Traced α) (next : α → Traced β) :
    (t >>= next).notes = t.notes ++ (next t.value).notes := rfl

@[simp] theorem notes_report (f : Finding) : (report f).notes = [.finding f] := rfl

@[simp] theorem notes_reportIf (reason : Bool) (f : Finding) :
    (reportIf reason f).notes = if reason then [.finding f] else [] := by
  cases reason <;> rfl

@[simp] theorem notes_askIndexIf (asked : Bool) :
    (askIndexIf asked).notes = if asked then [.indexUse] else [] := rfl

@[simp] theorem value_all (ts : List (Traced α)) : (all ts).value = ts.map (·.value) := rfl

@[simp] theorem notes_all (ts : List (Traced α)) : (all ts).notes = ts.flatMap (·.notes) := rfl

end Traced
end DocTypes
