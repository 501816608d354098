import DocTypes.Text.Basic

/-! # Diagnostics

Nothing in this library prints.  What a user should hear of is a `Diagnostic`: its kind, what it
says, and the path of the documented entity it is about.  `Diagnostic.text` is its printed form and
`Diagnostic.logRow` its form as an entry of a log, which knows only three levels. -/

namespace DocTypes

/-- What a diagnostic reports. -/
inductive DiagnosticKind where
  /-- Something needs attention, and the work goes on. -/
  | warning
  /-- Plain information. -/
  | information
  /-- A duck type was replaced. -/
  | duckType
  /-- Something was guessed, and the guess is likely right. -/
  | inference
  /-- Something is missing and not needed. -/
  | omission
  /-- Some work came to its end. -/
  | completion
  /-- The work cannot go on. -/
  | failure
  deriving DecidableEq

namespace DiagnosticKind

/-- Every kind, in the order in which they are listed to a user. -/
def all : List DiagnosticKind :=
  [warning, information, duckType, inference, omission, completion, failure]

/-- The name by which a user selects a kind. -/
def name : DiagnosticKind → Text
  | warning => "warn"
  | information => "info"
  | duckType => "duck"
  | inference => "infer"
  | omission => "omit"
  | completion => "done"
  | failure => "error"

/-- The mark in front of a printed diagnostic; all marks have one width. -/
def header : DiagnosticKind → Text
  | warning => "[WARN ]"
  | information => "[INFO ]"
  | duckType => "[DUCK ]"
  | inference => "[INFER]"
  | omission => "[OMIT ]"
  | completion => "[DONE ]"
  | failure => "[ERROR]"

/-- The kind of a name. -/
def named? (name : Text) : Option DiagnosticKind := all.find? (·.name == name)

end DiagnosticKind

/-- How urgent an entry of a log is. -/
inductive LogLevel where
  | information
  | warning
  | failure
  deriving DecidableEq

/-- An event that a user should hear of. -/
structure Diagnostic where
  kind : DiagnosticKind
  /-- The path of the documented entity that the event is about, if it is about one. -/
  item : Option Text
  message : Text
  deriving DecidableEq

/-- An entry of a log. -/
structure LogRow where
  level : LogLevel
  kind : DiagnosticKind
  /-- The path of the entity concerned, or nothing. -/
  item : Text
  message : Text
  deriving DecidableEq

namespace Diagnostic

/-- A diagnostic in print. -/
def text (d : Diagnostic) : Text :=
  match d.item with
  | some item => d.kind.header ++ " (" ++ item ++ ") " ++ d.message
  | none => d.kind.header ++ " " ++ d.message

/-- Warnings and failures keep their level in a log, and everything else informs. -/
def logRow (d : Diagnostic) : LogRow :=
  let level : LogLevel :=
    match d.kind with
    | .warning => .warning
    | .failure => .failure
    | _ => .information
  ⟨level, d.kind, d.item.getD [], d.message⟩

end Diagnostic
end DocTypes
