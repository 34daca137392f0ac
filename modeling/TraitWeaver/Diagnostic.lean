/-!
# Diagnostics

What is wrong with the declarations of a round is no failure of the generator: it is noted down as a
diagnostic, and generation goes on with what is still in order.
-/

namespace TraitWeaver

/-- How serious a diagnostic is. -/
inductive Severity where
  /-- Something was skipped. -/
  | error
  /-- Something has no effect, but nothing is skipped. -/
  | warning
  | note
deriving DecidableEq, Repr

def Severity.text : Severity → String
  | error => "error"
  | warning => "warning"
  | note => "note"

/-- A message about a declaration, or a member of one, with a hint how to mend it. -/
structure Diagnostic where
  severity : Severity
  message : String
  location : Option String
  hint : Option String
deriving DecidableEq, Repr

namespace Diagnostic

def errorAt (location message : String) : Diagnostic := ⟨.error, message, some location, none⟩

def warningAt (location message : String) : Diagnostic := ⟨.warning, message, some location, none⟩

def withHint (d : Diagnostic) (hint : String) : Diagnostic := { d with hint := some hint }

def isError (d : Diagnostic) : Bool := d.severity = .error

def located (d : Diagnostic) : String :=
  match d.location with
  | some location => s!"{location}: {d.message}"
  | none => d.message

def text (d : Diagnostic) : String := s!"{d.severity.text}: {d.located}"

/-- The number of errors among diagnostics. -/
def errorCount (ds : List Diagnostic) : Nat := ds.countP (·.isError)

end Diagnostic

/-! ## Reports -/

/-- The severities of a report to the user. -/
inductive ReportLevel where
  | error
  | warning
  | advice
deriving DecidableEq, Repr

/-- A diagnostic as the command line reports it. -/
structure Report where
  message : String
  code : String
  level : ReportLevel
  help : Option String
deriving DecidableEq, Repr

def Diagnostic.report (d : Diagnostic) : Report :=
  { message := d.located
    code := s!"traitsmith::{d.severity.text}"
    level := match d.severity with
      | .error => .error
      | .warning => .warning
      | .note => .advice
    help := d.hint }

end TraitWeaver
