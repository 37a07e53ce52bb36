import TriLang.Source.Span

/-!
# Diagnostics

A `Diagnostic` is a message about a source text: how serious it is, what is said, which spans it is
about, and remarks. A `Sink` collects the diagnostics of one compilation and counts the errors among
them.

Main definitions: `Diagnostic`, `Diagnostic.primarySpan?`, `Sink`, `Sink.report`.
-/
namespace TriLang
set_option autoImplicit false

inductive Severity where
  | error
  | warning
  | note
deriving DecidableEq

def Severity.name : Severity → String
  | error => "error"
  | warning => "warning"
  | note => "note"

/-- The part a labelled span plays in a diagnostic. -/
inductive LabelStyle where
  /-- The place the diagnostic is about. -/
  | primary
  /-- A place that has to do with it. -/
  | secondary
deriving DecidableEq

def LabelStyle.name : LabelStyle → String
  | primary => "primary"
  | secondary => "secondary"

/-- A span with what is said about it, if anything. -/
structure Label where
  span : Span
  style : LabelStyle
  message? : Option String
deriving DecidableEq

structure Diagnostic where
  severity : Severity
  code? : Option String
  message : String
  labels : List Label
  notes : List String
  help? : Option String
deriving DecidableEq

namespace Diagnostic

def errorAt (code message : String) (span : Span) (label : String) : Diagnostic where
  severity := .error
  code? := some code
  message := message
  labels := [⟨span, .primary, some label⟩]
  notes := []
  help? := none

/-- Adds a place that has to do with the diagnostic. -/
def withSecondary (d : Diagnostic) (span : Span) (label : String) : Diagnostic :=
  { d with labels := d.labels ++ [⟨span, .secondary, some label⟩] }

def withNote (d : Diagnostic) (note : String) : Diagnostic := { d with notes := d.notes ++ [note] }

def withHelp (d : Diagnostic) (help : String) : Diagnostic := { d with help? := some help }

def withHelp? (d : Diagnostic) (help? : Option String) : Diagnostic :=
  match help? with
  | some help => d.withHelp help
  | none => d

def isError (d : Diagnostic) : Bool := d.severity = .error

/-- The span of the first primary label, or of the first label when none is primary. -/
def primarySpan? (d : Diagnostic) : Option Span :=
  match d.labels.find? (·.style = .primary) with
  | some label => some label.span
  | none => d.labels.head?.map Label.span

end Diagnostic

/-- The diagnostics of one compilation, in the order in which they came, and how many of them are
errors. -/
structure Sink where
  items : List Diagnostic
  errorCount : Nat

namespace Sink

/-- A sink that nothing was reported to. -/
def empty : Sink := ⟨[], 0⟩

def report (s : Sink) (d : Diagnostic) : Sink :=
  ⟨s.items ++ [d], if d.isError then s.errorCount + 1 else s.errorCount⟩

def reportAll (s : Sink) (ds : List Diagnostic) : Sink := ds.foldl report s

def hasErrors (s : Sink) : Bool := 0 < s.errorCount

end Sink

end TriLang
