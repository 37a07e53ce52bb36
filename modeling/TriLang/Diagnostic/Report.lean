import TriLang.Diagnostic.Basic
import TriLang.Diagnostic.Code
import TriLang.Source.LineMap
import TriLang.Text.Json

/-!
# Diagnostics for programs

A `Report` holds the diagnostics of one compilation together with what a program needs to show them:
the category of each code, and line, column and source line of each place. It is written as JSON.

Main definitions: `Report`, `Report.ofDiagnostics`, `Report.toJson`.
-/
namespace TriLang
set_option autoImplicit false

namespace Report

structure Place where
  position : Position
  offset : Nat
deriving DecidableEq

/-- The place a diagnostic is about, with its source line. -/
structure Location where
  place : Place
  sourceLine : List Char
deriving DecidableEq

/-- A label with the places of its two ends. -/
structure LabelEntry where
  role : LabelStyle
  message? : Option String
  start : Place
  stop : Place
deriving DecidableEq

structure Entry where
  severity : Severity
  code? : Option String
  category? : Option ErrorCategory
  message : String
  location? : Option Location
  labels : List LabelEntry
  notes : List String
  help? : Option String

def place (lines : LineMap) (offset : Nat) : Place := ⟨lines.position offset, offset⟩

def entry (lines : LineMap) (source : List Char) (d : Diagnostic) : Entry where
  severity := d.severity
  code? := d.code?
  category? := (d.code?.bind ErrorCode.find?).map ErrorCode.category
  message := d.message
  location? := d.primarySpan?.map fun span =>
    let place := place lines span.start
    ⟨place, (lines.lineText? source place.position.line).getD []⟩
  labels := d.labels.map fun l =>
    ⟨l.style, l.message?, place lines l.span.start, place lines l.span.stop⟩
  notes := d.notes
  help? := d.help?

end Report

/-- The diagnostics of one compilation, ready to be written. -/
structure Report where
  file : String
  phase : String
  entries : List Report.Entry
  errorCount : Nat
  warningCount : Nat

namespace Report

/-- The version of the written form. -/
def version : Nat := 1

def ofDiagnostics (ds : List Diagnostic) (source : List Char) (file phase : String) : Report :=
  let lines := LineMap.ofText source
  { file := file
    phase := phase
    entries := ds.map (entry lines source)
    errorCount := ds.countP (·.severity = .error)
    warningCount := ds.countP (·.severity = .warning) }

/-! ## Written form -/

/-- A field that is left out when it has no value. -/
def optional (key : String) (value? : Option Json) : List (String × Json) :=
  (value?.map fun value => (key, value)).toList

def Place.fields (p : Place) : List (String × Json) :=
  [("line", .number p.position.line), ("column", .number p.position.column),
    ("byte_offset", .number p.offset)]

def Location.toJson (l : Location) : Json :=
  .object (l.place.fields ++ [("source_line", .string (String.ofList l.sourceLine))])

def LabelEntry.toJson (l : LabelEntry) : Json :=
  .object ([("role", .string l.role.name)] ++ optional "message" (l.message?.map .string) ++
    [("start", .object l.start.fields), ("end", .object l.stop.fields)])

def Entry.toJson (e : Entry) : Json :=
  .object ([("severity", .string e.severity.name)] ++ optional "code" (e.code?.map .string) ++
    optional "category" (e.category?.map fun c => .string c.name) ++
    [("message", .string e.message)] ++ optional "location" (e.location?.map Location.toJson) ++
    [("labels", .array (e.labels.map LabelEntry.toJson))] ++
    optional "notes" (if e.notes.isEmpty then none else some (.array (e.notes.map .string))) ++
    optional "help" (e.help?.map .string))

def toJson (r : Report) : Json :=
  .object
    [("version", .number version), ("file", .string r.file), ("success", .bool (r.errorCount = 0)),
      ("phase", .string r.phase), ("diagnostics", .array (r.entries.map Entry.toJson)),
      ("error_count", .number r.errorCount), ("warning_count", .number r.warningCount)]

def toText (r : Report) : String := r.toJson.pretty

end Report

end TriLang
