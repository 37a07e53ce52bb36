import TriLang.Proofs.Diagnostic.Underlines
import TriLang.Proofs.Source.Bounds
import TriLang.Diagnostic.Report

/-! # Diagnostics are rendered in bounds

The labels of a diagnostic may lie anywhere: behind the text, inside a character, or with their ends the wrong
way round. The definitions of this module render a diagnostic with look-ups that have no result where an index
is out of range, and draw into a row only between places that are in order and in the row. They always have a
result, which is the rendering itself (`rendering_in_bounds`). -/
namespace TriLang
open TriLang.Text
set_option autoImplicit false

/-! ## Rendering for people, step by step -/

def Label.annotation? (lines : LineMap) (source : List Char) (l : Label) : Option Annotation := do
  let first ← lines.position? l.span.start
  let last ← lines.position? l.span.stop
  let stop :=
    if last.line = first.line then last.column
    else (lines.textOf source first.line).length + 1
  return ⟨first.column, max stop (first.column + 1), l.style, l.message?⟩

def annotatedLines? (lines : LineMap) (source : List Char) (labels : List Label) :
    Option (List AnnotatedLine) :=
  labels.foldlM
    (fun annotated label => do
      let number := (← lines.position? label.span.start).line
      let annotation ← label.annotation? lines source
      return insertAnnotation number (lines.textOf source number) annotation annotated)
    []

/-- Puts a mark on places of a row, if these are in order and the row has them. -/
def fillRow? (row : List Char) (start stop : Nat) (c : Char) : Option (List Char) :=
  if start ≤ stop ∧ stop ≤ row.length then some (fillRow row start stop c) else none

def markRow? (row : List Char) (a : Annotation) : Option (List Char) :=
  let places := a.places row.length
  fillRow? row places.1 places.2 a.style.underlineMark

def underline? (l : AnnotatedLine) : Option (List Char) := do
  let row ← l.drawingOrder.foldlM markRow? (List.replicate (underlineWidth l.text) ' ')
  return trimRow row

def annotationRows? (colour : Bool) (gutter : Nat) (l : AnnotatedLine) : Option String := do
  let row ← underline? l
  if row.isEmpty then return ""
  let drawn := margin colour gutter ++ " " ++ paintUnderline colour row
  match l.messages with
  | [] => return drawn ++ "\n"
  | [(_, style, message)] => return drawn ++ " " ++ style.paint colour message ++ "\n"
  | messages =>
    return drawn ++ "\n" ++ String.join (messages.reverse.map fun (column, style, message) =>
      margin colour gutter ++ " " ++ blanks (column - 1) ++ style.paint colour message ++ "\n")

def lineRows? (colour : Bool) (gutter : Nat) : Option Nat → List AnnotatedLine → Option String
  | _, [] => some ""
  | previous?, l :: rest => do
    let below ← annotationRows? colour gutter l
    let rows ← lineRows? colour gutter (some l.number) rest
    return separatorRow colour gutter previous? l.number ++ sourceRow colour gutter l ++ below ++ rows

namespace Diagnostic

def excerpt? (colour : Bool) (source : List Char) (file? : Option String) (d : Diagnostic) :
    Option String :=
  match d.primarySpan? with
  | none => some ""
  | some primary => do
    let lines := LineMap.ofText source
    let annotated ← annotatedLines? lines source d.labels
    let place ← lines.position? primary.start
    let rows ← lineRows? colour (gutterWidth annotated) none annotated
    return "  " ++ paint colour .blue "-->" ++ " " ++ file?.getD unnamedSource ++ ":" ++
      place.toText ++ "\n" ++ rows

def render? (colour : Bool) (source : List Char) (file? : Option String) (d : Diagnostic) :
    Option String := do
  let excerpt ← d.excerpt? colour source file?
  return d.header colour ++ excerpt ++ d.footer colour

end Diagnostic

/-! ## Rendering for programs, step by step -/

namespace Report

def place? (lines : LineMap) (offset : Nat) : Option Place := do
  return ⟨← lines.position? offset, offset⟩

def location? (lines : LineMap) (source : List Char) (span : Span) : Option Location := do
  let place ← place? lines span.start
  return ⟨place, (lines.lineText? source place.position.line).getD []⟩

def labelPlaces? (lines : LineMap) (l : Label) : Option LabelEntry := do
  let start ← place? lines l.span.start
  let stop ← place? lines l.span.stop
  return ⟨l.style, l.message?, start, stop⟩

def entryOf? (lines : LineMap) (source : List Char) (d : Diagnostic) : Option Entry := do
  let location ← d.primarySpan?.mapM (location? lines source)
  let labels ← d.labels.mapM (labelPlaces? lines)
  return {
    severity := d.severity
    code? := d.code?
    category? := (d.code?.bind ErrorCode.find?).map ErrorCode.category
    message := d.message
    location? := location
    labels := labels
    notes := d.notes
    help? := d.help? }

def ofDiagnostics? (ds : List Diagnostic) (source : List Char) (file phase : String) :
    Option Report := do
  let entries ← ds.mapM (entryOf? (LineMap.ofText source) source)
  return {
    file := file
    phase := phase
    entries := entries
    errorCount := ds.countP (·.severity = .error)
    warningCount := ds.countP (·.severity = .warning) }

end Report

/-! ## Steps that go well -/

theorem foldlM_eq_some {α β : Type} {step : β → α → Option β} {next : β → α → β} {as : List α}
    (h : ∀ a ∈ as, ∀ b, step b a = some (next b a)) (b : β) :
    as.foldlM step b = some (as.foldl next b) := by
  induction as generalizing b with
  | nil => rfl
  | cons a as ih =>
    obtain ⟨ha, has⟩ := List.forall_mem_cons.1 h
    rw [List.foldlM_cons, ha, Option.bind_eq_bind, Option.bind_some, List.foldl_cons]
    exact ih has _

theorem mapM_eq_some {α β : Type} {step : α → Option β} {next : α → β} {as : List α}
    (h : ∀ a ∈ as, step a = some (next a)) : as.mapM step = some (as.map next) := by
  induction as with
  | nil => rfl
  | cons a as ih =>
    obtain ⟨ha, has⟩ := List.forall_mem_cons.1 h
    rw [List.mapM_cons, ha, ih has]
    rfl

/-! ## Drawing -/

theorem markRow?_eq (row : List Char) (a : Annotation) :
    markRow? row a = some (markRow row a) :=
  if_pos ⟨a.places_ordered _, a.places_stop_le _⟩

theorem underline?_eq (l : AnnotatedLine) : underline? l = some (underline l) := by
  rw [underline?, foldlM_eq_some fun a _ row => markRow?_eq row a]
  rfl

theorem annotationRows?_eq (colour : Bool) (gutter : Nat) (l : AnnotatedLine) :
    annotationRows? colour gutter l = some (annotationRows colour gutter l) := by
  rw [annotationRows?, annotationRows, underline?_eq, Option.bind_eq_bind, Option.bind_some]
  cases (underline l).isEmpty with
  | true => rfl
  | false => rcases l.messages with _ | ⟨first, _ | ⟨second, rest⟩⟩ <;> rfl

theorem lineRows?_eq (colour : Bool) (gutter : Nat) (previous? : Option Nat)
    (annotated : List AnnotatedLine) :
    lineRows? colour gutter previous? annotated = some (lineRows colour gutter previous? annotated) := by
  induction annotated generalizing previous? with
  | nil => rfl
  | cons l rest ih =>
    rw [lineRows?, annotationRows?_eq, ih]
    rfl

/-! ## Labels anywhere -/

/-- The ends are offsets that leave room in a word for the column behind them. Nothing else is asked. -/
def Span.FitsWord (s : Span) : Prop := s.start + 1 < wordSize ∧ s.stop + 1 < wordSize

theorem Diagnostic.exists_of_primarySpan? {d : Diagnostic} {span : Span}
    (h : d.primarySpan? = some span) : ∃ l ∈ d.labels, l.span = span := by
  unfold primarySpan? at h
  split at h
  · next l hfind => exact ⟨l, List.mem_of_find?_eq_some hfind, Option.some.inj h⟩
  · obtain ⟨l, hhead, hspan⟩ := Option.map_eq_some_iff.1 h
    exact ⟨l, List.mem_of_mem_head? hhead, hspan⟩

section
variable {source : List Char} (hsource : byteLength source + 1 < wordSize)
include hsource

theorem Label.annotation?_eq {l : Label} (hl : l.span.FitsWord) :
    l.annotation? (.ofText source) source = some (l.annotation (.ofText source) source) := by
  rw [annotation?, LineMap.position?_ofText hsource hl.1, LineMap.position?_ofText hsource hl.2]
  rfl

theorem annotatedLines?_eq {labels : List Label} (hlabels : ∀ l ∈ labels, l.span.FitsWord) :
    annotatedLines? (.ofText source) source labels =
      some (annotatedLines (.ofText source) source labels) := by
  refine foldlM_eq_some (fun l hl annotated => ?_) []
  rw [LineMap.position?_ofText hsource (hlabels l hl).1, Label.annotation?_eq hsource (hlabels l hl)]
  rfl

namespace Diagnostic
variable {d : Diagnostic} (hd : ∀ l ∈ d.labels, l.span.FitsWord)
include hd

theorem excerpt?_eq (colour : Bool) (file? : Option String) :
    d.excerpt? colour source file? = some (d.excerpt colour source file?) := by
  unfold excerpt? excerpt
  cases hspan : d.primarySpan? with
  | none => rfl
  | some primary =>
    obtain ⟨l, hl, rfl⟩ := exists_of_primarySpan? hspan
    dsimp only
    rw [annotatedLines?_eq hsource hd, Option.bind_eq_bind, Option.bind_some,
      LineMap.position?_ofText hsource (hd l hl).1, Option.bind_eq_bind, Option.bind_some, lineRows?_eq]
    rfl

theorem render?_eq (colour : Bool) (file? : Option String) :
    d.render? colour source file? = some (d.render colour source file?) := by
  rw [render?, excerpt?_eq hsource hd]
  rfl

end Diagnostic

namespace Report

theorem location?_eq {span : Span} (hspan : span.FitsWord) :
    location? (.ofText source) source span =
      some ⟨place (.ofText source) span.start,
        ((LineMap.ofText source).lineText? source
          (place (.ofText source) span.start).position.line).getD []⟩ := by
  rw [location?, place?, LineMap.position?_ofText hsource hspan.1]
  rfl

theorem labelPlaces?_eq {l : Label} (hl : l.span.FitsWord) :
    labelPlaces? (.ofText source) l = some ⟨l.style, l.message?, place (.ofText source) l.span.start,
      place (.ofText source) l.span.stop⟩ := by
  rw [labelPlaces?, place?, place?, LineMap.position?_ofText hsource hl.1,
    LineMap.position?_ofText hsource hl.2]
  rfl

theorem entryOf?_eq {d : Diagnostic} (hd : ∀ l ∈ d.labels, l.span.FitsWord) :
    entryOf? (.ofText source) source d = some (entry (.ofText source) source d) := by
  have hlabels := mapM_eq_some fun l hl => labelPlaces?_eq hsource (hd l hl)
  rw [entryOf?, hlabels]
  cases hspan : d.primarySpan? with
  | none =>
    simp only [entry, hspan]
    rfl
  | some primary =>
    obtain ⟨l, hl, rfl⟩ := Diagnostic.exists_of_primarySpan? hspan
    rw [Option.mapM_some, location?_eq hsource (hd l hl)]
    simp only [entry, hspan]
    rfl

theorem ofDiagnostics?_eq {ds : List Diagnostic} (hds : ∀ d ∈ ds, ∀ l ∈ d.labels, l.span.FitsWord)
    (file phase : String) :
    ofDiagnostics? ds source file phase = some (ofDiagnostics ds source file phase) := by
  rw [ofDiagnostics?, mapM_eq_some fun d hd => entryOf?_eq hsource (hds d hd)]
  rfl

end Report

end

/-! ## Every text, every diagnostic -/

/-- The tables of a text that words can count hold words. Any offset is found on a line that is in the table and
starts no later, with the wide characters in front of it cut out in order; and diagnostics whose labels lie
anywhere are rendered, for people and for programs, with every step in bounds. -/
theorem rendering_in_bounds {source : List Char} (hsource : byteLength source + 1 < wordSize) :
    let lines := LineMap.ofText source
    ((∀ start ∈ lines.starts, start < wordSize) ∧ ∀ c ∈ lines.wide, c.offset < wordSize) ∧
    (∀ offset, offset + 1 < wordSize →
      lines.lineIndex offset < lines.starts.size ∧ lines.lineStart (lines.lineIndex offset) ≤ offset ∧
      lines.wideBefore (lines.lineStart (lines.lineIndex offset)) ≤ lines.wideBefore offset ∧
      lines.wideBefore offset ≤ lines.wide.size ∧
      lines.position? offset = some (lines.position offset)) ∧
    (∀ d : Diagnostic, (∀ l ∈ d.labels, l.span.FitsWord) → ∀ colour file?,
      d.render? colour source file? = some (d.render colour source file?)) ∧
    ∀ ds : List Diagnostic, (∀ d ∈ ds, ∀ l ∈ d.labels, l.span.FitsWord) → ∀ file phase,
      Report.ofDiagnostics? ds source file phase = some (Report.ofDiagnostics ds source file phase) := by
  intro lines
  refine ⟨⟨fun start hstart => ?_, fun c hc => ?_⟩, fun offset hoffset => ?_, fun d hd colour file? => ?_,
    fun ds hds file phase => ?_⟩
  · have hle := LineMap.starts_ofText_le source start hstart
    omega
  · have hlt := LineMap.wide_ofText_lt source c hc
    omega
  · obtain ⟨hline, hstart⟩ := LineMap.lineIndex_ofText_lt source offset
    obtain ⟨hordered, hsize⟩ := lines.wideBefore_le hstart
    exact ⟨hline, hstart, hordered, hsize, LineMap.position?_ofText hsource hoffset⟩
  · exact Diagnostic.render?_eq hsource hd colour file?
  · exact Report.ofDiagnostics?_eq hsource hds file phase

/-- The first label is far behind the text and its ends are the wrong way round; the second one ends inside a
character. -/
theorem rendering_in_bounds_reversed :
    let source := "a\n€b".toList
    let labels : List Label := [⟨⟨100, 3⟩, .primary, some "here"⟩, ⟨⟨2, 4⟩, .secondary, none⟩]
    let d : Diagnostic := ⟨.error, none, "odd", labels, [], none⟩
    (byteLength source + 1 < wordSize ∧ ∀ l ∈ d.labels, l.span.FitsWord) ∧
      (LineMap.ofText source).lineIndex 100 < (LineMap.ofText source).starts.size ∧
      d.render? false source none = some (d.render false source none) ∧
      Report.ofDiagnostics? [d] source "main.tri" "parsing" =
        some (Report.ofDiagnostics [d] source "main.tri" "parsing") := by
  intro source labels d
  have hsource : byteLength source + 1 < wordSize := by decide
  have hlabels : ∀ l ∈ d.labels, l.span.FitsWord := by simp [d, labels, Span.FitsWord, wordSize]
  obtain ⟨-, hlookup, hrender, hreport⟩ := rendering_in_bounds hsource
  exact ⟨⟨hsource, hlabels⟩, (hlookup 100 (by decide)).1, hrender d hlabels false none,
    hreport [d] (by simpa using hlabels) "main.tri" "parsing"⟩

end TriLang
