import TriLang.Diagnostic.Basic
import TriLang.Source.LineMap
import TriLang.Text.Paint

/-!
# Diagnostics for people

A diagnostic is shown with the source lines it is about. After the header comes the place of the primary
label; then each line on which a label starts, with its number, and below it a row that underlines the
labelled columns: `^` for the primary label, `-` for others. Lines come in order, and a row with `...`
stands where lines are left out. Notes and the suggestion close the picture.

A label is underlined on the line where it starts, over at least one column. If several labels of a line
have messages, each message gets a row of its own below the underline.

Main definitions: `Annotation`, `annotatedLines`, `underline`, `Diagnostic.render`.
-/
namespace TriLang
set_option autoImplicit false

/-! ## Labels on lines -/

/-- A label as it lies on the line where it starts: the columns from `first` on and before `stop`. -/
structure Annotation where
  first : Nat
  stop : Nat
  style : LabelStyle
  message? : Option String
deriving DecidableEq

/-- A source line with the labels that start on it. -/
structure AnnotatedLine where
  number : Nat
  text : List Char
  annotations : List Annotation

/-- The text of a line, empty if there is no such line. -/
def LineMap.textOf (m : LineMap) (source : List Char) (line : Nat) : List Char :=
  (m.lineText? source line).getD []

/-- A label on the line where it starts. If it ends on another line it goes to the end of this one. -/
def Label.annotation (lines : LineMap) (source : List Char) (l : Label) : Annotation :=
  let first := lines.position l.span.start
  let last := lines.position l.span.stop
  let stop :=
    if last.line = first.line then last.column
    else (lines.textOf source first.line).length + 1
  ⟨first.column, max stop (first.column + 1), l.style, l.message?⟩

/-- Adds an annotation to the lines, which are kept in order. -/
def insertAnnotation (number : Nat) (text : List Char) (a : Annotation) :
    List AnnotatedLine → List AnnotatedLine
  | [] => [⟨number, text, [a]⟩]
  | line :: rest =>
    if number < line.number then ⟨number, text, [a]⟩ :: line :: rest
    else if number = line.number then
      { line with annotations := line.annotations ++ [a] } :: rest
    else line :: insertAnnotation number text a rest

/-- The lines on which labels start, each once and in order, with their labels. -/
def annotatedLines (lines : LineMap) (source : List Char) (labels : List Label) :
    List AnnotatedLine :=
  labels.foldl
    (fun annotated label =>
      let number := (lines.position label.span.start).line
      insertAnnotation number (lines.textOf source number) (label.annotation lines source) annotated)
    []

/-! ## Underlining -/

/-- Whether an annotation is drawn before another: primary ones first, then by column. -/
def Annotation.drawnBefore (a b : Annotation) : Bool :=
  if a.style = b.style then a.first ≤ b.first else a.style = .primary

/-- The annotations of a line in the order in which they are drawn. -/
def AnnotatedLine.drawingOrder (l : AnnotatedLine) : List Annotation :=
  l.annotations.mergeSort Annotation.drawnBefore

def LabelStyle.underlineMark : LabelStyle → Char
  | primary => '^'
  | secondary => '-'

/-- Puts the same mark on the places of a row from `start` on and before `stop`. -/
def fillRow (row : List Char) (start stop : Nat) (c : Char) : List Char :=
  row.take start ++ List.replicate (stop - start) c ++ row.drop stop

/-- The places in a row of the given width that an annotation takes up. -/
def Annotation.places (width : Nat) (a : Annotation) : Nat × Nat :=
  let start := min (a.first - 1) width
  (start, max (min (a.stop - 1) width) start)

/-- Draws an annotation into a row, over what is there. -/
def markRow (row : List Char) (a : Annotation) : List Char :=
  let places := a.places row.length
  fillRow row places.1 places.2 a.style.underlineMark

/-- How wide the row below a line is: there is room for as many columns as the line has bytes, and some
more behind its end. -/
def underlineWidth (text : List Char) : Nat := Text.byteLength text + 10

def trimRow (row : List Char) : List Char := (row.reverse.dropWhile (· = ' ')).reverse

/-- The row that underlines the labels of a line. -/
def underline (l : AnnotatedLine) : List Char :=
  trimRow (l.drawingOrder.foldl markRow (List.replicate (underlineWidth l.text) ' '))

/-! ## Writing the picture -/

def blanks (n : Nat) : String := String.ofList (List.replicate n ' ')

/-- A text with blanks before it, so that it has at least the given width. -/
def padLeft (width : Nat) (text : String) : String := blanks (width - text.length) ++ text

def LabelStyle.paint (colour : Bool) (style : LabelStyle) (message : String) : String :=
  match style with
  | primary => TriLang.paint colour .redBold message
  | secondary => TriLang.paint colour .blue message

/-- A row of marks, each run of one mark in its colour. -/
def paintUnderline (colour : Bool) (row : List Char) : String :=
  String.join ((row.splitBy (· == ·)).map fun run =>
    match run.head? with
    | some '^' => paint colour .redBold (String.ofList run)
    | some '-' => paint colour .blue (String.ofList run)
    | _ => String.ofList run)

/-- The messages of a line's labels, with the columns where the labels start, in drawing order. -/
def AnnotatedLine.messages (l : AnnotatedLine) : List (Nat × LabelStyle × String) :=
  l.drawingOrder.filterMap fun a => a.message?.map fun message => (a.first, a.style, message)

/-- The margin before what is said about a line. -/
def margin (colour : Bool) (gutter : Nat) : String :=
  blanks (gutter + 1) ++ " " ++ paint colour .blue "|"

def annotationRows (colour : Bool) (gutter : Nat) (l : AnnotatedLine) : String :=
  let row := underline l
  if row.isEmpty then ""
  else
    let drawn := margin colour gutter ++ " " ++ paintUnderline colour row
    match l.messages with
    | [] => drawn ++ "\n"
    | [(_, style, message)] => drawn ++ " " ++ style.paint colour message ++ "\n"
    | messages =>
      drawn ++ "\n" ++ String.join (messages.reverse.map fun (column, style, message) =>
        margin colour gutter ++ " " ++ blanks (column - 1) ++ style.paint colour message ++ "\n")

/-- The row of a source line: its number and its text. -/
def sourceRow (colour : Bool) (gutter : Nat) (l : AnnotatedLine) : String :=
  paint colour .blueBold (padLeft (gutter + 1) (toString l.number)) ++ " " ++
    paint colour .blue "|" ++ " " ++ String.ofList l.text ++ "\n"

/-- What stands before a line, given the number of the line shown before it: an empty row before the
first one, and dots where lines are left out. -/
def separatorRow (colour : Bool) (gutter : Nat) (previous? : Option Nat) (number : Nat) : String :=
  match previous? with
  | none => margin colour gutter ++ "\n"
  | some previous =>
    if previous + 1 < number then blanks gutter ++ " " ++ paint colour .blue "..." ++ "\n" else ""

/-- The rows of all lines, given the number of the line shown before them. -/
def lineRows (colour : Bool) (gutter : Nat) : Option Nat → List AnnotatedLine → String
  | _, [] => ""
  | previous?, l :: rest =>
    separatorRow colour gutter previous? l.number ++ sourceRow colour gutter l ++
      annotationRows colour gutter l ++ lineRows colour gutter (some l.number) rest

/-- The width of the widest line number, and at least 2. -/
def gutterWidth (annotated : List AnnotatedLine) : Nat :=
  max (toString ((annotated.getLast?.map AnnotatedLine.number).getD 1)).length 2

namespace Diagnostic

def paintSeverity (colour : Bool) : Severity → String
  | .error => paint colour .redBold "error"
  | .warning => paint colour .yellowBold "warning"
  | .note => paint colour .blueBold "note"

def header (colour : Bool) (d : Diagnostic) : String :=
  let code := match d.code? with
    | some code => "[" ++ paint colour .redBold code ++ "]"
    | none => ""
  paintSeverity colour d.severity ++ code ++ ": " ++ paint colour .bold d.message ++ "\n"

def remark (colour : Bool) (word text : String) : String :=
  blanks 3 ++ " " ++ paint colour .cyan "=" ++ " " ++ paint colour .cyanBold word ++ ": " ++ text ++
    "\n"

def footer (colour : Bool) (d : Diagnostic) : String :=
  String.join (d.notes.map (remark colour "note")) ++
    String.join (d.help?.toList.map (remark colour "help"))

def unnamedSource : String := "<source>"

/-- The rows between header and footer: the place, and the labelled lines. -/
def excerpt (colour : Bool) (source : List Char) (file? : Option String) (d : Diagnostic) : String :=
  match d.primarySpan? with
  | none => ""
  | some primary =>
    let lines := LineMap.ofText source
    let annotated := annotatedLines lines source d.labels
    "  " ++ paint colour .blue "-->" ++ " " ++ file?.getD unnamedSource ++ ":" ++
      (lines.position primary.start).toText ++ "\n" ++
      lineRows colour (gutterWidth annotated) none annotated

/-- The diagnostic as it is shown to people. -/
def render (colour : Bool) (source : List Char) (file? : Option String) (d : Diagnostic) : String :=
  d.header colour ++ d.excerpt colour source file? ++ d.footer colour

end Diagnostic

end TriLang
