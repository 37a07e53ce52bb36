import TriLang.Diagnostic.Rendering
import TriLang.Diagnostic.Report
import TriLang.Proofs.Source.Lines

/-! # The places that diagnostics name

Line and column of a diagnostic are those of the place in the text at which its primary label starts, both
where it is shown to people (`Diagnostic.exists_render_eq`) and where it is written for programs
(`Report.field?_location`). That place can be found again from them (`LineMap.lines_invert_positions`). -/
namespace TriLang
open TriLang.Text
set_option autoImplicit false

/-- The value of a field of a document, if the document is an object. -/
def Json.field? (key : String) : Json → Option Json
  | .object fields => fields.lookup key
  | _ => none

/-! ## For programs -/

namespace Report

theorem lookup_optional (key name : String) (value? : Option Json) :
    (optional name value?).lookup key = if key = name then value? else none := by
  cases value? with
  | none => simp [optional]
  | some value =>
    by_cases hname : key = name
    · simp [optional, hname]
    · have hfalse : (key == name) = false := by simpa using hname
      simp [optional, hname, List.lookup_cons, hfalse]

theorem Entry.field?_location (e : Entry) :
    e.toJson.field? "location" = e.location?.map Location.toJson := by
  simp [Entry.toJson, Json.field?, List.lookup_append, lookup_optional, List.lookup_cons]

/-- The location of a diagnostic in a report, when its primary label is in a line that is there. -/
theorem field?_location {m : LineMap} {text line : List Char} {d : Diagnostic} {span : Span}
    (hspan : d.primarySpan? = some span)
    (hline : m.lineText? text (m.position span.start).line = some line) :
    (entry m text d).toJson.field? "location" = some (.object
      [("line", .number (m.position span.start).line), ("column", .number (m.position span.start).column),
        ("byte_offset", .number span.start), ("source_line", .string (String.ofList line))]) := by
  rw [Entry.field?_location]
  simp [entry, hspan, place, hline, Location.toJson, Place.fields]

theorem field?_diagnostics (ds : List Diagnostic) (text : List Char) (file phase : String) :
    (ofDiagnostics ds text file phase).toJson.field? "diagnostics" =
      some (.array (ds.map fun d => (entry (.ofText text) text d).toJson)) := by
  simp [toJson, Json.field?, ofDiagnostics, List.lookup_cons]

end Report

/-! ## For people -/

/-- Behind the header stands the position at which the primary label starts. -/
theorem Diagnostic.exists_render_eq {d : Diagnostic} {span : Span} (hspan : d.primarySpan? = some span)
    (colour : Bool) (text : List Char) (file? : Option String) : ∃ rows,
      d.render colour text file? = d.header colour ++ ("  " ++ paint colour .blue "-->" ++ " " ++
        file?.getD unnamedSource ++ ":" ++ ((LineMap.ofText text).position span.start).toText ++ "\n") ++
          rows := by
  rw [render, excerpt, hspan]
  exact ⟨_, by simp only [String.append_assoc]; rfl⟩

/-! ## Lines and places -/

/-- The lines that the map finds are those of the text. -/
structure LineMap.ListsLines (m : LineMap) (text : List Char) : Prop where
  isSome_iff : ∀ line < wordSize, (m.lineText? text line).isSome ↔ 1 ≤ line ∧ line ≤ m.lineCount
  newline_not_mem : ∀ line < wordSize, ∀ content, m.lineText? text line = some content → '\n' ∉ content
  joined : ∃ lines : List (List Char), lines.length = m.lineCount ∧
    (∀ i < m.lineCount, m.lineText? text (i + 1) = lines[i]?) ∧ ['\n'].intercalate lines = text

theorem LineMap.listsLines_ofText {text : List Char} (hsize : byteLength text < wordSize - 1) :
    (ofText text).ListsLines text := by
  have hcount : (lines text).length = (ofText text).lineCount := by
    rw [length_lines, lineCount_ofText]
  have hle := count_newline_le text
  constructor
  case isSome_iff =>
    intro line hline
    rw [lineText?_ofText text hline, ← hcount]
    split
    · next hzero => simp [hzero]
    · next hpos =>
      have hsome : ((lines text)[line - 1]?).isSome ↔ line - 1 < (lines text).length := by simp
      rw [hsome]
      omega
  case newline_not_mem =>
    intro line hline content hcontent
    rw [lineText?_ofText text hline] at hcontent
    split at hcontent
    · simp at hcontent
    · exact newline_not_mem_of_mem_lines (List.mem_of_getElem? hcontent)
  case joined =>
    refine ⟨lines text, hcount, fun i hi => ?_, intercalate_lines text⟩
    rw [lineCount_ofText] at hi
    rw [lineText?_ofText text (by omega), if_neg (Nat.succ_ne_zero i), Nat.add_sub_cancel]

/-- The diagnostic is shown at an offset of the text, with a line and a column and the text of the line. -/
structure Diagnostic.ShownAt (d : Diagnostic) (text : List Char) (offset : Nat) (p : Position)
    (line : List Char) : Prop where
  written : (Report.entry (.ofText text) text d).toJson.field? "location" = some (.object
    [("line", .number p.line), ("column", .number p.column), ("byte_offset", .number offset),
      ("source_line", .string (String.ofList line))])
  rendered : ∀ (colour : Bool) (file? : Option String), ∃ rows,
    d.render colour text file? = d.header colour ++ ("  " ++ paint colour .blue "-->" ++ " " ++
      file?.getD unnamedSource ++ ":" ++ toString p.line ++ ":" ++ toString p.column ++ "\n") ++ rows

theorem Diagnostic.shownAt_position {d : Diagnostic} {span : Span} (hspan : d.primarySpan? = some span)
    {text line : List Char}
    (hline : (LineMap.ofText text).lineText? text ((LineMap.ofText text).position span.start).line =
      some line) :
    d.ShownAt text span.start ((LineMap.ofText text).position span.start) line where
  written := Report.field?_location hspan hline
  rendered colour file? := by
    obtain ⟨rows, hrows⟩ := exists_render_eq hspan colour text file?
    have hplace : ∀ p : Position, p.toText = toString p.line ++ ":" ++ toString p.column := fun _ => rfl
    refine ⟨rows, ?_⟩
    rw [hrows, hplace]
    simp only [String.append_assoc]

/-- The lines of a text, put together again, give the text, and the position of a boundary leads back to the
boundary. A diagnostic about this boundary is shown, and written, with this position and the line there. -/
theorem LineMap.lines_invert_positions (text : List Char) (hsize : byteLength text < wordSize - 1) :
    (ofText text).ListsLines text ∧
    (∀ front behind, text = front ++ behind → ∃ line,
      (ofText text).LeadsTo text ((ofText text).position (byteLength front)) front behind line ∧
        ∀ (d : Diagnostic) span, d.primarySpan? = some span → span.start = byteLength front →
          d.ShownAt text span.start ((ofText text).position (byteLength front)) line) ∧
    ∀ ds file phase, (Report.ofDiagnostics ds text file phase).toJson.field? "diagnostics" =
      some (.array (ds.map fun d => (Report.entry (ofText text) text d).toJson)) := by
  refine ⟨listsLines_ofText hsize, ?_, fun ds => Report.field?_diagnostics ds text⟩
  rintro front behind rfl
  obtain ⟨line, hline⟩ := leadsTo_position hsize
  refine ⟨line, hline, fun d span hspan hstart => ?_⟩
  rw [← hstart]
  exact Diagnostic.shownAt_position hspan (hstart ▸ hline.found)

/-- A label at a character of three bytes, in the second of three lines, of which the last one is empty. -/
theorem LineMap.lines_invert_positions_label :
    let text := "é\nab€\n".toList
    let d := Diagnostic.errorAt "E0001" "unexpected character" ⟨5, 8⟩ "here"
    byteLength text < wordSize - 1 ∧ (ofText text).ListsLines text ∧
    d.ShownAt text 5 ⟨2, 3⟩ "ab€".toList := by
  intro text d
  have hsize : byteLength text < wordSize - 1 := by decide +kernel
  obtain ⟨hlines, hplaces, -⟩ := lines_invert_positions text hsize
  obtain ⟨line, hleads, hshown⟩ := hplaces "é\nab".toList "€\n".toList (by decide +kernel)
  have hposition : (ofText text).position (byteLength "é\nab".toList) = ⟨2, 3⟩ := by decide +kernel
  rw [hposition] at hleads hshown
  have hfound : (ofText text).lineText? text 2 = some "ab€".toList := by decide +kernel
  obtain rfl : "ab€".toList = line := Option.some.inj (hfound.symm.trans hleads.found)
  exact ⟨hsize, hlines, hshown d ⟨5, 8⟩ rfl (by decide +kernel)⟩

end TriLang
