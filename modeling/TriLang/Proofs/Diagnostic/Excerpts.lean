import TriLang.Proofs.Diagnostic.Labels
import TriLang.Proofs.Diagnostic.Underlines
import TriLang.Proofs.Source.Lines
import TriLang.Proofs.Source.Order

/-! # The lines that are shown

A diagnostic is shown with the lines on which its labels start (`Gathers`, `annotatedLines_gathers`), written
one below the other with the rows that belong to them (`picture`, `lineRows_plain`). What a phase reports has
its labels in the text, and a second label stands in front of the primary one, so that the carets stand under
the text that the primary label is about (`Diagnostic.Legible.pictured`). `render_picture` puts this
together. -/
namespace TriLang
open TriLang.Text
set_option autoImplicit false

/-! ## Labels by lines -/

/-- The number of the line on which a label starts. -/
def Label.line (m : LineMap) (l : Label) : Nat := (m.position l.span.start).line

section
variable {number : Nat} {text : List Char} {a : Annotation} {lines : List AnnotatedLine}

theorem insertAnnotation_exists_number {n : Nat} :
    (∃ x ∈ insertAnnotation number text a lines, x.number = n) ↔
      n = number ∨ ∃ x ∈ lines, x.number = n := by
  induction lines with
  | nil => simp [eq_comm, insertAnnotation]
  | cons line rest ih =>
    unfold insertAnnotation
    split
    · simp [eq_comm]
    · split
      · next heq =>
        subst heq
        simp [eq_comm]
      · simp only [List.mem_cons, exists_eq_or_imp, ih]
        exact or_left_comm

theorem insertAnnotation_pairwise (h : lines.Pairwise (·.number < ·.number)) :
    List.Pairwise (·.number < ·.number) <| insertAnnotation number text a lines := by
  induction lines with
  | nil => exact List.pairwise_singleton _ _
  | cons line rest ih =>
    obtain ⟨hline, hrest⟩ := List.pairwise_cons.1 h
    unfold insertAnnotation
    split
    · next hlt =>
      refine List.pairwise_cons.2 ⟨List.forall_mem_cons.2 ⟨hlt, fun x hx => ?_⟩, h⟩
      exact Nat.lt_trans hlt (hline x hx)
    · split
      · exact List.pairwise_cons.2 ⟨hline, hrest⟩
      · refine List.pairwise_cons.2 ⟨fun x hx => ?_, ih hrest⟩
        rcases insertAnnotation_exists_number.1 ⟨x, hx, rfl⟩ with hx | ⟨y, hy, hxy⟩
        · omega
        · exact hxy ▸ hline y hy

/-- A line after adding an annotation: another one than that of the annotation, or one that has got it. -/
theorem insertAnnotation_mem (h : lines.Pairwise (·.number < ·.number)) {x : AnnotatedLine}
    (hx : x ∈ insertAnnotation number text a lines) :
    (x ∈ lines ∧ x.number ≠ number) ∨
    (∃ y ∈ lines, y.number = number ∧ x = { y with annotations := y.annotations ++ [a] }) ∨
    (x = ⟨number, text, [a]⟩ ∧ ∀ y ∈ lines, y.number ≠ number) := by
  induction lines with
  | nil => exact .inr (.inr ⟨List.mem_singleton.1 hx, by simp⟩)
  | cons line rest ih =>
    obtain ⟨hline, hrest⟩ := List.pairwise_cons.1 h
    unfold insertAnnotation at hx
    split at hx
    · next hlt =>
      have hbehind : ∀ y ∈ line :: rest, number < y.number :=
        List.forall_mem_cons.2 ⟨hlt, fun y hy => Nat.lt_trans hlt (hline y hy)⟩
      rcases List.mem_cons.1 hx with rfl | hx
      · exact .inr (.inr ⟨rfl, fun y hy => (hbehind y hy).ne'⟩)
      · exact .inl ⟨hx, (hbehind x hx).ne'⟩
    · split at hx
      · next heq =>
        rcases List.mem_cons.1 hx with rfl | hx
        · exact .inr (.inl ⟨line, List.mem_cons_self, heq.symm, rfl⟩)
        · exact .inl ⟨List.mem_cons_of_mem _ hx, by rw [heq]; exact (hline x hx).ne'⟩
      · next hlt hne =>
        rcases List.mem_cons.1 hx with rfl | hx
        · exact .inl ⟨List.mem_cons_self, fun h => hne h.symm⟩
        · rcases ih hrest hx with ⟨hx, hother⟩ | ⟨y, hy, hsame⟩ | ⟨hnew, hnone⟩
          · exact .inl ⟨List.mem_cons_of_mem _ hx, hother⟩
          · exact .inr (.inl ⟨y, List.mem_cons_of_mem _ hy, hsame⟩)
          · exact .inr (.inr ⟨hnew, List.forall_mem_cons.2 ⟨fun h => hne h.symm, hnone⟩⟩)

end

/-- The lines are those on which labels start, each once and in order, each with its text and with the labels
that start on it. -/
structure Gathers (m : LineMap) (source : List Char) (labels : List Label)
    (annotated : List AnnotatedLine) : Prop where
  increasing : annotated.Pairwise (·.number < ·.number)
  lines : ∀ n, (∃ x ∈ annotated, x.number = n) ↔ ∃ l ∈ labels, l.line m = n
  text : ∀ x ∈ annotated, x.text = m.textOf source x.number
  annotations : ∀ x ∈ annotated,
    x.annotations = (labels.filter (·.line m = x.number)).map (Label.annotation m source)

theorem Gathers.insert {m : LineMap} {source : List Char} {labels : List Label}
    {annotated : List AnnotatedLine} (h : Gathers m source labels annotated) (l : Label) :
    Gathers m source (labels ++ [l]) <| insertAnnotation (l.line m) (m.textOf source (l.line m))
      (l.annotation m source) annotated where
  increasing := insertAnnotation_pairwise h.increasing
  lines n := by
    rw [insertAnnotation_exists_number, h.lines]
    simp [or_comm, or_and_right, exists_or, eq_comm]
  text x hx := by
    rcases insertAnnotation_mem h.increasing hx with ⟨hx, -⟩ | ⟨y, hy, -, rfl⟩ | ⟨rfl, -⟩
    · exact h.text x hx
    · exact h.text y hy
    · rfl
  annotations x hx := by
    rw [List.filter_append, List.map_append]
    rcases insertAnnotation_mem h.increasing hx with ⟨hx, hne⟩ | ⟨y, hy, hnumber, rfl⟩ | ⟨rfl, hnone⟩
    · rw [h.annotations x hx, List.filter_cons_of_neg (by simpa using fun h => hne h.symm)]
      simp
    · rw [h.annotations y hy, List.filter_cons_of_pos (by simp [hnumber])]
      rfl
    · have hother : labels.filter (·.line m = l.line m) = [] := by
        refine List.filter_eq_nil_iff.2 fun l' hl' => ?_
        obtain ⟨y, hy, hnumber⟩ := (h.lines _).2 ⟨l', hl', rfl⟩
        simpa [hnumber] using hnone y hy
      rw [hother, List.filter_cons_of_pos (by simp)]
      rfl

theorem annotatedLines_gathers (m : LineMap) (source : List Char) (labels : List Label) :
    Gathers m source labels (annotatedLines m source labels) := by
  induction labels using List.reverseRecOn with
  | nil => exact ⟨.nil, by simp [annotatedLines], by simp [annotatedLines], by simp [annotatedLines]⟩
  | append_singleton labels l ih =>
    rw [annotatedLines, List.foldl_concat]
    exact ih.insert l

theorem Gathers.mem_annotations {m : LineMap} {source : List Char} {labels : List Label}
    {annotated : List AnnotatedLine} (h : Gathers m source labels annotated) {x : AnnotatedLine}
    (hx : x ∈ annotated) {a : Annotation} :
    a ∈ x.annotations ↔ ∃ l ∈ labels, l.line m = x.number ∧ l.annotation m source = a := by
  rw [h.annotations x hx, List.mem_map]
  simp only [List.mem_filter, decide_eq_true_eq, and_assoc]

/-! ## The picture -/

/-- A line of the source, by its number and its text, and the rows below it. -/
structure ShownLine where
  number : Nat
  text : List Char
  below : List (List Char)

def AnnotatedLine.shown (l : AnnotatedLine) : ShownLine := ⟨l.number, l.text, l.below⟩

/-- The row of the line with its number, and the rows below it. -/
def ShownLine.rows (gutter : Nat) (l : ShownLine) : String :=
  barRow gutter (toString l.number) l.text ++ String.join (l.below.map (barRow gutter ""))

/-- The row for lines that are left out. -/
def dotsRow (gutter : Nat) : String := blanks gutter ++ " ...\n"

/-- The lines one below the other, with dots between lines that do not follow each other in the source. -/
def picture (gutter : Nat) : List ShownLine → String
  | [] => ""
  | [l] => l.rows gutter
  | l :: next :: rest =>
    l.rows gutter ++ (if l.number + 1 = next.number then "" else dotsRow gutter) ++
      picture gutter (next :: rest)

theorem sourceRow_plain (gutter : Nat) (l : AnnotatedLine) :
    sourceRow false gutter l = barRow gutter (toString l.number) l.text := by
  have hbar : " | " = " " ++ "|" ++ " " := rfl
  rw [sourceRow, barRow, hbar]
  simp only [paint, Bool.false_eq_true, if_false, String.append_assoc]

theorem separatorRow_plain (gutter : Nat) {above number : Nat} (h : above < number) :
    separatorRow false gutter (some above) number =
      if above + 1 = number then "" else dotsRow gutter := by
  change (if above + 1 < number then _ else _) = if above + 1 = number then _ else _
  split
  · have hdots : " ...\n" = " " ++ "..." ++ "\n" := rfl
    rw [if_neg (by omega), dotsRow, hdots]
    simp only [paint, Bool.false_eq_true, if_false, String.append_assoc]
  · rw [if_pos (by omega)]

theorem shown_rows_plain (gutter : Nat) {l : AnnotatedLine} (h : underline l ≠ []) :
    sourceRow false gutter l ++ annotationRows false gutter l = l.shown.rows gutter := by
  rw [sourceRow_plain, annotationRows_plain gutter h]
  rfl

/-- A line with what is written behind it: each further line comes with what separates it from the line
above. -/
theorem lineRows_behind (gutter : Nat) (l : AnnotatedLine) (rest : List AnnotatedLine)
    (hnumbers : (l :: rest).Pairwise (·.number < ·.number))
    (hrows : ∀ x ∈ l :: rest, underline x ≠ []) :
    sourceRow false gutter l ++ annotationRows false gutter l ++
      lineRows false gutter (some l.number) rest =
        picture gutter ((l :: rest).map AnnotatedLine.shown) := by
  induction rest generalizing l with
  | nil =>
    rw [shown_rows_plain gutter (hrows l List.mem_cons_self), lineRows, String.append_empty]
    rfl
  | cons next rest ih =>
    obtain ⟨hl, hnumbers⟩ := List.pairwise_cons.1 hnumbers
    obtain ⟨hrow, hrows⟩ := List.forall_mem_cons.1 hrows
    have hseparator : separatorRow false gutter (some l.number) next.number =
        if l.shown.number + 1 = next.shown.number then "" else dotsRow gutter :=
      separatorRow_plain gutter (hl next List.mem_cons_self)
    rw [shown_rows_plain gutter hrow, lineRows, hseparator, List.map_cons, List.map_cons, picture,
      ← List.map_cons, ← ih next hnumbers hrows]
    simp only [String.append_assoc]

theorem lineRows_plain (gutter : Nat) {annotated : List AnnotatedLine}
    (hnumbers : annotated.Pairwise (·.number < ·.number))
    (hrows : ∀ x ∈ annotated, underline x ≠ []) (hne : annotated ≠ []) :
    lineRows false gutter none annotated =
      blanks (gutter + 1) ++ " |\n" ++ picture gutter (annotated.map AnnotatedLine.shown) := by
  obtain ⟨l, rest, rfl⟩ := List.exists_cons_of_ne_nil hne
  have hfirst : separatorRow false gutter none l.number = blanks (gutter + 1) ++ " |\n" := by
    have hbar : " |\n" = " " ++ "|" ++ "\n" := rfl
    rw [separatorRow, margin, hbar]
    simp only [paint, Bool.false_eq_true, if_false, String.append_assoc]
  rw [← lineRows_behind gutter l rest hnumbers hrows, lineRows, hfirst]
  simp only [String.append_assoc]

/-! ## The rows below a line -/

section
variable {l : AnnotatedLine} (hcaptions : ∀ a ∈ l.annotations, ∀ message ∈ a.message?, IsCaption message)
include hcaptions

theorem isCaption_of_mem_messages {column : Nat} {style : LabelStyle} {message : String}
    (h : (column, style, message) ∈ l.messages) : IsCaption message := by
  obtain ⟨a, ha, hmessage⟩ := List.mem_filterMap.1 h
  obtain ⟨message, hsome, hsame⟩ := Option.map_eq_some_iff.1 hmessage
  obtain rfl : message = _ := congrArg (fun entry => entry.2.2) hsame
  exact hcaptions a (List.mem_mergeSort.1 ha) message hsome

/-- First below a line comes the underline, with no further carets behind it. -/
theorem exists_below : ∃ row more, l.below = row :: more ∧
    ∀ i : Nat, row[i]? = some '^' ↔ (underline l)[i]? = some '^' := by
  have hmessages := @isCaption_of_mem_messages l hcaptions
  unfold AnnotatedLine.below
  generalize l.messages = messages at hmessages ⊢
  rcases messages with _ | ⟨⟨column, style, message⟩, _ | ⟨second, rest⟩⟩
  · exact ⟨_, _, rfl, fun i => Iff.rfl⟩
  · refine ⟨_, _, rfl, fun i => ?_⟩
    by_cases hi : i < (underline l).length
    · rw [List.getElem?_append_left hi]
    · rw [List.getElem?_append_right (Nat.le_of_not_lt hi),
        List.getElem?_eq_none_iff.2 (Nat.le_of_not_lt hi)]
      refine iff_of_false (fun h => ?_) (by simp)
      rcases List.mem_cons.1 (List.mem_of_getElem? h) with hblank | hmessage
      · exact absurd hblank (by decide)
      · exact (hmessages List.mem_cons_self '^' hmessage).2 rfl
  · exact ⟨_, _, rfl, fun i => Iff.rfl⟩

theorem newline_notMem_below : ∀ row ∈ l.below, '\n' ∉ row := by
  have hmessages := @isCaption_of_mem_messages l hcaptions
  have hunderline : '\n' ∉ underline l := fun h => absurd (mem_underline h) (by decide)
  unfold AnnotatedLine.below
  generalize l.messages = messages at hmessages ⊢
  rcases messages with _ | ⟨⟨column, style, message⟩, _ | ⟨second, rest⟩⟩
  · exact List.forall_mem_singleton.2 hunderline
  · refine List.forall_mem_singleton.2 fun h => ?_
    rcases List.mem_append.1 h with h | h
    · exact hunderline h
    · rcases List.mem_cons.1 h with hblank | hmessage
      · exact absurd hblank (by decide)
      · exact (hmessages List.mem_cons_self '\n' hmessage).1 rfl
  · refine List.forall_mem_cons.2 ⟨hunderline, List.forall_mem_map.2 ?_⟩
    rintro ⟨column', style', message'⟩ hmem h
    rcases List.mem_append.1 h with hblank | hmessage
    · exact absurd (List.eq_of_mem_replicate hblank) (by decide)
    · exact (hmessages (List.mem_reverse.1 hmem) '\n' hmessage).1 rfl

end

/-! ## Labels in a text -/

namespace LineMap
variable {text : List Char} (hsize : byteLength text < wordSize - 1)
include hsize

/-- On its line a boundary is counted from 1 on, and stands behind the last character at most. -/
theorem exists_line_of_boundary {offset : Nat} (h : IsBoundary text offset) : ∃ line,
    (ofText text).lineText? text ((ofText text).position offset).line = some line ∧
      1 ≤ ((ofText text).position offset).column ∧
      ((ofText text).position offset).column - 1 ≤ line.length := by
  obtain ⟨front, behind, rfl, rfl⟩ := h
  obtain ⟨line, hleads⟩ := leadsTo_position hsize
  exact ⟨line, hleads.found, hleads.column_pos, hleads.column_le⟩

theorem position_lt_of_boundary {a b : Nat} (ha : IsBoundary text a) (hb : IsBoundary text b)
    (hlt : a < b) : (ofText text).position a < (ofText text).position b := by
  have hfits : b < wordSize := by
    have hle := hb.le
    omega
  obtain ⟨front, behind, rfl, rfl⟩ := ha
  obtain ⟨front', behind', htext, rfl⟩ := hb
  obtain ⟨more, rfl, -⟩ := exists_append_of_byteLength_le htext hlt.le
  rw [position_ofText front behind (by omega), htext, position_ofText _ behind' hfits]
  refine Position.after_lt_append front ?_
  rintro rfl
  simp at hlt

theorem position_le_of_boundary {a b : Nat} (ha : IsBoundary text a) (hb : IsBoundary text b)
    (hle : a ≤ b) : (ofText text).position a ≤ (ofText text).position b := by
  rcases Nat.eq_or_lt_of_le hle with rfl | hlt
  · exact Std.le_refl _
  · exact (position_lt_of_boundary hsize ha hb hlt).le

end LineMap

theorem Text.length_le_byteLength (text : List Char) : text.length ≤ byteLength text := by
  have hsurplus := LineMap.surplus_wideFrom 0 text
  omega

section
variable {text : List Char} (hsize : byteLength text < wordSize - 1) {l : Label}
  (hl : l.span.InText text)
include hsize hl

/-- The line on which a label starts is one of the text. -/
theorem Label.lineText?_line : (LineMap.ofText text).lineText? text (l.line (.ofText text)) =
    some ((LineMap.ofText text).textOf text (l.line (.ofText text))) := by
  obtain ⟨line, hline, -⟩ := LineMap.exists_line_of_boundary hsize hl.start
  rw [Label.line, LineMap.textOf, hline]
  rfl

theorem Label.getElem?_lines : 1 ≤ l.line (.ofText text) ∧ (lines text)[l.line (.ofText text) - 1]? =
    some ((LineMap.ofText text).textOf text (l.line (.ofText text))) := by
  have hfound := l.lineText?_line hsize hl
  have hlt : l.line (.ofText text) < wordSize := by
    obtain ⟨front, behind, htext, hfront⟩ := hl.start
    have hle := hl.start.le
    have hcount := count_newline_le front
    rw [Label.line, ← hfront, htext, LineMap.position_ofText front behind (by omega)]
    change front.count '\n' + 1 < wordSize
    omega
  rw [LineMap.lineText?_ofText text hlt] at hfound
  split at hfound
  · simp at hfound
  · exact ⟨by omega, hfound⟩

/-- An underline reaches one place further than the line at most, so that the row has room for it. -/
theorem Label.annotation_bounds : 1 ≤ (l.annotation (.ofText text) text).first ∧
    (l.annotation (.ofText text) text).first < (l.annotation (.ofText text) text).stop ∧
    (l.annotation (.ofText text) text).stop - 1 <
      underlineWidth ((LineMap.ofText text).textOf text (l.line (.ofText text))) := by
  obtain ⟨line, hline, hpos, hle⟩ := LineMap.exists_line_of_boundary hsize hl.start
  obtain ⟨last, hlast, hpos', hle'⟩ := LineMap.exists_line_of_boundary hsize hl.stop
  have htext : (LineMap.ofText text).textOf text (l.line (.ofText text)) = line := by
    rw [Label.line, LineMap.textOf, hline]
    rfl
  have hlength := length_le_byteLength line
  refine ⟨hpos, ?_, ?_⟩
  · simp only [Label.annotation]
    omega
  · rw [htext, underlineWidth]
    simp only [Label.annotation, LineMap.textOf, hline, Option.getD_some]
    split
    · next hsame =>
      rw [hsame, hline] at hlast
      obtain rfl := Option.some.inj hlast
      omega
    · omega

end

/-- A label that is not empty and ends in front of another one does not reach under it on its line. -/
theorem Label.annotation_stop_le {text : List Char} (hsize : byteLength text < wordSize - 1)
    {l l' : Label} (hl : l.span.InText text) (hl' : l'.span.InText text)
    (hne : l.span.start < l.span.stop) (hle : l.span.stop ≤ l'.span.start)
    (hline : l.line (.ofText text) = l'.line (.ofText text)) :
    (l.annotation (.ofText text) text).stop ≤ (l'.annotation (.ofText text) text).first := by
  have hlt := Position.lt_iff.1 (LineMap.position_lt_of_boundary hsize hl.start hl.stop hne)
  have hapart := Position.le_iff.1 (LineMap.position_le_of_boundary hsize hl.stop hl'.start hle)
  unfold Label.line at hline
  simp only [Label.annotation]
  rw [if_pos (by omega)]
  omega

/-! ## Diagnostics -/

/-- The lines are shown that a diagnostic is about, and the primary label is underlined. -/
structure Diagnostic.Pictured (text : List Char) (d : Diagnostic) (gutter : Nat) (shown : List ShownLine) :
    Prop where
  increasing : shown.Pairwise (·.number < ·.number)
  lines : ∀ n, (∃ s ∈ shown, s.number = n) ↔
    ∃ l ∈ d.labels, ((LineMap.ofText text).position l.span.start).line = n
  exact : ∀ s ∈ shown, 1 ≤ s.number ∧ (Text.lines text)[s.number - 1]? = some s.text
  /-- What is written for a line is one row for the line and one for each entry below it. -/
  rows : ∀ s ∈ shown, '\n' ∉ s.text ∧ ∀ row ∈ s.below, '\n' ∉ row
  /-- The bars behind the numbers stand one below the other. -/
  aligned : ∀ s ∈ shown, (toString s.number).length ≤ gutter
  carets : ∀ l ∈ d.labels, l.style = .primary → ∀ s ∈ shown,
    let first := (LineMap.ofText text).position l.span.start
    let last := (LineMap.ofText text).position l.span.stop
    s.number = first.line → ∃ row more, s.below = row :: more ∧ ∀ column, 1 ≤ column →
      (row[column - 1]? = some '^' ↔ first.column ≤ column ∧
        column < max (first.column + 1)
          (if last.line = first.line then last.column else s.text.length + 1))

/-- The labels of a diagnostic lie in the text, and all but the primary one are in front of that. -/
structure Diagnostic.Legible (text : List Char) (d : Diagnostic) (p : Label) : Prop where
  primary : p ∈ d.labels ∧ p.style = .primary
  inText : ∀ l ∈ d.labels, l.span.InText text
  captions : ∀ l ∈ d.labels, ∀ message ∈ l.message?, IsCaption message
  others : ∀ l ∈ d.labels, l = p ∨ l.style = .secondary ∧ l.span.start < l.span.stop ∧
    l.span.stop ≤ p.span.start

theorem Phase.exists_legible {text : List Char} {k : Phase} {d : Diagnostic} (h : d ∈ k.found text) :
    ∃ p, d.Legible text p ∧ d.primarySpan? = some p.span := by
  obtain ⟨span, previous?, hpoints, hspan, hprevious⟩ := exists_points h
  obtain ⟨message, hmessage, hlabels⟩ := hpoints.labels
  have hothers : ∀ l ∈ previous?.toList.map (⟨·, .secondary, some "previously declared here"⟩ : Span → Label),
      l.style = .secondary ∧ l.span.InText text ∧ l.message? = some "previously declared here" ∧
        l.span.start < l.span.stop ∧ l.span.stop ≤ span.start := by
    refine List.forall_mem_map.2 fun previous hmem => ?_
    obtain ⟨hplace, hne, hle⟩ := hprevious previous (Option.mem_toList.1 hmem)
    exact ⟨rfl, hplace, rfl, hne, hle⟩
  refine ⟨⟨span, .primary, some message⟩, ⟨?_, ?_, ?_, ?_⟩, ?_⟩
  · exact ⟨by rw [hlabels]; exact List.mem_cons_self, rfl⟩
  · rw [hlabels]
    exact List.forall_mem_cons.2 ⟨hspan, fun l hl => (hothers l hl).2.1⟩
  · rw [hlabels]
    refine List.forall_mem_cons.2 ⟨fun m hm => Option.some.inj hm ▸ hmessage, fun l hl m hm => ?_⟩
    rw [(hothers l hl).2.2.1] at hm
    exact Option.some.inj hm ▸ (by decide : IsCaption "previously declared here")
  · rw [hlabels]
    refine List.forall_mem_cons.2 ⟨.inl rfl, fun l hl => .inr ?_⟩
    obtain ⟨hstyle, -, -, hne, hle⟩ := hothers l hl
    exact ⟨hstyle, hne, hle⟩
  · rw [Diagnostic.primarySpan?, hlabels]
    rfl

namespace Diagnostic.Legible
variable {text : List Char} (hsize : byteLength text < wordSize - 1) {d : Diagnostic} {p : Label}
  (h : d.Legible text p) {x : AnnotatedLine}
  (hx : x ∈ annotatedLines (LineMap.ofText text) text d.labels)
include h hx

theorem isCaption_message : ∀ a ∈ x.annotations, ∀ message ∈ a.message?, IsCaption message := by
  intro a ha
  obtain ⟨l, hl, -, rfl⟩ := ((annotatedLines_gathers _ _ _).mem_annotations hx).1 ha
  exact h.captions l hl

include hsize

theorem getElem?_lines : 1 ≤ x.number ∧ (lines text)[x.number - 1]? = some x.text := by
  have hgathers := annotatedLines_gathers (LineMap.ofText text) text d.labels
  obtain ⟨l, hl, hline⟩ := (hgathers.lines x.number).1 ⟨x, hx, rfl⟩
  rw [hgathers.text x hx, ← hline]
  exact l.getElem?_lines hsize (h.inText l hl)

theorem underline_ne_nil : underline x ≠ [] := by
  have hgathers := annotatedLines_gathers (LineMap.ofText text) text d.labels
  obtain ⟨l, hl, hline⟩ := (hgathers.lines x.number).1 ⟨x, hx, rfl⟩
  obtain ⟨hpos, hlt, hroom⟩ := l.annotation_bounds hsize (h.inText l hl)
  rw [hline, ← hgathers.text x hx] at hroom
  exact TriLang.underline_ne_nil ((hgathers.mem_annotations hx).2 ⟨l, hl, hline, rfl⟩)
    (i := (l.annotation (.ofText text) text).first - 1) ⟨Nat.le_refl _, by omega⟩ (by omega)

/-- On the line of the primary label the carets are where that label is. -/
theorem caret_iff (hline : p.line (.ofText text) = x.number) (i : Nat) :
    (underline x)[i]? = some '^' ↔ (p.annotation (.ofText text) text).Covers i := by
  have hgathers := annotatedLines_gathers (LineMap.ofText text) text d.labels
  obtain ⟨hpos, hlt, hroom⟩ := p.annotation_bounds hsize (h.inText p h.primary.1)
  rw [hline, ← hgathers.text x hx] at hroom
  refine getElem?_underline ((hgathers.mem_annotations hx).2 ⟨p, h.primary.1, hline, rfl⟩) h.primary.2
    hroom.le (fun a ha => ?_) i
  obtain ⟨l, hl, hline', rfl⟩ := (hgathers.mem_annotations hx).1 ha
  rcases h.others l hl with rfl | ⟨hstyle, hne, hle⟩
  · exact .inl rfl
  · refine .inr ⟨hstyle, fun i hcovers hcovers' => ?_⟩
    have hclear := l.annotation_stop_le hsize (h.inText l hl) (h.inText p h.primary.1) hne hle
      (hline'.trans hline.symm)
    have hreached := hcovers.1
    have hreached' := hcovers'.2
    omega

end Diagnostic.Legible

theorem length_number_le {annotated : List AnnotatedLine}
    (hnumbers : annotated.Pairwise (·.number < ·.number)) :
    ∀ x ∈ annotated, (toString x.number).length ≤ gutterWidth annotated := by
  intro x hx
  obtain ⟨front, last, rfl⟩ :=
    (List.eq_nil_or_concat annotated).resolve_left (List.ne_nil_of_mem hx)
  rw [List.concat_eq_append] at hnumbers hx ⊢
  have hle : x.number ≤ last.number := by
    rcases List.mem_append.1 hx with hx | hx
    · exact ((List.pairwise_append.1 hnumbers).2.2 x hx last List.mem_cons_self).le
    · exact (congrArg AnnotatedLine.number (List.mem_singleton.1 hx)).le
  have hwidth : gutterWidth (front ++ [last]) = max (toString last.number).length 2 := by
    simp [gutterWidth]
  have hpos : 0 < gutterWidth (front ++ [last]) := by
    rw [hwidth]
    omega
  have hlast : (toString last.number).length ≤ gutterWidth (front ++ [last]) := by
    rw [hwidth]
    exact Nat.le_max_left _ _
  refine (Nat.length_repr_le_iff hpos).2 (Nat.lt_of_le_of_lt hle ?_)
  exact (Nat.length_repr_le_iff hpos).1 hlast

theorem Diagnostic.Legible.pictured {text : List Char} (hsize : byteLength text < wordSize - 1)
    {d : Diagnostic} {p : Label} (h : d.Legible text p) :
    d.Pictured text (gutterWidth (annotatedLines (.ofText text) text d.labels))
      ((annotatedLines (.ofText text) text d.labels).map AnnotatedLine.shown) := by
  have hgathers := annotatedLines_gathers (LineMap.ofText text) text d.labels
  constructor
  case increasing => exact List.pairwise_map.2 hgathers.increasing
  case lines =>
    intro n
    refine Iff.trans ?_ (hgathers.lines n)
    simp [AnnotatedLine.shown]
  case exact => exact List.forall_mem_map.2 fun x hx => h.getElem?_lines hsize hx
  case rows =>
    refine List.forall_mem_map.2 fun x hx => ⟨?_, newline_notMem_below (h.isCaption_message hx)⟩
    exact newline_not_mem_of_mem_lines (List.mem_of_getElem? (h.getElem?_lines hsize hx).2)
  case aligned => exact List.forall_mem_map.2 (length_number_le hgathers.increasing)
  case carets =>
    intro l hl hstyle
    obtain rfl : l = p := by
      rcases h.others l hl with rfl | ⟨hsecondary, -⟩
      · rfl
      · rw [hstyle] at hsecondary
        cases hsecondary
    refine List.forall_mem_map.2 fun x hx (hline : x.number = l.line (.ofText text)) => ?_
    obtain ⟨row, more, hbelow, hrow⟩ := exists_below (h.isCaption_message hx)
    refine ⟨row, more, hbelow, fun column hcolumn => ?_⟩
    have hpos := (l.annotation_bounds hsize (h.inText l hl)).1
    have htext : x.shown.text = (LineMap.ofText text).textOf text (l.line (.ofText text)) := by
      rw [← hline]
      exact hgathers.text x hx
    rw [hrow, h.caret_iff hsize hx hline.symm, htext]
    simp only [Label.line, Label.annotation, Annotation.Covers] at hpos ⊢
    omega

/-- The lines on which the labels of a diagnostic start are shown, each once and in order, with dots between
lines that do not follow each other. Below the line of the primary label the carets stand under the columns
from its start to its end, if that is on the line, or else to the end of the line, and under one column at
least. Nothing else in that row is a caret, whatever other label is drawn there. -/
theorem render_picture (text : List Char) (hsize : byteLength text < wordSize - 1) (k : Phase)
    (d : Diagnostic) (hd : d ∈ k.found text) (file? : Option String) :
    ∃ span gutter shown, d.primarySpan? = some span ∧ d.Pictured text gutter shown ∧
      d.render false text file? = d.header false ++
        ("  --> " ++ file?.getD Diagnostic.unnamedSource ++ ":" ++
          ((LineMap.ofText text).position span.start).toText ++ "\n") ++
        (blanks (gutter + 1) ++ " |\n") ++ picture gutter shown ++ d.footer false := by
  obtain ⟨p, hlegible, hspan⟩ := Phase.exists_legible hd
  have hgathers := annotatedLines_gathers (LineMap.ofText text) text d.labels
  have hne : annotatedLines (LineMap.ofText text) text d.labels ≠ [] := by
    obtain ⟨x, hx, -⟩ := (hgathers.lines _).2 ⟨p, hlegible.primary.1, rfl⟩
    exact List.ne_nil_of_mem hx
  refine ⟨p.span, _, _, hspan, hlegible.pictured hsize, ?_⟩
  have hrows := lineRows_plain (gutterWidth (annotatedLines (.ofText text) text d.labels))
    hgathers.increasing (fun x hx => hlegible.underline_ne_nil hsize hx) hne
  have harrow : "  --> " = "  " ++ "-->" ++ " " := rfl
  rw [Diagnostic.render, Diagnostic.excerpt, hspan, harrow]
  dsimp only
  rw [hrows]
  simp only [paint, Bool.false_eq_true, if_false, String.append_assoc]

/-- Two labels on one line, behind a character of two bytes. -/
theorem render_picture_redeclared :
    let text := "let const a ~ 'é'; var a Char in pass endlet pass".toList
    let d := (ResolveError.mk (.duplicate "a" ⟨10, 11⟩) ⟨24, 25⟩).toDiagnostic
    byteLength text < wordSize - 1 ∧ d ∈ Phase.identification.found text ∧
    ∃ span gutter shown, d.primarySpan? = some span ∧ d.Pictured text gutter shown ∧
      d.render false text none = d.header false ++
        ("  --> " ++ (none : Option String).getD Diagnostic.unnamedSource ++ ":" ++
          ((LineMap.ofText text).position span.start).toText ++ "\n") ++
        (blanks (gutter + 1) ++ " |\n") ++ picture gutter shown ++ d.footer false := by
  intro text d
  have hsize : byteLength text < wordSize - 1 := by decide +kernel
  have hd : d ∈ Phase.identification.found text := by decide +kernel
  exact ⟨hsize, hd, render_picture text hsize _ d hd none⟩

end TriLang
