import TriLang.Proofs.Source.Positions

/-! # The lines of a text

A text is its lines with newlines between them (`Text.intercalate_lines`), and a line map finds each of them
by its number (`LineMap.lineText?_ofText`). The position of a place in the text leads back to it: the line with
that number, cut in front of that column, comes behind the lines above it (`LineMap.leadsTo_position`). -/
namespace TriLang
set_option autoImplicit false

namespace Text

/-! ## Lines -/

/-- The lines of a text, without the newlines between them. -/
def lines (text : List Char) : List (List Char) := text.splitOn '\n'

/-- Lines one below the other, each with the newline that ends it. -/
def closed (above : List (List Char)) : List Char := above.flatMap (· ++ ['\n'])

theorem intercalate_lines (text : List Char) : ['\n'].intercalate (lines text) = text :=
  List.intercalate_splitOn '\n'

theorem lines_append_line (above below : List Char) :
    lines (above ++ '\n' :: below) = lines above ++ lines below := List.splitOn_append_cons_self above below

theorem newline_not_mem_of_mem_lines {text line : List Char} (h : line ∈ lines text) : '\n' ∉ line := by
  induction text generalizing line with
  | nil =>
    obtain rfl : line = [] := by simpa [lines] using h
    simp
  | cons c text ih =>
    rw [lines, List.splitOn_cons_eq_if_modifyHead] at h
    by_cases hc : c = '\n'
    · rw [if_pos (by simpa using hc)] at h
      rcases List.mem_cons.1 h with rfl | h
      · simp
      · exact ih h
    · rw [if_neg (by simpa using hc)] at h
      obtain ⟨first, rest, hlines⟩ := List.exists_cons_of_ne_nil (List.splitOn_ne_nil '\n' text)
      rw [hlines, List.modifyHead_cons] at h
      rcases List.mem_cons.1 h with rfl | h
      · have hfirst : '\n' ∉ first := ih (by simp [lines, hlines])
        simpa [eq_comm, hfirst] using hc
      · exact ih (by simp [lines, hlines, h])

theorem endsLine_closed (above : List (List Char)) : EndsLine (closed above) := by
  rcases List.eq_nil_or_concat above with rfl | ⟨above, last, rfl⟩
  · exact .inl rfl
  · exact .inr ⟨closed above ++ last, by simp [closed]⟩

theorem count_closed {above : List (List Char)} (h : ∀ line ∈ above, '\n' ∉ line) :
    (closed above).count '\n' = above.length := by
  induction above with
  | nil => rfl
  | cons line above ih =>
    obtain ⟨hline, habove⟩ := List.forall_mem_cons.1 h
    have hrest := ih habove
    simp only [closed, List.flatMap_cons, List.count_append, List.count_eq_zero.2 hline] at hrest ⊢
    rw [hrest, List.length_cons]
    simp [Nat.add_comm]

theorem intercalate_append_cons (above : List (List Char)) (line : List Char) (below : List (List Char)) :
    ['\n'].intercalate (above ++ line :: below) =
      closed above ++ (line ++ below.flatMap ('\n' :: ·)) := by
  induction above with
  | nil =>
    induction below generalizing line with
    | nil => simp [closed]
    | cons next below ih =>
      have hrest := ih next
      rw [List.nil_append] at hrest ⊢
      rw [List.intercalate_cons_cons, hrest]
      simp [closed]
  | cons first above ih =>
    rw [List.cons_append, List.intercalate_cons_of_ne_nil (by simp), ih]
    simp [closed]

/-- A line in a text: the lines above it, each with its newline, and what follows the line. -/
theorem exists_of_getElem?_lines {text line : List Char} {i : Nat} (h : (lines text)[i]? = some line) :
    ∃ rest, text = closed ((lines text).take i) ++ (line ++ rest) ∧
      (closed ((lines text).take i)).count '\n' = i ∧ '\n' ∉ line ∧
      (rest = [] ∨ ∃ below, rest = '\n' :: below) := by
  obtain ⟨hi, hline⟩ := List.getElem?_eq_some_iff.1 h
  have hsplit : lines text = (lines text).take i ++ line :: (lines text).drop (i + 1) := by
    rw [← hline, List.getElem_cons_drop, List.take_append_drop]
  have hcount := count_closed fun l (hl : l ∈ (lines text).take i) =>
    newline_not_mem_of_mem_lines (List.mem_of_mem_take hl)
  refine ⟨((lines text).drop (i + 1)).flatMap ('\n' :: ·), ?_, ?_, ?_, ?_⟩
  · rw [← intercalate_append_cons, ← hsplit, intercalate_lines]
  · rw [hcount, List.length_take, Nat.min_eq_left (Nat.le_of_lt hi)]
  · exact newline_not_mem_of_mem_lines (List.mem_of_getElem? h)
  · cases (lines text).drop (i + 1) with
    | nil => exact .inl rfl
    | cons next below => exact .inr ⟨_, rfl⟩

theorem length_lines (text : List Char) : (lines text).length = text.count '\n' + 1 := by
  induction text with
  | nil => simp [lines]
  | cons c text ih =>
    rw [lines, List.splitOn_cons_eq_if_modifyHead, List.count_cons]
    split
    · rw [List.length_cons]
      exact congrArg (· + 1) ih
    · rw [List.length_modifyHead]
      exact ih

theorem count_newline_le (text : List Char) : text.count '\n' ≤ byteLength text := by
  induction text with
  | nil => exact Nat.le_refl 0
  | cons c text ih =>
    have hpos := c.utf8Size_pos
    rw [List.count_cons, byteLength]
    split <;> omega

theorem closed_lines (text : List Char) : closed (lines text) = text ++ ['\n'] := by
  obtain ⟨front, last, hlines⟩ :=
    (List.eq_nil_or_concat (lines text)).resolve_left (List.splitOn_ne_nil '\n' text)
  rw [List.concat_eq_append] at hlines
  have htext := intercalate_append_cons front last []
  rw [← hlines, intercalate_lines] at htext
  rw [hlines, htext]
  simp [closed]

/-- What stands in front of a line is the lines above it. -/
theorem closed_take_lines {above : List Char} (habove : EndsLine above) (rest : List Char) :
    closed ((lines (above ++ rest)).take (above.count '\n')) = above := by
  rcases habove with rfl | ⟨body, rfl⟩
  · rfl
  · have hcount : (body ++ ['\n']).count '\n' = (lines body).length := by
      rw [List.count_append, length_lines]
      rfl
    rw [hcount, List.append_assoc, List.singleton_append, lines_append_line, List.take_left, closed_lines]

end Text

open Text

namespace LineMap

/-! ## Looking up -/

theorem lineCount_ofText (text : List Char) : (ofText text).lineCount = text.count '\n' + 1 := by
  rw [lineCount, ofText, List.size_toArray, List.length_cons, length_startsFrom]

/-- The line behind the end of another one is found, up to where it ends itself. -/
theorem lineText?_closed {above line rest : List Char} (habove : EndsLine above) (hline : '\n' ∉ line)
    (hrest : rest = [] ∨ ∃ below, rest = '\n' :: below) (hsize : above.count '\n' + 1 < wordSize) :
    (ofText (above ++ (line ++ rest))).lineText? (above ++ (line ++ rest)) (above.count '\n' + 1) =
      some line := by
  have hcount : (above ++ line).count '\n' = above.count '\n' := by
    rw [List.count_append, List.count_eq_zero.2 hline, Nat.add_zero]
  rw [lineText?, Nat.mod_eq_of_lt hsize]
  dsimp only
  rw [getElem?_starts habove]
  dsimp only
  rcases hrest with rfl | ⟨below, rfl⟩
  · have hnone : (ofText (above ++ (line ++ []))).starts[above.count '\n' + 1]? = none := by
      rw [Array.getElem?_eq_none_iff, List.append_nil, ← hcount, ← lineCount_ofText]
      exact Nat.le_refl _
    rw [hnone]
    dsimp only
    rw [List.append_nil, byteLength_append]
    have hslice := slice?_append above line []
    rwa [List.append_nil] at hslice
  · have hclosed : EndsLine (above ++ line ++ ['\n']) := .inr ⟨_, rfl⟩
    have hnext := getElem?_starts hclosed below
    have hparts : above ++ line ++ ['\n'] ++ below = above ++ (line ++ '\n' :: below) := by simp
    rw [List.count_append, hcount, hparts] at hnext
    rw [show above.count '\n' + 1 = above.count '\n' + ['\n'].count '\n' from rfl, hnext]
    dsimp only
    rw [byteLength_append, byteLength_append, show byteLength ['\n'] = 1 from rfl, Nat.add_sub_cancel]
    exact slice?_append above line _

/-- The line with a number is found, if there is one. -/
theorem lineText?_ofText (text : List Char) {line : Nat} (hline : line < wordSize) :
    (ofText text).lineText? text line = if line = 0 then none else (lines text)[line - 1]? := by
  obtain _ | i := line
  · rfl
  rw [if_neg (Nat.succ_ne_zero i), Nat.add_sub_cancel]
  cases hi : (lines text)[i]? with
  | some line =>
    obtain ⟨rest, htext, hcount, hnewline, hrest⟩ := exists_of_getElem?_lines hi
    have hfound := lineText?_closed (endsLine_closed _) hnewline hrest (by rwa [hcount])
    rwa [hcount, ← htext] at hfound
  | none =>
    have hstarts : (ofText text).starts[i]? = none := by
      rw [Array.getElem?_eq_none_iff]
      have hcount := lineCount_ofText text
      rw [← length_lines, lineCount] at hcount
      rw [hcount]
      exact List.getElem?_eq_none_iff.1 hi
    rw [lineText?, Nat.mod_eq_of_lt hline]
    dsimp only
    rw [hstarts]

/-! ## Places -/

/-- The position leads to the place between the front part of a text and what is behind it. -/
structure LeadsTo (m : LineMap) (text : List Char) (p : Position) (front behind line : List Char) :
    Prop where
  /-- The line with that number is there, and has a character in front of each column up to that one. -/
  found : m.lineText? text p.line = some line
  column_pos : 1 ≤ p.column
  column_le : p.column - 1 ≤ line.length
  /-- The front part is the lines above it, each with its newline, and the line in front of the column. -/
  front_eq : front = closed ((lines text).take (p.line - 1)) ++ line.take (p.column - 1)
  /-- From the column on the line is the part behind, up to the next newline. -/
  behind_eq : line.drop (p.column - 1) = behind.takeWhile (· ≠ '\n')
  offset_eq : m.lineStart (p.line - 1) + byteLength (line.take (p.column - 1)) = byteLength front

/-- The position of a boundary leads back to it. -/
theorem leadsTo_position {front behind : List Char} (hsize : byteLength (front ++ behind) < wordSize - 1) :
    ∃ line, (ofText (front ++ behind)).LeadsTo (front ++ behind)
      ((ofText (front ++ behind)).position (byteLength front)) front behind line := by
  have hle := count_newline_le front
  rw [byteLength_append] at hsize
  rw [position_ofText front behind (by omega)]
  obtain ⟨above, line, rfl, habove, hline⟩ := exists_lastLine front
  have hrest : behind.dropWhile (· ≠ '\n') = [] ∨ ∃ below, behind.dropWhile (· ≠ '\n') = '\n' :: below := by
    have hhead := List.head?_dropWhile_not (fun c : Char => decide (c ≠ '\n')) behind
    cases hdrop : behind.dropWhile (· ≠ '\n') with
    | nil => exact .inl rfl
    | cons c below =>
      rw [hdrop] at hhead
      obtain rfl : c = '\n' := by simpa using hhead
      exact .inr ⟨below, rfl⟩
  have htail : '\n' ∉ line ++ behind.takeWhile (· ≠ '\n') := by
    rw [List.mem_append, not_or]
    exact ⟨hline, fun hmem => by simpa using List.all_eq_true.1 List.all_takeWhile _ hmem⟩
  have htext : above ++ ((line ++ behind.takeWhile (· ≠ '\n')) ++ behind.dropWhile (· ≠ '\n')) =
      above ++ line ++ behind := by
    rw [List.append_assoc line, List.takeWhile_append_dropWhile, List.append_assoc]
  have hcount : above.count '\n' ≤ (above ++ line).count '\n' := by
    rw [List.count_append]
    omega
  have hfound := lineText?_closed habove htail hrest (by omega)
  rw [htext] at hfound
  rw [Position.after_lastLine habove hline]
  refine ⟨_, hfound, Nat.le_add_left 1 _, ?_, ?_, ?_, ?_⟩
  · simp
  · rw [Nat.add_sub_cancel, Nat.add_sub_cancel, List.append_assoc above, closed_take_lines habove,
      List.take_left]
  · rw [Nat.add_sub_cancel, List.drop_left]
  · rw [Nat.add_sub_cancel, Nat.add_sub_cancel, List.append_assoc above, lineStart_ofText habove,
      List.take_left, byteLength_append]

end LineMap

end TriLang
