import TriLang.Proofs.Lexing.Lines
import TriLang.Proofs.Source.Positions

/-! # Texts joined by the end of a line

Where a line ends, reading starts anew: what is read behind it is what is read of the rest by itself, so many
bytes and lines further on (`Token.shifted`), and what is read in front of it is what is read without the rest,
if there are no errors in it. `tokenize_append_line` puts both together. -/
namespace TriLang
open TriLang.Lexeme TriLang.Text
set_option autoImplicit false

/-! ## Further on in a text -/

def Span.shifted (bytes : Nat) (s : Span) : Span := ⟨s.start + bytes, s.stop + bytes⟩

/-- The same column, so many lines further down. -/
def Position.lowered (lines : Nat) (p : Position) : Position := ⟨p.line + lines, p.column⟩

/-- The same token so many bytes and lines further on. -/
def Token.shifted (bytes lines : Nat) (t : Token) : Token :=
  ⟨t.kind, t.spelling, t.span.shifted bytes, t.position.lowered lines⟩

def LexError.shifted (bytes : Nat) (e : LexError) : LexError := ⟨e.cause, e.span.shifted bytes⟩

def Lexeme.shifted (bytes : Nat) (l : Lexeme) : Lexeme := ⟨l.kind, l.text, l.start + bytes⟩

theorem Lexeme.span_shifted (bytes : Nat) (l : Lexeme) : (l.shifted bytes).span = l.span.shifted bytes := by
  rw [span, span, shifted, Span.shifted, Nat.add_right_comm]

theorem error?_shifted (bytes : Nat) (l : Lexeme) :
    (l.shifted bytes).error? = l.error?.map (LexError.shifted bytes) := by
  rw [error?, error?, span_shifted, shifted]
  cases l.kind <;> rfl

theorem token?_shifted {bytes down : Nat} {l : Lexeme} {lines lines' : LineMap}
    (hposition : lines'.position (l.start + bytes) = (lines.position l.start).lowered down) :
    (l.shifted bytes).token? lines' = (l.token? lines).map (Token.shifted bytes down) := by
  rw [token?, token?, span_shifted, shifted]
  cases l.kind with
  | separator => rfl
  | token kind => simp only [Option.map_some, Token.shifted, hposition]
  | bad cause => simp only [Option.map_some, Token.shifted, hposition]

theorem split_shifted (bytes offset : Nat) (text : List Char) :
    split (offset + bytes) text = (split offset text).map (Lexeme.shifted bytes) := by
  induction offset, text using split.induct with
  | case1 offset => rw [split, split]; rfl
  | case2 offset c rest kind extent hc text ih =>
    rw [split_cons hc, split_cons hc, List.map_cons, ← ih, Nat.add_right_comm]
    rfl

theorem words_shifted (bytes offset : Nat) (text : List Char) :
    words (offset + bytes) text = (words offset text).map (Lexeme.shifted bytes) := by
  rw [words, words, split_shifted, List.filter_map]
  rfl

/-! ## Positions -/

theorem byteLength_append_line (above below : List Char) :
    byteLength (above ++ '\n' :: below) = byteLength below + (byteLength above + 1) := by
  rw [byteLength_append, byteLength, show '\n'.utf8Size = 1 from rfl]
  omega

theorem Position.after_append_line (above front : List Char) :
    Position.after (above ++ '\n' :: front) = (Position.after front).lowered (above.count '\n' + 1) := by
  have hcolumn : (front.reverse ++ '\n' :: above.reverse).takeWhile (· ≠ '\n') =
      front.reverse.takeWhile (· ≠ '\n') := by
    rw [List.takeWhile_append]
    split
    · next hall =>
      rw [List.takeWhile_cons_of_neg (by simp), List.append_nil]
      exact (List.Sublist.eq_of_length (List.takeWhile_sublist _) hall).symm
    · rfl
  have hreverse : (above ++ '\n' :: front).reverse = front.reverse ++ '\n' :: above.reverse := by simp
  have hline : (above ++ '\n' :: front).count '\n' + 1 = front.count '\n' + 1 + (above.count '\n' + 1) := by
    rw [List.count_append, List.count_cons_self]
    omega
  rw [after, hreverse, hcolumn, hline]
  rfl

namespace LineMap
variable {above front : List Char} (behind : List Char)

theorem position_front (more : List Char) (hsize : byteLength front < wordSize) :
    (ofText (front ++ behind ++ more)).position (byteLength front) =
      (ofText (front ++ behind)).position (byteLength front) := by
  rw [position_ofText front behind hsize, List.append_assoc, position_ofText front _ hsize]

theorem position_behind_line (hsize : byteLength front + (byteLength above + 1) < wordSize) :
    (ofText (above ++ '\n' :: (front ++ behind))).position (byteLength front + (byteLength above + 1)) =
      ((ofText (front ++ behind)).position (byteLength front)).lowered (above.count '\n' + 1) := by
  have hlength := byteLength_append_line above front
  have hsize' : byteLength (above ++ '\n' :: front) < wordSize := hlength ▸ hsize
  have hposition := position_ofText (above ++ '\n' :: front) behind hsize'
  rw [hlength, List.append_assoc, List.cons_append] at hposition
  rw [hposition, position_ofText front behind (by omega), Position.after_append_line]

end LineMap

/-! ## Two texts -/

theorem filter_tokens (text : List Char) :
    (tokenize text).tokens.filter (·.kind ≠ .endOfText) =
      (words 0 text).filterMap (token? (LineMap.ofText text)) := by
  obtain ⟨front, stop, htokens, hstop, -, -, hfront⟩ := (tokenize_tiles text).exists_words
  have hwords : front = (words 0 text).filterMap (token? (LineMap.ofText text)) := by
    rw [token?_words]
    exact (List.append_inj' (htokens.symm.trans rfl) rfl).1
  rw [htokens, List.filter_append, List.filter_eq_self.2 fun t ht => by simpa using (hfront t ht).1, ← hwords]
  simp [hstop]

section
variable {above below : List Char}

theorem words_append_line (herrors : (tokenize above).errors = []) :
    words 0 (above ++ '\n' :: below) =
      words 0 above ++ (words 0 below).map (Lexeme.shifted (byteLength above + 1)) := by
  have hnone : (words 0 above).filterMap error? = [] := by
    rw [error?_words]
    exact herrors
  rw [words_append (.inr rfl) 0 hnone, words_blank rfl, ← words_shifted, Nat.add_assoc]
  rfl

variable (hsize : byteLength (above ++ '\n' :: below) < wordSize)
include hsize

theorem token?_above {l : Lexeme} (hl : l ∈ words 0 above) :
    l.token? (LineMap.ofText (above ++ '\n' :: below)) = l.token? (LineMap.ofText above) := by
  obtain ⟨front, behind, rfl, hstart, -⟩ := mem_split l (List.mem_of_mem_filter hl)
  have hfront : byteLength front < wordSize := by
    rw [byteLength_append, byteLength_append] at hsize
    omega
  have hposition := LineMap.position_front (l.text ++ behind) ('\n' :: below) hfront
  rw [← Nat.zero_add (byteLength front), ← hstart] at hposition
  rw [token?, token?, hposition]

theorem token?_below {l : Lexeme} (hl : l ∈ words 0 below) :
    (l.shifted (byteLength above + 1)).token? (LineMap.ofText (above ++ '\n' :: below)) =
      (l.token? (LineMap.ofText below)).map
        (Token.shifted (byteLength above + 1) (above.count '\n' + 1)) := by
  obtain ⟨front, behind, rfl, hstart, -⟩ := mem_split l (List.mem_of_mem_filter hl)
  refine token?_shifted ?_
  rw [hstart, Nat.zero_add]
  refine LineMap.position_behind_line _ ?_
  rw [byteLength_append_line, byteLength_append] at hsize
  omega

theorem endOfTextToken_below :
    endOfTextToken (above ++ '\n' :: below) =
      (endOfTextToken below).shifted (byteLength above + 1) (above.count '\n' + 1) := by
  have hlength := byteLength_append_line above below
  have hposition := LineMap.position_behind_line [] (hlength ▸ hsize)
  rw [List.append_nil] at hposition
  simp only [endOfTextToken, Token.shifted, Span.shifted, Span.point, hlength, hposition]

theorem tokens_append_line (herrors : (tokenize above).errors = []) :
    (tokenize (above ++ '\n' :: below)).tokens =
      (tokenize above).tokens.filter (·.kind ≠ .endOfText) ++
        (tokenize below).tokens.map (Token.shifted (byteLength above + 1) (above.count '\n' + 1)) := by
  have habove : (words 0 above).filterMap (token? (LineMap.ofText (above ++ '\n' :: below))) =
      (words 0 above).filterMap (token? (LineMap.ofText above)) :=
    List.filterMap_congr fun _ hl => token?_above hsize hl
  have hbelow : ((words 0 below).map (Lexeme.shifted (byteLength above + 1))).filterMap
        (token? (LineMap.ofText (above ++ '\n' :: below))) =
      ((words 0 below).filterMap (token? (LineMap.ofText below))).map
        (Token.shifted (byteLength above + 1) (above.count '\n' + 1)) := by
    rw [List.filterMap_map, List.map_filterMap]
    exact List.filterMap_congr fun _ hl => token?_below hsize hl
  rw [filter_tokens, tokenize, tokenize]
  dsimp only
  rw [← token?_words, ← token?_words, words_append_line herrors, List.filterMap_append, habove, hbelow,
    endOfTextToken_below hsize, List.map_append, List.map_singleton, List.append_assoc]

end

theorem errors_append_line {above below : List Char} (herrors : (tokenize above).errors = []) :
    (tokenize (above ++ '\n' :: below)).errors =
      (tokenize below).errors.map (LexError.shifted (byteLength above + 1)) := by
  have hnone : (words 0 above).filterMap error? = [] := by
    rw [error?_words]
    exact herrors
  rw [tokenize, tokenize]
  dsimp only
  rw [← error?_words, ← error?_words, words_append_line herrors, List.filterMap_append, hnone,
    List.nil_append, List.filterMap_map, List.map_filterMap]
  exact List.filterMap_congr fun l _ => error?_shifted _ l

/-- Behind the end of a line a text is read as by itself, and what is in front of it is read as by itself if
there are no errors in it. -/
theorem tokenize_append_line {above below : List Char} (herrors : (tokenize above).errors = [])
    (hsize : byteLength (above ++ '\n' :: below) < wordSize) :
    (tokenize (above ++ '\n' :: below)).tokens =
      (tokenize above).tokens.filter (·.kind ≠ .endOfText) ++
        (tokenize below).tokens.map (Token.shifted (byteLength above + 1) (above.count '\n' + 1)) ∧
    (tokenize (above ++ '\n' :: below)).errors =
      (tokenize below).errors.map (LexError.shifted (byteLength above + 1)) :=
  ⟨tokens_append_line hsize herrors, errors_append_line herrors⟩

/-- A comment ends with its line, and the quote below opens a literal of its own. -/
theorem tokenize_append_quoted_line :
    let above := "x ='\n'\n!é'".toList
    let below := "'é' '".toList
    (tokenize above).errors = [] ∧ byteLength (above ++ '\n' :: below) < wordSize ∧
      (tokenize (above ++ '\n' :: below)).tokens =
        (tokenize above).tokens.filter (·.kind ≠ .endOfText) ++
          (tokenize below).tokens.map (Token.shifted (byteLength above + 1) (above.count '\n' + 1)) ∧
      (tokenize (above ++ '\n' :: below)).errors =
        (tokenize below).errors.map (LexError.shifted (byteLength above + 1)) := by
  intro above below
  have herrors : (tokenize above).errors = [] := by decide +kernel
  have hsize : byteLength (above ++ '\n' :: below) < wordSize := by decide +kernel
  exact ⟨herrors, hsize, tokenize_append_line herrors hsize⟩

end TriLang
