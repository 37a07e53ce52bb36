import TriLang.Compilation.Listing
import TriLang.Proofs.Compilation.Declarations
import TriLang.Proofs.Compilation.Halting
import TriLang.Proofs.Lexing.Lines
import TriLang.Proofs.Parsing.Placement
import TriLang.Proofs.Printing.RoundTrip

/-! # The text of a listing is the program

A printed program consists of whole lines, and so does the table behind it: every line of the table is a
comment, for nothing that an entry tells holds the end of a line (`ListingEntry.OneLine`). Comments behind
whole lines without errors move the end of the text and nothing else (`tokenize_append_comments`). -/
namespace TriLang
open TriLang.Text TriLang.Lexeme
set_option autoImplicit false

/-! ## Comments behind a text -/

/-- Offsets from `stop` on become larger by `more`, and those in front of it stay. -/
def pushedFrom (stop more n : Nat) : Nat := if n < stop then n else n + more

theorem monotone_pushedFrom (stop more : Nat) : Monotone (pushedFrom stop more) := by
  intro n m hnm
  unfold pushedFrom
  split <;> split <;> omega

theorem pushedFrom_zero {stop : Nat} (hstop : 0 < stop) (more : Nat) : pushedFrom stop more 0 = 0 :=
  if_pos hstop

theorem Span.moved_pushedFrom {s : Span} {stop : Nat} (hle : s.start ≤ s.stop) (hlt : s.stop < stop)
    (more : Nat) : s.moved (pushedFrom stop more) = s := by
  rw [moved, pushedFrom, pushedFrom, if_pos (Nat.lt_of_le_of_lt hle hlt), if_pos hlt]

theorem Lexeme.moved_token? {l : Lexeme} {stop : Nat} (hl : l.span.stop < stop) (more : Nat)
    (lines lines' : LineMap) :
    (l.token? lines').map (Token.moved id) = (l.token? lines).map (Token.moved (pushedFrom stop more)) := by
  have hspan : l.span.moved id = l.span.moved (pushedFrom stop more) :=
    (Span.moved_pushedFrom (Nat.le_add_right _ _) hl more).symm
  unfold token?
  cases l.kind with
  | separator => rfl
  | token kind => simp only [Option.map_some, Token.moved, hspan]
  | bad cause => simp only [Option.map_some, Token.moved, hspan]

theorem endOfTextToken_append (text more : List Char) :
    (endOfTextToken (text ++ more)).moved id =
      (endOfTextToken text).moved (pushedFrom (byteLength text) (byteLength more)) := by
  simp [endOfTextToken, Token.moved, Span.moved, Span.point, pushedFrom, byteLength_append]

section Comments
variable {text : List Char} {bodies : List (List Char)}

/-- Behind whole lines without errors, lines of comments add nothing but their length. -/
theorem tokenize_append_comments (hline : text.getLast? = some '\n')
    (herrors : (tokenize text).errors = []) (hbodies : ∀ body ∈ bodies, '\n' ∉ body) :
    let more := bodies.flatMap comment
    (tokenize (text ++ more)).errors = [] ∧
      (tokenize (text ++ more)).tokens.map (Token.moved id) =
        (tokenize text).tokens.map (Token.moved (pushedFrom (byteLength text) (byteLength more))) := by
  intro more
  have hnone : (words 0 text).filterMap error? = [] := by
    rw [error?_words]
    exact herrors
  have hends : Closed text ∨ more.head? = some '\n' := .inl (.inr hline)
  have happend := words_append hends 0 hnone
  have hstop := words_stop (.inr hline) 0 hnone
  rw [words_comments hbodies, List.append_nil] at happend
  simp only [Nat.zero_add] at hstop
  constructor
  · change (split 0 (text ++ more)).filterMap error? = []
    rw [← error?_words, happend, hnone]
  · change (((split 0 (text ++ more)).filterMap _) ++ [endOfTextToken (text ++ more)]).map _ =
      (((split 0 text).filterMap _) ++ [endOfTextToken text]).map _
    rw [← token?_words, ← token?_words, happend, List.map_append, List.map_append, List.map_filterMap,
      List.map_filterMap, List.map_singleton, List.map_singleton, endOfTextToken_append]
    congr 1
    exact List.filterMap_congr fun l hl => moved_token? (hstop l hl) _ _ _

theorem parseText_append_comments (hline : text.getLast? = some '\n')
    (herrors : (tokenize text).errors = []) (hbodies : ∀ body ∈ bodies, '\n' ∉ body) :
    parseText (text ++ bodies.flatMap comment) =
      (parseText text).moved (pushedFrom (byteLength text) (byteLength (bodies.flatMap comment))) := by
  have hpos : 0 < byteLength text := byteLength_pos (by rintro rfl; simp at hline)
  have htokens := congrArg parse (tokenize_append_comments hline herrors hbodies).2
  rwa [parse_moved monotone_id rfl, parse_moved (monotone_pushedFrom _ _) (pushedFrom_zero hpos _),
    ParseResult.moved_id] at htokens

end Comments

theorem Layout.getLast?_render (width : Nat) (pieces : List Layout.Piece) :
    (Layout.render width pieces).getLast? = some '\n' := by
  unfold Layout.render
  dsimp only
  split
  · next h => exact h
  · exact List.getLast?_concat

/-! ## Lines of the table -/

namespace ListingEntry

/-- What the line of an entry says behind the `!`. -/
def remark (e : ListingEntry) : List Char :=
  (" " ++ e.position.toText ++ " " ++ e.kind ++ " " ++ e.name ++ ": " ++ e.type).toList

theorem toComment_eq (e : ListingEntry) : e.toComment = comment e.remark := by
  simp [toComment, comment, remark, String.toList_append]

/-- Nothing that the entry tells holds the end of a line. -/
structure OneLine (e : ListingEntry) : Prop where
  name : '\n' ∉ e.name.toList
  kind : '\n' ∉ e.kind.toList
  type : '\n' ∉ e.type.toList

end ListingEntry

theorem newline_not_mem_toString (n : Nat) : '\n' ∉ (toString n).toList := by
  intro h
  rw [Nat.toString_eq_ofList_toDigits, String.toList_ofList] at h
  exact absurd (Nat.isDigit_of_mem_toDigits (by decide) (by decide) h) (by decide)

theorem Position.newline_not_mem_toText (p : Position) : '\n' ∉ p.toText.toList := by
  have hline := newline_not_mem_toString p.line
  have hcolumn := newline_not_mem_toString p.column
  simp_all [toText, String.toList_append, show (toString ":").toList = [':'] from rfl]

theorem ListingEntry.OneLine.remark {e : ListingEntry} (h : e.OneLine) : '\n' ∉ e.remark := by
  have hposition := e.position.newline_not_mem_toText
  have hname := h.name
  have hkind := h.kind
  have htype := h.type
  simp_all [ListingEntry.remark]

namespace Listing

/-- What the lines of the table say behind the `!`. -/
def remarks (l : Listing) : List (List Char) :=
  if l.entries.isEmpty then [] else " declarations".toList :: l.entries.map ListingEntry.remark

theorem comments_eq (l : Listing) : l.comments = l.remarks.flatMap comment := by
  unfold comments remarks
  split
  · rfl
  · have hcomment : ListingEntry.toComment = fun e => comment e.remark :=
      funext ListingEntry.toComment_eq
    rw [List.flatMap_cons, List.flatMap_map, hcomment]
    rfl

theorem getLast?_toText (source : List Char) (width : Nat) (a : Analyzed) :
    (generate source width a).toText.getLast? = some '\n' := by
  have hprogram : (generate source width a).program.getLast? = some '\n' := Layout.getLast?_render _ _
  rw [toText, comments_eq, List.getLast?_append, List.getLast?_flatMap, hprogram]
  cases (generate source width a).remarks.reverse with
  | nil => rfl
  | cons body rest =>
    have hcomment : (comment body).getLast? = some '\n' := by
      rw [comment, ← List.cons_append, List.getLast?_concat]
    rw [List.findSome?_cons, hcomment]
    rfl

theorem getLast?_toBinary (l : Listing) : l.toBinary.toList.getLast? = some ']' := by
  unfold toBinary Json.pretty
  cases l.entries with
  | nil => rfl
  | cons e rest =>
    rw [List.map_cons, Json.prettyAt, String.toList_append]
    exact List.getLast?_concat

/-- The two forms of a listing are never the same text. -/
theorem toText_ne_toBinary (source : List Char) (width : Nat) (a : Analyzed) :
    String.ofList (generate source width a).toText ≠ (generate source width a).toBinary := by
  intro h
  have htext := getLast?_toText source width a
  rw [← String.toList_ofList (l := (generate source width a).toText), h, getLast?_toBinary] at htext
  exact absurd htext (by decide)

theorem newline_not_mem_remarks {l : Listing} (h : ∀ e ∈ l.entries, e.OneLine) :
    ∀ body ∈ l.remarks, '\n' ∉ body := by
  unfold remarks
  split
  · simp
  · refine List.forall_mem_cons.2 ⟨by decide, List.forall_mem_map.2 fun e he => (h e he).remark⟩

end Listing

/-! ## What the entries of a listing tell -/

theorem Spells.newline_not_mem {c : Char} {tail : List Char} (h : Spells .identifier c tail) :
    '\n' ∉ c :: tail := by
  obtain ⟨hc, htail⟩ := h.letters
  have hall : ∀ d ∈ c :: tail, d.isAlphanum = true :=
    List.forall_mem_cons.2 ⟨by simp [Char.isAlphanum, hc], htail⟩
  intro h
  exact absurd (hall _ h) (by decide)

theorem Symbol.Kind.newline_not_mem_describe (k : Symbol.Kind) : '\n' ∉ k.describe.toList := by
  cases k <;> simp [describe]

theorem Ty.newline_not_mem_name (t : Ty) : '\n' ∉ t.name.toList := by
  cases t <;> decide

theorem Node.WellPlaced.newline_not_mem {text : List Char} {name : Ident}
    (h : (Node.ident name).WellPlaced text) : '\n' ∉ name.name.toList := by
  obtain ⟨t, ht, hkind, hspelling, -⟩ := h.token_ident
  have hidentifier : IsSpelling .identifier t.spelling := by
    simpa [hkind] using (tokenize_placed text t ht).spelled
  obtain ⟨c, tail, hlist, hspells⟩ := hidentifier
  rw [← hspelling, hlist]
  exact hspells.newline_not_mem

theorem oneLine_of_mem_entries (text : List Char) (width : Nat) :
    ∀ e ∈ (Listing.generate text width (findings text)).entries, e.OneLine := by
  intro e he
  obtain ⟨s, hs, rfl⟩ := List.mem_map.1 he
  obtain ⟨d, hd, hmade⟩ := exists_of_forall₂ (resolve_declared (parseText text).program) s hs
  have hname := ((tree_wellPlaced text).name d hd).newline_not_mem
  refine ⟨?_, s.kind.newline_not_mem_describe, ?_⟩
  · rw [hmade]
    exact hname
  · change '\n' ∉ ((((findings text).symbolType? s.id).map Ty.name).getD _).toList
    cases (findings text).symbolType? s.id with
    | none => decide
    | some type => exact type.newline_not_mem_name

/-! ## The whole listing -/

/-- The text of a listing is read as the program in it, from the same tokens: the same tree with the same
numbers at all nodes, and the same errors. Only the end of the text lies further on. -/
theorem generate_text_reads_as_program (text : List Char) (width : Nat) (sink : Sink) (a : Analyzed)
    (h : (analyze text sink).outcome = .ok a) :
    let listing := Listing.generate text width a
    (tokenize listing.toText).errors = [] ∧
      (tokenize listing.toText).tokens.map Token.view =
        (tokenize listing.program).tokens.map Token.view ∧
      parseText listing.toText = (parseText listing.program).moved
        (pushedFrom (byteLength listing.program) (byteLength listing.comments)) := by
  intro listing
  obtain ⟨hnone, rfl⟩ := of_analyze_ok h
  have hlex : (tokenize text).errors = [] := List.map_eq_nil_iff.1 (hnone .lexing)
  have hparse : (parseText text).errors = [] := List.map_eq_nil_iff.1 (hnone .parsing)
  have hprinted : (tokenize listing.program).errors = [] :=
    (exists_derivation_of_print text width hlex hparse).1
  have hline : listing.program.getLast? = some '\n' := Layout.getLast?_render _ _
  have hbodies := Listing.newline_not_mem_remarks (oneLine_of_mem_entries text width)
  obtain ⟨herrors, htokens⟩ := tokenize_append_comments hline hprinted hbodies
  rw [Listing.toText, listing.comments_eq]
  refine ⟨herrors, ?_, parseText_append_comments hline hprinted hbodies⟩
  have hviews := congrArg (List.map Token.view) htokens
  rw [List.map_map, List.map_map] at hviews
  exact hviews

/-- The names that the text declares are in comments behind the program. -/
theorem generate_text_reads_as_program_declaring :
    let text := "let const c ~ 'x'; var n Integer in begin getint(var n); put(c) end endlet".toList
    ∃ a, (analyze text .empty).outcome = .ok a ∧
      let listing := Listing.generate text 2 a
      (tokenize listing.toText).errors = [] ∧
        (tokenize listing.toText).tokens.map Token.view =
          (tokenize listing.program).tokens.map Token.view ∧
        parseText listing.toText = (parseText listing.program).moved
          (pushedFrom (byteLength listing.program) (byteLength listing.comments)) := by
  intro text
  have haccepted : (analyze text .empty).outcome.isOk = true := by decide +kernel
  cases houtcome : (analyze text .empty).outcome with
  | error halted => simp [houtcome, Except.isOk, Except.toBool] at haccepted
  | ok a => exact ⟨a, rfl, generate_text_reads_as_program text 2 .empty a houtcome⟩

end TriLang
