import Mathlib.Order.MinMax
import TriLang.Proofs.Parsing.Loops
import TriLang.Proofs.Syntax.Marks

/-! # The parser does not look at places

`moved f` changes all offsets in a token, a state of reading, a tree or an error by a function, and the rest
stays as it is. If the function keeps the order of offsets, then to read tokens that were moved is the same
as to read them and to move what comes of it. `Moving f keep read` says so of one reading function, where
`keep` moves what it builds; it is shown for one function after the other, and for the three loops at once.
The whole program comes out as `parse_moved`. Without places altogether all offsets are 0
(`parse_unplaced`). -/
namespace TriLang
set_option autoImplicit false

def Token.unplaced (t : Token) : Token := ⟨t.kind, t.spelling, default, default⟩

def ParseError.unspanned (e : ParseError) : ParseError := ⟨e.cause, default⟩

def ParseResult.unspanned (r : ParseResult) : ParseResult :=
  ⟨r.program.unspanned, r.errors.map ParseError.unspanned⟩

section Moving
variable (f : Nat → Nat)

def Span.moved (s : Span) : Span := ⟨f s.start, f s.stop⟩

def Mark.moved (m : Mark) : Mark := ⟨m.id, m.span.moved f⟩

/-- The token under another span. Its line and column are lost. -/
def Token.moved (t : Token) : Token := ⟨t.kind, t.spelling, t.span.moved f, default⟩

def ParseError.moved (e : ParseError) : ParseError := ⟨e.cause, e.span.moved f⟩

def Program.moved (p : Program) : Program := ⟨p.command.mapMarks (.moved f), p.span.moved f⟩

def ParseResult.moved (r : ParseResult) : ParseResult :=
  ⟨r.program.moved f, r.errors.map (ParseError.moved f)⟩

namespace Parser

def State.moved (s : State) : State where
  rest := s.rest.map (Token.moved f)
  stop := s.stop.moved f
  readTo := f s.readTo
  nextId := s.nextId
  errors := s.errors.map (ParseError.moved f)
  abandoned := s.abandoned

def Parsed.moved {α : Type} (keep : α → α) (p : Parsed α) : Parsed α := ⟨keep p.node, p.after.moved f⟩

/-- To read after moving is the same as to move after reading. -/
def Moving {α : Type} (keep : α → α) (read : State → Parsed α) : Prop :=
  ∀ s, read (s.moved f) = (read s).moved f keep

end Parser

end Moving

theorem ParseResult.moved_id (r : ParseResult) : r.moved id = r := by
  have hmark : Mark.moved id = id := rfl
  have herror : ParseError.moved id = id := rfl
  rw [moved, Program.moved, hmark, herror, Command.mapMarks_id, List.map_id]
  rfl

variable {f : Nat → Nat}

namespace Parser

/-! ## Small steps -/

namespace State
variable (s : State)

theorem current_moved : (s.moved f).current = s.current.moved f := by
  unfold current moved
  cases s.rest <;> rfl

theorem kind_moved : (s.moved f).kind = s.kind := by
  rw [kind, current_moved]
  rfl

theorem start_moved : (s.moved f).start = f s.start := by
  rw [start, current_moved]
  rfl

theorem spelling_moved : (s.moved f).current.spelling = s.current.spelling := by
  rw [current_moved]
  rfl

theorem span_moved : (s.moved f).current.span = s.current.span.moved f := by
  rw [current_moved]
  rfl

theorem advance_moved : (s.moved f).advance = s.advance.moved f := by
  cases hrest : s.rest with
  | nil => simp [advance, moved, hrest]
  | cons t rest =>
    simp only [advance, moved, hrest, List.map_cons]
    rfl

theorem skipAll_moved : (s.moved f).skipAll = s.skipAll.moved f := by
  have hread : ((s.rest.map (Token.moved f)).getLast?.map (·.span.stop)).getD (f s.readTo) =
      f ((s.rest.getLast?.map (·.span.stop)).getD s.readTo) := by
    rw [List.getLast?_map]
    cases s.rest.getLast? <;> rfl
  simp only [skipAll, moved, hread, List.map_nil]

theorem report_moved (cause : ParseError.Cause) :
    (s.moved f).report cause = (s.report cause).moved f := by
  have hlength : (s.moved f).errors.length = s.errors.length := List.length_map _
  have habandoned : (s.moved f).abandoned = s.abandoned := rfl
  unfold report
  rw [hlength, habandoned, span_moved]
  by_cases h : (!s.abandoned && decide (s.errors.length < maxErrors)) = true
  · rw [if_pos h, if_pos h]
    simp [moved, ParseError.moved]
  · rw [if_neg h, if_neg h]

theorem expect_moved (kind : Token.Kind) : (s.moved f).expect kind = (s.expect kind).moved f := by
  unfold expect
  rw [kind_moved, advance_moved, report_moved]
  by_cases h : s.kind = kind
  · rw [if_pos h, if_pos h]
  · rw [if_neg h, if_neg h]

/-! ## Finished nodes -/

section
variable {α : Type} {keep : α → α} {build build' : Mark → α}

theorem finishAt_moved (span : Span) (h : ∀ m, build' (m.moved f) = keep (build m)) :
    (s.moved f).finishAt (span.moved f) build' = (s.finishAt span build).moved f keep := by
  have hnode := h ⟨s.nextId, span⟩
  simp only [finishAt, Parsed.moved]
  rw [← hnode]
  rfl

theorem finish_moved (hf : Monotone f) (start : Nat) (h : ∀ m, build' (m.moved f) = keep (build m)) :
    (s.moved f).finish (f start) build' = (s.finish start build).moved f keep := by
  have hspan : (s.moved f).spanFrom (f start) = (s.spanFrom start).moved f := by
    unfold spanFrom Span.moved
    rw [hf.map_max]
    rfl
  rw [finish, hspan]
  exact s.finishAt_moved (s.spanFrom start) h

theorem giveUp_moved (h : ∀ m, build' (m.moved f) = keep (build m)) :
    (s.moved f).giveUp build' = (s.giveUp build).moved f keep := by
  have habandon : (s.moved f).abandon = s.abandon.moved f := by
    unfold abandon
    rw [report_moved, skipAll_moved]
    rfl
  change (s.moved f).abandon.finishAt (s.moved f).abandon.current.span build' = _
  rw [habandon, span_moved]
  exact s.abandon.finishAt_moved s.abandon.current.span h

end

theorem readIdent_moved : Moving f (Ident.mapMarks (.moved f)) readIdent := by
  intro s
  unfold readIdent
  rw [advance_moved, span_moved, spelling_moved]
  exact finishAt_moved _ _ fun m => rfl

theorem readOperator_moved : Moving f (Operator.mapMarks (.moved f)) readOperator := by
  intro s
  unfold readOperator
  rw [advance_moved, span_moved, spelling_moved]
  exact finishAt_moved _ _ fun m => rfl

theorem expectIdent_moved (what : Expectation) :
    Moving f (Option.map (Ident.mapMarks (.moved f))) (expectIdent · what) := by
  intro s
  change (s.moved f).expectIdent what = (s.expectIdent what).moved f _
  unfold expectIdent
  rw [kind_moved, readIdent_moved, report_moved]
  by_cases h : s.kind = .identifier
  · rw [if_pos h, if_pos h]
    rfl
  · rw [if_neg h, if_neg h]
    rfl

end State

/-! ## Loops -/

theorem Loop.exhaust_moved {α : Type} {keep : α → α} (l l' : Loop α)
    (hgo : ∀ s, l'.goesOn (s.moved f) = l.goesOn s)
    (hround : ∀ a s, l'.round (keep a) (s.moved f) = (l.round a s).moved f keep) (a : α) (s : State) :
    l'.exhaust (keep a) (s.moved f) = (l.exhaust a s).moved f keep := by
  have hrun : ∀ n a s, l'.run n (keep a) (s.moved f) = (l.run n a s).moved f keep := by
    intro n
    induction n with
    | zero => intro a s; rfl
    | succ n ih =>
      intro a s
      rw [run, run, hgo, hround]
      cases l.goesOn s with
      | false => rfl
      | true => exact ih _ _
  have hlength : (s.moved f).rest.length = s.rest.length := List.length_map _
  rw [exhaust, exhaust, hlength]
  exact hrun _ a s

theorem expressionOf_moved (hf : Monotone f) {operand : State → Parsed Expr}
    (ho : ∀ s, Reads s (operand s).after) (hoperand : Moving f (Expr.mapMarks (.moved f)) operand) :
    Moving f (Expr.mapMarks (.moved f)) (expressionOf operand) := by
  intro s
  rw [expressionOf_eq_exhaust ho, expressionOf_eq_exhaust ho, hoperand, s.start_moved]
  refine Loop.exhaust_moved _ _ (fun s => ?_) (fun lhs s => ?_) _ _
  · simp only [operators, s.kind_moved]
  · simp only [operators, s.readOperator_moved, Parsed.moved, hoperand s.readOperator.after]
    exact State.finish_moved _ hf _ fun m => rfl

/-! ## Expressions -/

theorem primary_moved (hf : Monotone f) (levels : Nat) :
    Moving f (Expr.mapMarks (.moved f)) (primary levels) := by
  induction levels with
  | zero => intro s; exact s.giveUp_moved fun m => rfl
  | succ levels ih =>
    intro s
    rw [primary, primary, s.kind_moved, s.start_moved, s.spelling_moved]
    split
    · rw [s.advance_moved]
      exact State.finish_moved _ hf _ fun m => rfl
    · rw [s.advance_moved]
      exact State.finish_moved _ hf _ fun m => rfl
    · rw [s.readIdent_moved]
      exact State.finish_moved _ hf _ fun m => rfl
    · simp only [s.readOperator_moved, Parsed.moved, ih s.readOperator.after]
      exact State.finish_moved _ hf _ fun m => rfl
    · simp only [s.advance_moved, expressionOf_moved hf (primary_reads levels) ih s.advance,
        Parsed.moved, State.expect_moved]
    · rw [s.report_moved]
      exact State.finish_moved _ hf _ fun m => rfl

theorem expression_moved (hf : Monotone f) (levels : Nat) :
    Moving f (Expr.mapMarks (.moved f)) (expression levels) :=
  expressionOf_moved hf (primary_reads levels) (primary_moved hf levels)

/-! ## Parameters and declarations -/

theorem parameter_moved (hf : Monotone f) (levels : Nat) :
    Moving f (Param.mapMarks (.moved f)) (parameter levels) := by
  intro s
  unfold parameter
  rw [s.kind_moved, s.start_moved]
  split
  · simp only [expression_moved hf levels s, Parsed.moved]
    exact State.finish_moved _ hf _ fun m => rfl
  · split
    · simp only [s.advance_moved, s.advance.expectIdent_moved .name, Parsed.moved]
      cases (s.advance.expectIdent .name).node with
      | none => exact State.finish_moved _ hf _ fun m => rfl
      | some ident => exact State.finish_moved _ hf _ fun m => rfl
    · exact State.finish_moved _ hf _ fun m => rfl

theorem typeDenoter_moved :
    Moving f (Option.map (TypeDenoter.mapMarks (.moved f))) typeDenoter := by
  intro s
  unfold typeDenoter
  simp only [s.expectIdent_moved .typeName, Parsed.moved]
  cases (s.expectIdent .typeName).node with
  | none => rfl
  | some ident => rfl

theorem singleDeclaration_moved (hf : Monotone f) (levels : Nat) :
    Moving f (Decl.mapMarks (.moved f)) (singleDeclaration levels) := by
  intro s
  unfold singleDeclaration
  rw [s.kind_moved, s.start_moved]
  split
  · simp only [s.advance_moved, s.advance.expectIdent_moved .name, Parsed.moved,
      State.expect_moved, expression_moved hf levels ((s.advance.expectIdent .name).after.expect .is)]
    cases (s.advance.expectIdent .name).node with
    | none => exact State.finish_moved _ hf _ fun m => rfl
    | some ident => exact State.finish_moved _ hf _ fun m => rfl
  · simp only [s.advance_moved, s.advance.expectIdent_moved .name, Parsed.moved,
      typeDenoter_moved (s.advance.expectIdent .name).after]
    cases (s.advance.expectIdent .name).node with
    | none => exact State.finish_moved _ hf _ fun m => rfl
    | some ident =>
      cases (typeDenoter (s.advance.expectIdent .name).after).node with
      | none => exact State.finish_moved _ hf _ fun m => rfl
      | some denoter => exact State.finish_moved _ hf _ fun m => rfl
  · rw [s.report_moved]
    exact State.finish_moved _ hf _ fun m => rfl

theorem declaration_moved (hf : Monotone f) (levels : Nat) :
    Moving f (Decl.mapMarks (.moved f)) (declaration levels) := by
  intro s
  rw [declaration_eq_exhaust, declaration_eq_exhaust, singleDeclaration_moved hf, s.start_moved]
  refine Loop.exhaust_moved _ _ (fun s => ?_) (fun first s => ?_) _ _
  · simp only [declarations, s.kind_moved]
  · simp only [declarations, s.advance_moved, Parsed.moved,
      singleDeclaration_moved hf levels s.advance]
    exact State.finish_moved _ hf _ fun m => rfl

/-! ## Commands -/

theorem commandOf_moved (hf : Monotone f) {single : State → Parsed Command}
    (hc : ∀ s, Reads s (single s).after) (hsingle : Moving f (Command.mapMarks (.moved f)) single) :
    Moving f (Command.mapMarks (.moved f)) (commandOf single) := by
  intro s
  rw [commandOf_eq_exhaust hc, commandOf_eq_exhaust hc, hsingle, s.start_moved]
  refine Loop.exhaust_moved _ _ (fun s => ?_) (fun first s => ?_) _ _
  · simp only [commands, s.kind_moved]
  · simp only [commands, s.advance_moved, Parsed.moved, hsingle s.advance]
    exact State.finish_moved _ hf _ fun m => rfl

theorem namedCommand_moved (hf : Monotone f) (levels : Nat) :
    Moving f (Command.mapMarks (.moved f)) (namedCommand levels) := by
  intro s
  unfold namedCommand
  simp only [s.readIdent_moved, s.start_moved, Parsed.moved, State.kind_moved]
  split
  · simp only [State.advance_moved, parameter_moved hf levels s.readIdent.after.advance,
      Parsed.moved, State.expect_moved]
    exact State.finish_moved _ hf _ fun m => rfl
  · simp only [State.advance_moved, expression_moved hf levels s.readIdent.after.advance,
      Parsed.moved]
    exact State.finish_moved _ hf _ fun m => rfl
  · rw [State.report_moved]
    exact State.finish_moved _ hf _ fun m => rfl

theorem single_moved (hf : Monotone f) (levels : Nat) :
    Moving f (Command.mapMarks (.moved f)) (single levels) := by
  induction levels with
  | zero => intro s; exact s.giveUp_moved fun m => rfl
  | succ levels ih =>
    intro s
    have hcommand := commandOf_moved hf (single_reads levels) ih
    have hexpr := expression_moved hf levels
    have hdecl := declaration_moved hf levels
    rw [single, single, s.kind_moved, s.start_moved]
    split
    · exact namedCommand_moved hf levels s
    · simp only [s.advance_moved, hcommand s.advance, Parsed.moved, State.expect_moved]
    · simp only [s.advance_moved, hdecl s.advance, Parsed.moved, State.expect_moved,
        ih ((declaration levels s.advance).after.expect _), hcommand (State.expect _ _)]
      exact State.finish_moved _ hf _ fun m => rfl
    · simp only [s.advance_moved, hexpr s.advance, Parsed.moved, State.expect_moved,
        ih (State.expect _ _)]
      exact State.finish_moved _ hf _ fun m => rfl
    · simp only [s.advance_moved, hexpr s.advance, Parsed.moved, State.expect_moved,
        hcommand (State.expect _ _)]
      exact State.finish_moved _ hf _ fun m => rfl
    · simp only [s.advance_moved, ih s.advance, Parsed.moved, State.expect_moved,
        hexpr (State.expect _ _)]
      exact State.finish_moved _ hf _ fun m => rfl
    · rw [s.advance_moved]
      exact State.finish_moved _ hf _ fun m => rfl
    · exact State.finish_moved _ hf _ fun m => rfl

theorem command_moved (hf : Monotone f) (levels : Nat) :
    Moving f (Command.mapMarks (.moved f)) (command levels) :=
  commandOf_moved hf (single_reads levels) (single_moved hf levels)

/-! ## Whole programs -/

theorem stopToken_moved (hzero : f 0 = 0) (tokens : List Token) :
    stopToken (tokens.map (Token.moved f)) = (stopToken tokens).moved f := by
  have hfind : (tokens.map (Token.moved f)).find? (·.kind = .endOfText) =
      (tokens.find? (·.kind = .endOfText)).map (Token.moved f) := List.find?_map
  unfold stopToken
  rw [hfind, List.getLast?_map]
  cases tokens.find? (·.kind = .endOfText) with
  | some stop => rfl
  | none =>
    cases tokens.getLast? with
    | some last => rfl
    | none =>
      simp only [Token.moved, Span.moved, Span.point, Option.map_none, hzero]
      rfl

theorem initial_moved (hzero : f 0 = 0) (tokens : List Token) :
    initial (tokens.map (Token.moved f)) = (initial tokens).moved f := by
  have htake : (tokens.map (Token.moved f)).takeWhile (·.kind ≠ .endOfText) =
      (tokens.takeWhile (·.kind ≠ .endOfText)).map (Token.moved f) := List.takeWhile_map
  simp only [initial, State.moved, htake, stopToken_moved hzero, List.map_nil, hzero]

theorem lastOffset_moved (hzero : f 0 = 0) (tokens : List Token) :
    lastOffset (tokens.map (Token.moved f)) = f (lastOffset tokens) := by
  unfold lastOffset
  rw [List.getLast?_map]
  cases tokens.getLast? with
  | none => exact hzero.symm
  | some last => rfl

end Parser

open TriLang.Parser

/-- To read tokens that were moved is the same as to read them and to move what comes of it. -/
theorem parse_moved (hf : Monotone f) (hzero : f 0 = 0) (tokens : List Token) :
    parse (tokens.map (Token.moved f)) = (parse tokens).moved f := by
  have hcommand := command_moved hf maxDepth (initial tokens)
  simp only [parse, initial_moved hzero, hcommand, Parsed.moved, State.kind_moved, State.report_moved,
    State.start_moved, lastOffset_moved hzero]
  split <;> rfl

/-- Without places, tokens are read as the same program and with the same errors, but for the spans. -/
theorem parse_unplaced (tokens : List Token) :
    parse (tokens.map Token.unplaced) = (parse tokens).unspanned :=
  parse_moved monotone_const rfl tokens

end TriLang
