import Mathlib.Logic.Relation
import TriLang.Syntax.Parser

/-! # What reading does to a state

Whatever a reading function reads, it changes the state only by a few kinds of `Step`: it passes over a
token, records an error, takes the next number for a node, or gives up at the nesting limit. Each reading
function makes a finite run of such steps (`primary_reads`, `single_reads`, …), so what one step
preserves holds of every state that reading reaches.

`State.Clean` says that nothing has gone wrong so far; a run that ends in a clean state was clean all
along (`Reads.clean`), and once reading has given up, the errors stay as they are
(`Reads.errors_of_abandoned`). -/
namespace TriLang.Parser
set_option autoImplicit false

/-- The state after giving up at the nesting limit. -/
def State.abandon (s : State) : State := { (s.report .tooDeep).skipAll with abandoned := true }

/-- One change that reading makes to a state. An error of too deep nesting comes from giving up only. -/
inductive Step : State → State → Prop where
  | advance (s : State) : Step s s.advance
  | report (s : State) (cause : ParseError.Cause) (h : cause ≠ .tooDeep) : Step s (s.report cause)
  | number (s : State) : Step s { s with nextId := s.nextId + 1 }
  | abandon (s : State) : Step s s.abandon

/-- Reading can lead from one state to the other. -/
abbrev Reads : State → State → Prop := Relation.ReflTransGen Step

namespace State

/-- Nothing has gone wrong so far. -/
def Clean (s : State) : Prop := s.errors = [] ∧ s.abandoned = false

/-- The end of the text stands behind the tokens to be read, and only there. -/
def WellFormed (s : State) : Prop :=
  s.stop.kind = .endOfText ∧ ∀ t ∈ s.rest, t.kind ≠ .endOfText

end State

/-! ## What a step keeps -/

@[simp] theorem State.report_rest (s : State) (cause : ParseError.Cause) :
    (s.report cause).rest = s.rest := by
  unfold report; split <;> rfl

@[simp] theorem State.report_stop (s : State) (cause : ParseError.Cause) :
    (s.report cause).stop = s.stop := by
  unfold report; split <;> rfl

@[simp] theorem State.report_abandoned (s : State) (cause : ParseError.Cause) :
    (s.report cause).abandoned = s.abandoned := by
  unfold report; split <;> rfl

theorem State.errors_report_ne_nil {s : State} (h : s.errors ≠ []) (cause : ParseError.Cause) :
    (s.report cause).errors ≠ [] := by
  unfold report
  split
  · simp
  · exact h

theorem State.Clean.errors_report {s : State} (h : s.Clean) (cause : ParseError.Cause) :
    (s.report cause).errors = [⟨cause, s.current.span⟩] := by
  obtain ⟨he, ha⟩ := h
  simp [report, he, ha, maxErrors]

theorem State.not_clean_report (s : State) (cause : ParseError.Cause) :
    ¬ (s.report cause).Clean := by
  rintro ⟨he, ha⟩
  rw [report_abandoned] at ha
  cases hs : s.errors with
  | nil => rw [State.Clean.errors_report ⟨hs, ha⟩] at he; simp at he
  | cons e es => exact errors_report_ne_nil (by simp [hs]) cause he

theorem State.advance_errors (s : State) : s.advance.errors = s.errors := by
  unfold advance; split <;> rfl

theorem State.advance_abandoned (s : State) : s.advance.abandoned = s.abandoned := by
  unfold advance; split <;> rfl

theorem State.advance_stop (s : State) : s.advance.stop = s.stop := by
  unfold advance; split <;> rfl

theorem State.advance_nextId (s : State) : s.advance.nextId = s.nextId := by
  unfold advance; split <;> rfl

theorem State.advance_rest (s : State) : s.advance.rest = s.rest.tail := by
  unfold advance
  split
  · next h => rw [h]; rfl
  · next h => rw [h]; rfl

theorem Step.clean {s t : State} (h : Step s t) (ht : t.Clean) : s.Clean := by
  cases h with
  | advance => rwa [State.Clean, State.advance_errors, State.advance_abandoned] at ht
  | report cause => exact absurd ht (State.not_clean_report s cause)
  | number => exact ht
  | abandon => exact absurd ht.2 (by simp [State.abandon])

theorem Step.stop {s t : State} (h : Step s t) : t.stop = s.stop := by
  cases h with
  | advance => exact State.advance_stop s
  | report cause => exact State.report_stop s cause
  | number => rfl
  | abandon => exact State.report_stop s .tooDeep

theorem Step.rest_suffix {s t : State} (h : Step s t) : t.rest <:+ s.rest := by
  cases h with
  | advance => rw [State.advance_rest]; exact List.tail_suffix s.rest
  | report cause => exact (State.report_rest s cause).symm ▸ List.suffix_rfl
  | number => exact List.suffix_rfl
  | abandon => exact List.nil_suffix

theorem Step.of_abandoned {s t : State} (h : Step s t) (ha : s.abandoned = true) :
    t.abandoned = true ∧ t.errors = s.errors := by
  cases h with
  | advance => exact ⟨by rw [State.advance_abandoned, ha], State.advance_errors s⟩
  | report cause => exact ⟨by rw [State.report_abandoned, ha], by simp [State.report, ha]⟩
  | number => exact ⟨ha, rfl⟩
  | abandon => exact ⟨rfl, by simp [State.abandon, State.report, ha, State.skipAll]⟩

/-- Giving up leaves an error behind. -/
def State.Accounted (s : State) : Prop := s.abandoned = true → s.errors ≠ []

theorem Step.accounted {s t : State} (h : Step s t) (hs : s.Accounted) : t.Accounted := by
  cases h with
  | advance =>
    intro ha
    rw [State.advance_errors]
    exact hs (by rwa [State.advance_abandoned] at ha)
  | report cause =>
    intro ha
    rw [State.report_abandoned] at ha
    exact State.errors_report_ne_nil (hs ha) cause
  | number => exact hs
  | abandon =>
    intro _
    change (s.report .tooDeep).errors ≠ []
    intro he
    cases ha : s.abandoned with
    | false => exact State.not_clean_report s .tooDeep ⟨he, by rw [State.report_abandoned, ha]⟩
    | true => exact State.errors_report_ne_nil (hs ha) .tooDeep he

/-! ## What a run keeps -/

namespace Reads
variable {s t : State}

theorem clean (h : Reads s t) (ht : t.Clean) : s.Clean := by
  induction h with
  | refl => exact ht
  | tail _ hstep ih => exact ih (hstep.clean ht)

theorem stop (h : Reads s t) : t.stop = s.stop := by
  induction h with
  | refl => rfl
  | tail _ hstep ih => rw [hstep.stop, ih]

theorem rest_suffix (h : Reads s t) : t.rest <:+ s.rest := by
  induction h with
  | refl => exact List.suffix_rfl
  | tail _ hstep ih => exact hstep.rest_suffix.trans ih

theorem length_rest_le (h : Reads s t) : t.rest.length ≤ s.rest.length := h.rest_suffix.length_le

theorem wellFormed (h : Reads s t) (hs : s.WellFormed) : t.WellFormed :=
  ⟨by rw [h.stop]; exact hs.1, fun u hu => hs.2 u (h.rest_suffix.mem hu)⟩

theorem of_abandoned (h : Reads s t) (ha : s.abandoned = true) :
    t.abandoned = true ∧ t.errors = s.errors := by
  induction h with
  | refl => exact ⟨ha, rfl⟩
  | tail _ hstep ih =>
    have hlast := hstep.of_abandoned ih.1
    exact ⟨hlast.1, hlast.2.trans ih.2⟩

theorem accounted (h : Reads s t) (hs : s.Accounted) : t.Accounted := by
  induction h with
  | refl => exact hs
  | tail _ hstep ih => exact hstep.accounted ih

end Reads

/-! ## Every reading function makes a run of steps -/

namespace State
variable (s : State)

theorem advance_reads : Reads s s.advance := .single (.advance s)

theorem report_reads (cause : ParseError.Cause) (h : cause ≠ .tooDeep) : Reads s (s.report cause) :=
  .single (.report s cause h)

theorem expect_reads (kind : Token.Kind) : Reads s (s.expect kind) := by
  unfold expect
  split
  · exact s.advance_reads
  · exact s.report_reads _ (by simp)

theorem finishAt_reads {α : Type} (span : Span) (build : Mark → α) :
    Reads s (s.finishAt span build).after := .single (.number s)

theorem finish_reads {α : Type} (start : Nat) (build : Mark → α) :
    Reads s (s.finish start build).after := s.finishAt_reads _ build

theorem giveUp_reads {α : Type} (build : Mark → α) : Reads s (s.giveUp build).after :=
  .tail (.single (.abandon s)) (.number s.abandon)

theorem readIdent_reads : Reads s s.readIdent.after :=
  s.advance_reads.trans (s.advance.finishAt_reads _ _)

theorem readOperator_reads : Reads s s.readOperator.after :=
  s.advance_reads.trans (s.advance.finishAt_reads _ _)

theorem expectIdent_reads (what : Expectation) : Reads s (s.expectIdent what).after := by
  unfold expectIdent
  split
  · exact s.readIdent_reads
  · exact s.report_reads _ (by simp)

end State

theorem operatorTail_reads {operand : State → Parsed Expr} (ho : ∀ s, Reads s (operand s).after)
    (start rounds : Nat) (lhs : Expr) (s : State) :
    Reads s (operatorTail operand start rounds lhs s).after := by
  induction rounds generalizing lhs s with
  | zero => exact .refl
  | succ rounds ih =>
    rw [operatorTail]
    split
    · refine Relation.ReflTransGen.trans ?_ (ih _ _)
      exact (s.readOperator_reads.trans (ho _)).trans (State.finish_reads _ _ _)
    · exact .refl

theorem expressionOf_reads {operand : State → Parsed Expr} (ho : ∀ s, Reads s (operand s).after)
    (s : State) : Reads s (expressionOf operand s).after :=
  (ho s).trans (operatorTail_reads ho _ _ _ _)

theorem primary_reads (levels : Nat) (s : State) : Reads s (primary levels s).after := by
  induction levels generalizing s with
  | zero => exact s.giveUp_reads _
  | succ levels ih =>
    rw [primary]
    split
    · exact s.advance_reads.trans (State.finish_reads _ _ _)
    · exact s.advance_reads.trans (State.finish_reads _ _ _)
    · exact s.readIdent_reads.trans (State.finish_reads _ _ _)
    · exact (s.readOperator_reads.trans (ih _)).trans (State.finish_reads _ _ _)
    · exact (s.advance_reads.trans (expressionOf_reads ih _)).trans (State.expect_reads _ _)
    · exact (s.report_reads _ (by simp)).trans (State.finish_reads _ _ _)

theorem expression_reads (levels : Nat) (s : State) : Reads s (expression levels s).after :=
  expressionOf_reads (primary_reads levels) s

theorem parameter_reads (levels : Nat) (s : State) : Reads s (parameter levels s).after := by
  unfold parameter
  split
  · exact (expression_reads levels s).trans (State.finish_reads _ _ _)
  · split
    · have hname := s.advance_reads.trans (s.advance.expectIdent_reads .name)
      dsimp only
      split
      · exact hname.trans (State.finish_reads _ _ _)
      · exact hname.trans (State.finish_reads _ _ _)
    · exact s.finish_reads _ _

theorem typeDenoter_reads (s : State) : Reads s (typeDenoter s).after := by
  unfold typeDenoter
  have hname := s.expectIdent_reads .typeName
  dsimp only
  split
  · exact hname.tail (.number _)
  · exact hname

theorem singleDeclaration_reads (levels : Nat) (s : State) :
    Reads s (singleDeclaration levels s).after := by
  unfold singleDeclaration
  have hname := s.advance_reads.trans (s.advance.expectIdent_reads .name)
  split
  · have hvalue := (hname.trans (State.expect_reads _ .is)).trans (expression_reads levels _)
    dsimp only
    split
    · exact hvalue.trans (State.finish_reads _ _ _)
    · exact hvalue.trans (State.finish_reads _ _ _)
  · have htype := hname.trans (typeDenoter_reads _)
    dsimp only
    split
    · exact htype.trans (State.finish_reads _ _ _)
    · exact htype.trans (State.finish_reads _ _ _)
  · exact (s.report_reads _ (by simp)).trans (State.finish_reads _ _ _)

theorem declarationTail_reads (levels start rounds : Nat) (first : Decl) (s : State) :
    Reads s (declarationTail levels start rounds first s).after := by
  induction rounds generalizing first s with
  | zero => exact .refl
  | succ rounds ih =>
    rw [declarationTail]
    split
    · refine Relation.ReflTransGen.trans ?_ (ih _ _)
      exact (s.advance_reads.trans (singleDeclaration_reads _ _)).trans (State.finish_reads _ _ _)
    · exact .refl

theorem declaration_reads (levels : Nat) (s : State) : Reads s (declaration levels s).after :=
  (singleDeclaration_reads levels s).trans (declarationTail_reads _ _ _ _ _)

theorem commandTail_reads {single : State → Parsed Command} (hs : ∀ s, Reads s (single s).after)
    (start rounds : Nat) (first : Command) (s : State) :
    Reads s (commandTail single start rounds first s).after := by
  induction rounds generalizing first s with
  | zero => exact .refl
  | succ rounds ih =>
    rw [commandTail]
    split
    · refine Relation.ReflTransGen.trans ?_ (ih _ _)
      exact (s.advance_reads.trans (hs _)).trans (State.finish_reads _ _ _)
    · exact .refl

theorem commandOf_reads {single : State → Parsed Command} (hs : ∀ s, Reads s (single s).after)
    (s : State) : Reads s (commandOf single s).after :=
  (hs s).trans (commandTail_reads hs _ _ _ _)

theorem namedCommand_reads (levels : Nat) (s : State) :
    Reads s (namedCommand levels s).after := by
  unfold namedCommand
  have hname := s.readIdent_reads
  dsimp only
  split
  · exact (((hname.trans (State.advance_reads _)).trans (parameter_reads levels _)).trans
      (State.expect_reads _ _)).trans (State.finish_reads _ _ _)
  · exact ((hname.trans (State.advance_reads _)).trans (expression_reads levels _)).trans
      (State.finish_reads _ _ _)
  · exact (hname.trans (State.report_reads _ _ (by simp))).trans (State.finish_reads _ _ _)

theorem single_reads (levels : Nat) (s : State) : Reads s (single levels s).after := by
  induction levels generalizing s with
  | zero => exact s.giveUp_reads _
  | succ levels ih =>
    have hcommand := commandOf_reads ih
    have hexpr := expression_reads levels
    rw [single]
    split
    · exact namedCommand_reads levels s
    · exact (s.advance_reads.trans (hcommand _)).trans (State.expect_reads _ _)
    · exact ((((s.advance_reads.trans (declaration_reads levels _)).trans
        (State.expect_reads _ _)).trans (ih _)).trans (State.expect_reads _ _)).trans
        ((hcommand _).trans (State.finish_reads _ _ _))
    · exact ((((s.advance_reads.trans (hexpr _)).trans (State.expect_reads _ _)).trans
        (ih _)).trans (State.expect_reads _ _)).trans ((ih _).trans (State.finish_reads _ _ _))
    · exact ((((s.advance_reads.trans (hexpr _)).trans (State.expect_reads _ _)).trans
        (hcommand _)).trans (State.expect_reads _ _)).trans
        ((hcommand _).trans (State.finish_reads _ _ _))
    · exact (((s.advance_reads.trans (ih _)).trans (State.expect_reads _ _)).trans
        (hexpr _)).trans (State.finish_reads _ _ _)
    · exact s.advance_reads.trans (State.finish_reads _ _ _)
    · exact s.finish_reads _ _

theorem command_reads (levels : Nat) (s : State) : Reads s (command levels s).after :=
  commandOf_reads (single_reads levels) s

end TriLang.Parser
