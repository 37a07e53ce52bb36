import TriLang.Proofs.Parsing.Loops
import TriLang.Proofs.Parsing.Productions

/-! # What is derived is read

A derivation tells what its reading function does where the word it derives stands: if it nests within the
levels that are left, the word is read along the derivation, and otherwise the nesting limit is met and
that is the only error. `Outcome` is this alternative.

What may follow matters. Behind an expression no operator may stand, since it would be read on. Behind a
single command one of the tokens must stand that can end it (`endsCommand`); none of them starts a command
or goes on with an expression, so that nothing is read as nothing. A `;` may stand there unless a list is
still open. For a chain the induction is about the loop that reads it: it comes to the state behind the
derived word with the derived tree, whatever follows there. -/
namespace TriLang.Parser
set_option autoImplicit false

/-! ## Meeting the nesting limit -/

/-- The nesting limit was met, and that is the only error. -/
def State.Overrun (s : State) : Prop := s.abandoned = true ∧ ∃ span, s.errors = [⟨.tooDeep, span⟩]

theorem State.Overrun.reads {s t : State} (h : s.Overrun) (hr : Reads s t) : t.Overrun := by
  obtain ⟨ha, span, he⟩ := h
  obtain ⟨ha', he'⟩ := hr.of_abandoned ha
  exact ⟨ha', span, he'.trans he⟩

theorem State.Clean.overrun_giveUp {α : Type} {s : State} (h : s.Clean) (build : Mark → α) :
    (s.giveUp build).after.Overrun := by
  refine ⟨rfl, s.current.span, ?_⟩
  change (s.report .tooDeep).errors = _
  exact h.errors_report .tooDeep

/-- Either the nesting stays within the levels and all goes well, or the limit is met. -/
def Outcome (depth levels : Nat) (done : Prop) (t : State) : Prop :=
  (depth ≤ levels ∧ t.Clean ∧ done) ∨ (levels < depth ∧ t.Overrun)

namespace Outcome
variable {d e levels : Nat} {P Q : Prop} {t u : State}

/-- What is left to be done after the parts have been read. -/
theorem completed (h : Outcome d levels P t) (hr : Reads t u) (h' : t.Clean → P → u.Clean ∧ Q) :
    Outcome d levels Q u := by
  rcases h with ⟨hd, hcl, hp⟩ | ⟨hd, ho⟩
  · exact .inl ⟨hd, h' hcl hp⟩
  · exact .inr ⟨hd, ho.reads hr⟩

/-- The parts of something that nests one level deeper than they do. -/
theorem succ (h : Outcome d levels P t) : Outcome (d + 1) (levels + 1) P t := by
  rcases h with ⟨hd, h⟩ | ⟨hd, h⟩
  · exact .inl ⟨Nat.succ_le_succ hd, h⟩
  · exact .inr ⟨Nat.succ_lt_succ hd, h⟩

end Outcome

/-- A chain was read up to a place from which the loop reads the rest of it, or the limit is met. -/
def Loop.Reaches {α : Type} (l : Loop α) (depth levels : Nat) (s : State) (done : Parsed α → Prop)
    (whole : Parsed α) : Prop :=
  (depth ≤ levels ∧ ∃ a t, Reads s t ∧ t.Clean ∧ done ⟨a, t⟩ ∧ whole = l.exhaust a t) ∨
    (levels < depth ∧ whole.after.Overrun)

namespace Loop
variable {α : Type} {l : Loop α} {d e levels : Nat} {s : State} {P Q : Parsed α → Prop}
  {p whole : Parsed α}

theorem Reaches.first (h : Outcome d levels (P p) p.after) (hreads : Reads s p.after)
    (hwhole : whole = l.exhaust p.node p.after) (hP : P p → Q p) : l.Reaches d levels s Q whole := by
  rcases h with ⟨hd, hcl, hp⟩ | ⟨hd, ho⟩
  · exact .inl ⟨hd, p.node, p.after, hreads, hcl, hP hp, hwhole⟩
  · refine .inr ⟨hd, ?_⟩
    rw [hwhole]
    exact ho.reads (l.exhaust_reads _ _)

theorem Reaches.round (h : l.Reaches d levels s P whole) (hs : s.WellFormed)
    (hround : ∀ a t, t.WellFormed → t.Clean → P ⟨a, t⟩ →
      l.goesOn t = true ∧ Outcome e levels (Q (l.round a t)) (l.round a t).after) :
    l.Reaches (max d e) levels s Q whole := by
  rcases h with ⟨hd, a, t, hreads, hcl, hp, hwhole⟩ | ⟨hd, ho⟩
  · have hwf := hreads.wellFormed hs
    obtain ⟨hgo, houtcome⟩ := hround a t hwf hcl hp
    rw [l.exhaust_of_goesOn hwf hgo] at hwhole
    rcases houtcome with ⟨he, hcl', hq⟩ | ⟨he, ho⟩
    · exact .inl ⟨Nat.max_le.2 ⟨hd, he⟩, _, _, hreads.trans (l.reads a t), hcl', hq, hwhole⟩
    · refine .inr ⟨Nat.lt_of_lt_of_le he (Nat.le_max_right d e), ?_⟩
      rw [hwhole]
      exact ho.reads (l.exhaust_reads _ _)
  · exact .inr ⟨Nat.lt_of_lt_of_le hd (Nat.le_max_left d e), ho⟩

theorem Reaches.outcome (h : l.Reaches d levels s P whole) (hs : s.WellFormed)
    (hstop : ∀ a t, t.WellFormed → P ⟨a, t⟩ → l.goesOn t = false) :
    Outcome d levels (P whole) whole.after := by
  rcases h with ⟨hd, a, t, hreads, hcl, hp, hwhole⟩ | hover
  · rw [hwhole, l.exhaust_of_stops (hstop a t (hreads.wellFormed hs) hp)]
    exact .inl ⟨hd, hcl, hp⟩
  · exact .inr hover

end Loop

/-! ## Tokens that stand first in the input -/

theorem State.WellFormed.advance_of_input {s : State} (hs : s.WellFormed) (kind : Token.Kind)
    {w : List Terminal} (hf : isFixed kind = true) (hi : s.input = .fixed kind :: w) :
    s.kind = kind ∧ Took s s.advance [.fixed kind] 0 ∧ s.advance.input = w := by
  have hend : kind ≠ .endOfText := by rintro rfl; simp [isFixed] at hf
  obtain ⟨hk, -, hafter⟩ := hs.of_input_cons hi hend
  exact ⟨hk, hs.took_fixed hf hk, hafter⟩

theorem State.WellFormed.expect_of_input {s : State} (hs : s.WellFormed) (hc : s.Clean)
    {kind : Token.Kind} {w : List Terminal} (hf : isFixed kind = true)
    (hi : s.input = .fixed kind :: w) :
    (s.expect kind).Clean ∧ Took s (s.expect kind) [.fixed kind] 0 ∧ (s.expect kind).input = w := by
  obtain ⟨hk, htook, hafter⟩ := hs.advance_of_input kind hf hi
  rw [expect_of_kind hk]
  exact ⟨hc.advance, htook, hafter⟩

/-- What comes next is read behind a token that is required and stands there. -/
theorem Outcome.andBehind {β : Type} {d e levels : Nat} {P : Prop} {t : State}
    {w : List Terminal} {read : State → Parsed β} {Q : State → Prop} (h : Outcome d levels P t)
    (kind : Token.Kind) (ht : t.WellFormed) (hf : isFixed kind = true) (hi : P → t.input = .fixed kind :: w)
    (hreads : ∀ u, Reads u (read u).after)
    (h' : ∀ u : State, u.WellFormed → u.Clean → u.input = w →
      Outcome e levels (Q u) (read u).after) :
    Outcome (max d e) levels (P ∧ Took t (t.expect kind) [.fixed kind] 0 ∧ Q (t.expect kind))
      (read (t.expect kind)).after := by
  have hexpect := t.expect_reads kind
  rcases h with ⟨hd, hcl, hp⟩ | ⟨hd, ho⟩
  · obtain ⟨hcl', htook, hafter⟩ := ht.expect_of_input hcl hf (hi hp)
    rcases h' _ (hexpect.wellFormed ht) hcl' hafter with ⟨he, hcl'', hq⟩ | ⟨he, ho⟩
    · exact .inl ⟨Nat.max_le.2 ⟨hd, he⟩, hcl'', hp, htook, hq⟩
    · exact .inr ⟨Nat.lt_of_lt_of_le he (Nat.le_max_right d e), ho⟩
  · exact .inr ⟨Nat.lt_of_lt_of_le hd (Nat.le_max_left d e), ho.reads (hexpect.trans (hreads _))⟩

theorem State.Clean.readIdent {s : State} (h : s.Clean) : s.readIdent.after.Clean := h.advance

theorem State.expectIdent_of_kind {s : State} (hk : s.kind = .identifier) (what : Expectation) :
    s.expectIdent what = ⟨some s.readIdent.node, s.readIdent.after⟩ := if_pos hk

theorem ofToken_int {t : Token} {spelling : String} (h : Terminal.ofToken t = .int spelling) :
    t.spelling = spelling := by
  unfold Terminal.ofToken Terminal.ofSpelling at h
  split at h <;> simp_all

theorem ofToken_name {t : Token} {spelling : String} (h : Terminal.ofToken t = .name spelling) :
    t.spelling = spelling := by
  unfold Terminal.ofToken Terminal.ofSpelling at h
  split at h <;> simp_all

theorem ofToken_operator {t : Token} {spelling : String}
    (h : Terminal.ofToken t = .operator spelling) : t.spelling = spelling := by
  unfold Terminal.ofToken Terminal.ofSpelling at h
  split at h <;> simp_all

theorem ofToken_char {t : Token} {value : Char} (h : Terminal.ofToken t = .char value) :
    literalChar t.spelling = value := by
  unfold Terminal.ofToken Terminal.ofSpelling at h
  split at h <;> simp_all

end TriLang.Parser

namespace TriLang
open TriLang.Parser

/-! ## Expressions -/

theorem ExprDerivation.startsExpression_yield {x : Extent} (D : ExprDerivation x)
    (r : List Terminal) : startsExpression (nextKind (D.yield ++ r)) = true := by
  induction D generalizing r with
  | int spelling => rfl
  | char value => rfl
  | name spelling => rfl
  | unary op operand ih => rfl
  | brackets inner ih => rfl
  | single first ih => exact ih r
  | binary lhs op rhs ihl ihr => rw [yield, List.append_assoc]; exact ihl _

/-- What reading an expression does where the derived word stands. -/
def ExprDerivation.Handled : {x : Extent} → ExprDerivation x → Nat → State → Prop
  | .item, D, levels, s =>
    Outcome D.depth levels (D.ReadAs s (primary levels s)) (primary levels s).after
  | .chain, D, levels, s =>
    (operators _ (primary_reads levels) s.start).Reaches D.depth levels s (D.ReadAs s)
      (expression levels s)

theorem ExprDerivation.Handled.outcome {D : ExprDerivation .chain} {levels : Nat} {s : State}
    {r : List Terminal} (h : D.Handled levels s) (hs : s.WellFormed) (hi : s.input = D.yield ++ r)
    (hr : nextKind r ≠ .operator) :
    Outcome D.depth levels (D.ReadAs s (expression levels s)) (expression levels s).after := by
  refine Loop.Reaches.outcome h hs fun lhs t hwf hread => ?_
  have hk : t.kind ≠ .operator := by
    rw [hwf.kind_eq, hread.took.input_eq hi]
    exact hr
  simpa [operators] using hk

theorem ExprDerivation.handled_zero (D : ExprDerivation .item) {s : State} (hc : s.Clean) :
    D.Handled 0 s := by
  have hdepth : 0 < D.depth := by cases D <;> simp [depth]
  exact .inr ⟨hdepth, hc.overrun_giveUp _⟩

theorem ExprDerivation.handled {x : Extent} (D : ExprDerivation x) (levels : Nat) (s : State)
    (r : List Terminal) (hs : s.WellFormed) (hc : s.Clean) (hi : s.input = D.yield ++ r) :
    D.Handled levels s := by
  induction D generalizing levels s r with
  | int spelling =>
    obtain _ | levels := levels
    · exact handled_zero _ hc
    · obtain ⟨hk, ht, -⟩ := hs.of_input_cons hi (by simp [Terminal.kind])
      have hread := readAs_int s.start hs hk
      rw [ofToken_int ht] at hread
      refine .inl ⟨Nat.succ_le_succ (Nat.zero_le levels), ?_, ?_⟩
      · simp only [primary, hk, Terminal.kind]; exact hc.advance
      · simp only [primary, hk, Terminal.kind, ofToken_int ht]; exact hread
  | char value =>
    obtain _ | levels := levels
    · exact handled_zero _ hc
    · obtain ⟨hk, ht, -⟩ := hs.of_input_cons hi (by simp [Terminal.kind])
      have hread := readAs_char s.start hs hk
      rw [ofToken_char ht] at hread
      refine .inl ⟨Nat.succ_le_succ (Nat.zero_le levels), ?_, ?_⟩
      · simp only [primary, hk, Terminal.kind]; exact hc.advance
      · simp only [primary, hk, Terminal.kind, ofToken_char ht]; exact hread
  | name spelling =>
    obtain _ | levels := levels
    · exact handled_zero _ hc
    · obtain ⟨hk, ht, -⟩ := hs.of_input_cons hi (by simp [Terminal.kind])
      have hread := readAs_name s.start hs hk
      rw [ofToken_name ht] at hread
      refine .inl ⟨Nat.succ_le_succ (Nat.zero_le levels), ?_, ?_⟩
      · simp only [primary, hk, Terminal.kind]; exact hc.advance
      · simp only [primary, hk, Terminal.kind]; exact hread
  | unary op operand ih =>
    obtain _ | levels := levels
    · exact handled_zero _ hc
    · obtain ⟨hk, ht, hafter⟩ := hs.of_input_cons hi (by simp [Terminal.kind])
      have hwf := s.readOperator_reads.wellFormed hs
      simp only [Handled, primary, hk, Terminal.kind]
      refine (ih levels s.readOperator.after r hwf hc.advance hafter).succ.completed
        (State.finish_reads _ _ _) fun hcl hread => ⟨hcl, ?_⟩
      have hread' := readAs_unary s.start hs hk hread
      rwa [ofToken_operator ht] at hread'
  | brackets inner ih =>
    obtain _ | levels := levels
    · exact handled_zero _ hc
    · rw [yield, List.cons_append, List.append_assoc] at hi
      obtain ⟨hk, hopen, hafter⟩ := hs.advance_of_input .leftBracket rfl hi
      simp only [Handled, primary, hk]
      have hinner := (ih levels _ _ hs.advance hc.advance hafter).outcome hs.advance hafter
        (by simp [Terminal.kind])
      refine hinner.succ.completed (State.expect_reads _ _) fun hcl hread => ?_
      have hwf := (expression_reads levels _).wellFormed hs.advance
      obtain ⟨hcl', hclose, -⟩ := hwf.expect_of_input hcl rfl (hread.took.input_eq hafter)
      exact ⟨hcl', readAs_brackets hopen hread hclose⟩
  | single first ih =>
    exact .first (ih levels s r hs hc hi) (primary_reads levels s) (expressionOf_eq_exhaust _ s)
      ReadAs.single
  | binary lhs op rhs ihl ihr =>
    rw [yield, List.append_assoc] at hi
    refine Loop.Reaches.round (ihl levels s _ hs hc hi) hs fun tree t hwf hcl hread => ?_
    obtain ⟨hk, ht, hafter⟩ := hwf.of_input_cons (hread.took.input_eq hi) (by simp [Terminal.kind])
    have hrhs := ihr levels t.readOperator.after r (t.readOperator_reads.wellFormed hwf) hcl.advance
      hafter
    refine ⟨by simpa [operators] using (show t.kind = .operator from hk), ?_⟩
    refine Outcome.completed hrhs (State.finish_reads _ _ _) fun hcl' hread' => ⟨hcl', ?_⟩
    have hbinary := readAs_binary s.start hread hwf hk hread'
    rwa [ofToken_operator ht] at hbinary

theorem ExprDerivation.outcome (D : ExprDerivation .chain) (levels : Nat) {s : State}
    {r : List Terminal} (hs : s.WellFormed) (hc : s.Clean) (hi : s.input = D.yield ++ r)
    (hr : nextKind r ≠ .operator) :
    Outcome D.depth levels (D.ReadAs s (expression levels s)) (expression levels s).after :=
  (D.handled levels s r hs hc hi).outcome hs hi hr

/-! ## Parameters and declarations -/

theorem ParamDerivation.outcome (D : ParamDerivation) (levels : Nat) {s : State} {r : List Terminal}
    (hs : s.WellFormed) (hc : s.Clean) (hi : s.input = D.yield ++ .fixed .rightBracket :: r) :
    Outcome D.depth levels (D.ReadAs s (parameter levels s)) (parameter levels s).after := by
  unfold parameter
  cases D with
  | value expr =>
    have hstart : startsExpression s.kind = true := by
      rw [hs.kind_eq, hi]; exact expr.startsExpression_yield _
    rw [if_pos hstart]
    exact (expr.outcome levels hs hc hi (by simp [Terminal.kind])).completed
      (State.finish_reads _ _ _) fun hcl hread => ⟨hcl, readAs_value _ hread⟩
  | reference name =>
    obtain ⟨hk, hvar, hafter⟩ := hs.advance_of_input (.keyword .varKw) rfl hi
    obtain ⟨hname, ht, -⟩ := hs.advance.of_input_cons hafter (by simp [Terminal.kind])
    have hread := readAs_reference s.start hvar hs.advance hname
    rw [ofToken_name ht] at hread
    have hident := State.expectIdent_of_kind hname .name
    simp only [hk, startsExpression, hident, Bool.false_eq_true, if_false, if_true]
    exact .inl ⟨Nat.zero_le levels, hc.advance.advance, hread⟩
  | empty =>
    obtain ⟨hk, -⟩ := hs.advance_of_input .rightBracket rfl hi
    simp only [hk, startsExpression, Bool.false_eq_true, if_false, reduceCtorEq]
    exact .inl ⟨Nat.zero_le levels, hc, readAs_empty _⟩

theorem DeclDerivation.outcome_item (D : DeclDerivation .item) (levels : Nat) {s : State}
    {r : List Terminal} (hs : s.WellFormed) (hc : s.Clean) (hi : s.input = D.yield ++ r)
    (hr : nextKind r ≠ .operator) :
    Outcome D.depth levels (D.ReadAs s (singleDeclaration levels s))
      (singleDeclaration levels s).after := by
  have hwf := hs.advance
  have hwf' := s.advance.readIdent_reads.wellFormed hwf
  cases D with
  | const name value =>
    obtain ⟨hk, hconst, hafter⟩ := hs.advance_of_input (.keyword .constKw) rfl hi
    obtain ⟨hname, ht, hafter'⟩ := hwf.of_input_cons hafter (by simp [Terminal.kind])
    have hident := State.expectIdent_of_kind hname .name
    obtain ⟨hcl, his, hvalue⟩ := hwf'.expect_of_input hc.advance.advance rfl hafter'
    simp only [singleDeclaration, hk, hident]
    refine (value.outcome levels ((State.expect_reads _ _).wellFormed hwf') hcl hvalue hr).completed
      (State.finish_reads _ _ _) fun hcl' hread => ⟨hcl', ?_⟩
    have hread' := readAs_const s.start hconst hwf hname his hread
    rwa [ofToken_name ht] at hread'
  | var name type =>
    obtain ⟨hk, hvar, hafter⟩ := hs.advance_of_input (.keyword .varKw) rfl hi
    obtain ⟨hname, ht, hafter'⟩ := hwf.of_input_cons hafter (by simp [Terminal.kind])
    obtain ⟨htype, ht', -⟩ := hwf'.of_input_cons (s := s.advance.readIdent.after) hafter'
      (by simp [Terminal.kind])
    have hident := State.expectIdent_of_kind hname .name
    have hident' := State.expectIdent_of_kind htype .typeName
    have hread := readAs_var s.start s.advance.readIdent.after.readIdent.node.span hvar hwf hname
      htype
    rw [ofToken_name ht, ofToken_name ht'] at hread
    simp only [singleDeclaration, typeDenoter, hk, hident, hident']
    exact .inl ⟨Nat.zero_le levels, hc.advance.readIdent.readIdent, hread⟩

def DeclDerivation.Handled : {x : Extent} → DeclDerivation x → Nat → State → Prop
  | .item, D, levels, s =>
    Outcome D.depth levels (D.ReadAs s (singleDeclaration levels s))
      (singleDeclaration levels s).after
  | .chain, D, levels, s =>
    (declarations levels s.start).Reaches D.depth levels s (D.ReadAs s) (declaration levels s)

theorem DeclDerivation.handled {x : Extent} (D : DeclDerivation x) (levels : Nat) (s : State)
    (r : List Terminal) (hs : s.WellFormed) (hc : s.Clean) (hi : s.input = D.yield ++ r)
    (hr : nextKind r ≠ .operator) : D.Handled levels s := by
  induction D generalizing r with
  | const name value => exact (const name value).outcome_item levels hs hc hi hr
  | var name type => exact (var name type).outcome_item levels hs hc hi hr
  | single first ih =>
    exact .first (ih r hi hr) (singleDeclaration_reads levels s) (declaration_eq_exhaust levels s)
      ReadAs.single
  | seq front last ihf _ =>
    rw [yield, List.append_assoc] at hi
    refine Loop.Reaches.round (ihf _ hi (by simp [Terminal.kind])) hs fun first t hwf hcl hread => ?_
    obtain ⟨hk, hsemi, hafter⟩ := hwf.advance_of_input .semicolon rfl (hread.took.input_eq hi)
    refine ⟨by simpa [declarations] using hk, ?_⟩
    have hlast := last.outcome_item levels hwf.advance hcl.advance hafter hr
    exact hlast.completed (State.finish_reads _ _ _) fun hcl' hread' =>
      ⟨hcl', readAs_seq _ hread hsemi hread'⟩

theorem DeclDerivation.outcome (D : DeclDerivation .chain) (levels : Nat) {s : State}
    {r : List Terminal} (hs : s.WellFormed) (hc : s.Clean) (hi : s.input = D.yield ++ r)
    (hr : nextKind r ≠ .operator) (hr' : nextKind r ≠ .semicolon) :
    Outcome D.depth levels (D.ReadAs s (declaration levels s)) (declaration levels s).after := by
  refine Loop.Reaches.outcome (D.handled levels s r hs hc hi hr) hs fun first t hwf hread => ?_
  have hk : t.kind ≠ .semicolon := by
    rw [hwf.kind_eq, hread.took.input_eq hi]
    exact hr'
  simpa [declarations] using hk

/-! ## Commands -/

/-- Whether a token of the kind can stand behind a single command. -/
def endsCommand : Token.Kind → Bool
  | .semicolon | .endOfText => true
  | .keyword .endKw | .keyword .endletKw | .keyword .elseKw => true
  | .keyword .wendKw | .keyword .wendwhileKw => true
  | _ => false

theorem ne_operator_of_endsCommand {kind : Token.Kind} (h : endsCommand kind = true) :
    kind ≠ .operator := by
  rintro rfl; simp [endsCommand] at h

/-- Where a command can end, nothing is read as a command without a token. -/
theorem single_of_endsCommand {s : State} (h : endsCommand s.kind = true) (levels : Nat) :
    single (levels + 1) s = s.finish s.start .blank := by
  rw [single]
  split <;> first | rfl | simp_all [endsCommand]

def CommandDerivation.Handled : {x : Extent} → CommandDerivation x → Nat → State → Prop
  | .item, D, levels, s =>
    Outcome D.depth levels (D.ReadAs s (Parser.single levels s)) (Parser.single levels s).after
  | .chain, D, levels, s =>
    (commands _ (single_reads levels) s.start).Reaches D.depth levels s (D.ReadAs s)
      (command levels s)

/-- Wherever the derived word stands in front of the end of a command, it is read as the derivation has
it, so long as what stands behind does not go on with a list that is open at its end. -/
def CommandDerivation.Handles {x : Extent} (D : CommandDerivation x) : Prop :=
  ∀ (levels : Nat) (s : State) (r : List Terminal), s.WellFormed → s.Clean → s.input = D.yield ++ r →
    D.Innermost → endsCommand (nextKind r) = true → (D.openEnded = true → nextKind r ≠ .semicolon) →
      D.Handled levels s

namespace CommandDerivation

theorem Handles.outcome {D : CommandDerivation .chain} (h : D.Handles) (levels : Nat) {s : State}
    {r : List Terminal} (hs : s.WellFormed) (hc : s.Clean) (hi : s.input = D.yield ++ r)
    (hin : D.Innermost) (hr : endsCommand (nextKind r) = true) (hr' : nextKind r ≠ .semicolon) :
    Outcome D.depth levels (D.ReadAs s (command levels s)) (command levels s).after := by
  refine Loop.Reaches.outcome (h levels s r hs hc hi hin hr fun _ => hr') hs fun first t hwf hread => ?_
  have hk : t.kind ≠ .semicolon := by
    rw [hwf.kind_eq, hread.took.input_eq hi]
    exact hr'
  simpa [commands] using hk

theorem depth_pos (D : CommandDerivation .item) : 0 < D.depth := by
  cases D <;> simp [depth]

/-- On level 0 the limit is met at once. -/
theorem handles_item {D : CommandDerivation .item}
    (h : ∀ (levels : Nat) (s : State) (r : List Terminal), s.WellFormed → s.Clean →
      s.input = D.yield ++ r → D.Innermost → endsCommand (nextKind r) = true →
        (D.openEnded = true → nextKind r ≠ .semicolon) → D.Handled (levels + 1) s) : D.Handles := by
  intro levels s r hs hc hi hin hr hopen
  obtain _ | levels := levels
  · exact .inr ⟨D.depth_pos, hc.overrun_giveUp _⟩
  · exact h levels s r hs hc hi hin hr hopen

theorem handles_assign (target : String) (value : ExprDerivation .chain) :
    (CommandDerivation.assign target value).Handles := by
  refine handles_item fun levels s r hs hc hi hin hr hopen => ?_
  obtain ⟨hk, ht, hafter⟩ := hs.of_input_cons hi (by simp [Terminal.kind])
  have hwf := s.readIdent_reads.wellFormed hs
  obtain ⟨hk', hbecomes, hafter'⟩ :=
    hwf.advance_of_input (s := s.readIdent.after) .becomes rfl hafter
  simp only [Handled, Parser.single, hk, Terminal.kind, namedCommand, hk']
  refine (value.outcome levels hwf.advance hc.readIdent.advance hafter'
    (ne_operator_of_endsCommand hr)).succ.completed
    (State.finish_reads _ _ _) fun hcl hread => ⟨hcl, ?_⟩
  have hread' := readAs_assign s.start hs hk hbecomes hread
  rwa [ofToken_name ht] at hread'

theorem handles_call (callee : String) (param : ParamDerivation) :
    (CommandDerivation.call callee param).Handles := by
  refine handles_item fun levels s r hs hc hi hin hr hopen => ?_
  rw [yield, List.cons_append, List.cons_append, List.append_assoc] at hi
  obtain ⟨hk, ht, hafter⟩ := hs.of_input_cons hi (by simp [Terminal.kind])
  have hwf := s.readIdent_reads.wellFormed hs
  obtain ⟨hk', hbracket, hafter'⟩ :=
    hwf.advance_of_input (s := s.readIdent.after) .leftBracket rfl hafter
  simp only [Handled, Parser.single, hk, Terminal.kind, namedCommand, hk']
  have hparam := param.outcome levels hwf.advance hc.readIdent.advance hafter'
  refine hparam.succ.completed ((State.expect_reads _ _).trans (State.finish_reads _ _ _))
    fun hcl hread => ?_
  have hwf' := (parameter_reads levels _).wellFormed hwf.advance
  obtain ⟨hcl', hclose, -⟩ := hwf'.expect_of_input hcl rfl (hread.took.input_eq hafter')
  have hread' := readAs_call s.start hs hk hbracket hread hclose
  rw [ofToken_name ht] at hread'
  exact ⟨hcl', hread'⟩

theorem handles_block {inner : CommandDerivation .chain} (hinner : inner.Handles) :
    (CommandDerivation.block inner).Handles := by
  refine handles_item fun levels s r hs hc hi hin hr hopen => ?_
  rw [yield, List.cons_append, List.append_assoc] at hi
  obtain ⟨hk, hbegin, hafter⟩ := hs.advance_of_input (.keyword .beginKw) rfl hi
  simp only [Handled, Parser.single, hk]
  have hdone := hinner.outcome levels hs.advance hc.advance hafter hin rfl
    (by simp [Terminal.kind, Terminal.word])
  refine hdone.succ.completed (State.expect_reads _ _) fun hcl hread => ?_
  have hwf := (command_reads levels _).wellFormed hs.advance
  obtain ⟨hcl', hend, -⟩ := hwf.expect_of_input hcl rfl (hread.took.input_eq hafter)
  exact ⟨hcl', readAs_block hbegin hread hend⟩

theorem handles_letIn (decl : DeclDerivation .chain) {body : CommandDerivation .item}
    {rest : CommandDerivation .chain} (hbody : body.Handles) (hrest : rest.Handles) :
    (CommandDerivation.letIn decl body rest).Handles := by
  refine handles_item fun levels s r hs hc hi hin hr hopen => ?_
  simp only [yield, List.cons_append, List.append_assoc] at hi
  obtain ⟨hk, hlet, hafter⟩ := hs.advance_of_input (.keyword .letKw) rfl hi
  simp only [Handled, Parser.single, hk]
  have hdecl := decl.outcome levels hs.advance hc.advance hafter
    (by simp [Terminal.kind, Terminal.word]) (by simp [Terminal.kind, Terminal.word])
  have hwf := (declaration_reads levels _).wellFormed hs.advance
  have hdone := hdecl.andBehind (.keyword .inKw) hwf rfl
    (fun hd => hd.took.input_eq hafter) (single_reads levels) fun u hu hcl hi =>
      hbody levels u _ hu hcl hi hin.1 rfl (fun _ => by simp [Terminal.kind, Terminal.word])
  have hwf' := (single_reads levels _).wellFormed
    ((State.expect_reads _ (.keyword .inKw)).wellFormed hwf)
  have hall := hdone.andBehind (.keyword .endletKw) hwf' rfl
    (fun h => h.2.2.took.input_eq (h.2.1.input_eq (h.1.took.input_eq hafter)))
    (command_reads levels) fun u hu hcl hi =>
      hrest.outcome levels hu hcl hi hin.2 hr (hopen rfl)
  rw [Nat.max_assoc] at hall
  refine hall.succ.completed (State.finish_reads _ _ _) fun hcl hread => ?_
  obtain ⟨⟨hd, hin, hb⟩, hend, hr⟩ := hread
  exact ⟨hcl, readAs_letIn _ hlet hd hin hb hend hr⟩

theorem handles_cond (c : ExprDerivation .chain) {thenBranch elseBranch : CommandDerivation .item}
    (hthen : thenBranch.Handles) (helse : elseBranch.Handles) :
    (CommandDerivation.cond c thenBranch elseBranch).Handles := by
  refine handles_item fun levels s r hs hc hi hin hr hopen => ?_
  simp only [yield, List.cons_append, List.append_assoc] at hi
  obtain ⟨hk, hif, hafter⟩ := hs.advance_of_input (.keyword .ifKw) rfl hi
  simp only [Handled, Parser.single, hk]
  have hcond := c.outcome levels hs.advance hc.advance hafter
    (by simp [Terminal.kind, Terminal.word])
  have hwf := (expression_reads levels _).wellFormed hs.advance
  have hdone := hcond.andBehind (.keyword .thenKw) hwf rfl
    (fun hd => hd.took.input_eq hafter) (single_reads levels) fun u hu hcl hi =>
      hthen levels u _ hu hcl hi hin.1 rfl (fun _ => by simp [Terminal.kind, Terminal.word])
  have hwf' := (single_reads levels _).wellFormed
    ((State.expect_reads _ (.keyword .thenKw)).wellFormed hwf)
  have hall := hdone.andBehind (.keyword .elseKw) hwf' rfl
    (fun h => h.2.2.took.input_eq (h.2.1.input_eq (h.1.took.input_eq hafter)))
    (single_reads levels) fun u hu hcl hi => helse levels u r hu hcl hi hin.2 hr hopen
  rw [Nat.max_assoc] at hall
  refine hall.succ.completed (State.finish_reads _ _ _) fun hcl hread => ?_
  obtain ⟨⟨hc, hthenKw, ha⟩, helseKw, hb⟩ := hread
  exact ⟨hcl, readAs_cond _ hif hc hthenKw ha helseKw hb⟩

theorem handles_whileDo (c : ExprDerivation .chain) {body rest : CommandDerivation .chain}
    (hbody : body.Handles) (hrest : rest.Handles) :
    (CommandDerivation.whileDo c body rest).Handles := by
  refine handles_item fun levels s r hs hc hi hin hr hopen => ?_
  simp only [yield, List.cons_append, List.append_assoc] at hi
  obtain ⟨hk, hwhile, hafter⟩ := hs.advance_of_input (.keyword .whileKw) rfl hi
  simp only [Handled, Parser.single, hk]
  have hcond := c.outcome levels hs.advance hc.advance hafter
    (by simp [Terminal.kind, Terminal.word])
  have hwf := (expression_reads levels _).wellFormed hs.advance
  have hdone := hcond.andBehind (.keyword .doKw) hwf rfl
    (fun hd => hd.took.input_eq hafter) (command_reads levels) fun u hu hcl hi =>
      hbody.outcome levels hu hcl hi hin.1 rfl (by simp [Terminal.kind, Terminal.word])
  have hwf' := (command_reads levels _).wellFormed
    ((State.expect_reads _ (.keyword .doKw)).wellFormed hwf)
  have hall := hdone.andBehind (.keyword .wendKw) hwf' rfl
    (fun h => h.2.2.took.input_eq (h.2.1.input_eq (h.1.took.input_eq hafter)))
    (command_reads levels) fun u hu hcl hi =>
      hrest.outcome levels hu hcl hi hin.2 hr (hopen rfl)
  rw [Nat.max_assoc] at hall
  refine hall.succ.completed (State.finish_reads _ _ _) fun hcl hread => ?_
  obtain ⟨⟨hc, hdo, hb⟩, hwend, hr⟩ := hread
  exact ⟨hcl, readAs_whileDo _ hwhile hc hdo hb hwend hr⟩

theorem handles_doWhile {body : CommandDerivation .item} (hbody : body.Handles)
    (c : ExprDerivation .chain) :
    (CommandDerivation.doWhile body c).Handles := by
  refine handles_item fun levels s r hs hc hi hin hr hopen => ?_
  simp only [yield, List.cons_append, List.append_assoc] at hi
  obtain ⟨hk, hdo, hafter⟩ := hs.advance_of_input (.keyword .doKw) rfl hi
  simp only [Handled, Parser.single, hk]
  have hdone := hbody levels _ _ hs.advance hc.advance hafter hin rfl
    (fun _ => by simp [Terminal.kind, Terminal.word])
  have hwf := (single_reads levels _).wellFormed hs.advance
  have hcond := Outcome.andBehind hdone (.keyword .wendwhileKw) hwf rfl
    (fun hb => hb.took.input_eq hafter) (expression_reads levels) fun u hu hcl hi =>
      c.outcome levels hu hcl hi (ne_operator_of_endsCommand hr)
  refine hcond.succ.completed (State.finish_reads _ _ _) fun hcl hread => ?_
  obtain ⟨hb, hwendwhile, hc⟩ := hread
  exact ⟨hcl, readAs_doWhile _ hdo hb hwendwhile hc⟩

theorem handles_pass : CommandDerivation.pass.Handles := by
  refine handles_item fun levels s r hs hc hi hin hr hopen => ?_
  obtain ⟨hk, hpass, -⟩ := hs.advance_of_input (.keyword .passKw) rfl hi
  simp only [Handled, Parser.single, hk]
  exact .inl ⟨Nat.succ_le_succ (Nat.zero_le levels), hc.advance, readAs_pass _ hpass⟩

theorem handles_empty : CommandDerivation.empty.Handles := by
  refine handles_item fun levels s r hs hc hi hin hr hopen => ?_
  rw [Handled, single_of_endsCommand (by rw [hs.kind_eq, hi]; exact hr)]
  exact .inl ⟨Nat.succ_le_succ (Nat.zero_le levels), hc, readAs_empty _⟩

theorem handles_single {first : CommandDerivation .item} (hfirst : first.Handles) :
    (CommandDerivation.single first).Handles := by
  intro levels s r hs hc hi hin hr hopen
  exact .first (hfirst levels s r hs hc hi hin hr hopen) (single_reads levels s)
    (commandOf_eq_exhaust _ s) ReadAs.single

theorem handles_seq {front : CommandDerivation .chain} {last : CommandDerivation .item}
    (hfront : front.Handles) (hlast : last.Handles) :
    (CommandDerivation.seq front last).Handles := by
  intro levels s r hs hc hi hin hr hopen
  obtain ⟨hclosed, hin, hin'⟩ := hin
  rw [yield, List.append_assoc] at hi
  have hread := hfront levels s _ hs hc hi hin rfl (by simp [hclosed])
  refine Loop.Reaches.round hread hs fun first t hwf hcl hread => ?_
  obtain ⟨hk, hsemi, hafter⟩ := hwf.advance_of_input .semicolon rfl (hread.took.input_eq hi)
  refine ⟨by simpa [commands] using hk, ?_⟩
  have houtcome := hlast levels t.advance r hwf.advance hcl.advance hafter hin' hr hopen
  exact Outcome.completed houtcome (State.finish_reads _ _ _) fun hcl' hread' =>
    ⟨hcl', readAs_seq _ hread hsemi hread'⟩

theorem handles {x : Extent} (D : CommandDerivation x) : D.Handles := by
  induction D with
  | assign target value => exact handles_assign target value
  | call callee param => exact handles_call callee param
  | block inner ih => exact handles_block ih
  | letIn decl body rest ihb ihr => exact handles_letIn decl ihb ihr
  | cond c thenBranch elseBranch iht ihe => exact handles_cond c iht ihe
  | whileDo c body rest ihb ihr => exact handles_whileDo c ihb ihr
  | doWhile body c ih => exact handles_doWhile ih c
  | pass => exact handles_pass
  | empty => exact handles_empty
  | single first ih => exact handles_single ih
  | seq front last ihf ihl => exact handles_seq ihf ihl

end CommandDerivation

end TriLang
