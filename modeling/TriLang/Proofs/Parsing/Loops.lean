import TriLang.Proofs.Parsing.Input

/-! # Loops of the parser

Operators, declarations and commands are read in rounds, with as many rounds as there are tokens left. A
`Loop` is what the three have in common, a condition to go on and a round that reads at least one token.
`Loop.exhaust` runs it to its end, and its two equations (`exhaust_of_goesOn`, `exhaust_of_stops`) do not
count rounds. -/
namespace TriLang.Parser
set_option autoImplicit false

/-! ## Loops -/

/-- A part of reading that goes on in rounds. -/
structure Loop (α : Type) where
  /-- Whether there is another round. -/
  goesOn : State → Bool
  /-- One round: what it makes of what is there already. -/
  round : α → State → Parsed α
  reads : ∀ a s, Reads s (round a s).after
  shrinks : ∀ a s, s.WellFormed → goesOn s = true →
    (round a s).after.rest.length < s.rest.length

namespace Loop
variable {α : Type} (l : Loop α)

def run : Nat → α → State → Parsed α
  | 0, a, s => ⟨a, s⟩
  | n + 1, a, s => if l.goesOn s then run n (l.round a s).node (l.round a s).after else ⟨a, s⟩

def exhaust (a : α) (s : State) : Parsed α := l.run s.rest.length a s

theorem run_of_stops {s : State} (h : l.goesOn s = false) (n : Nat) (a : α) :
    l.run n a s = ⟨a, s⟩ := by
  cases n with
  | zero => rfl
  | succ n => simp [run, h]

theorem exhaust_of_stops {s : State} (h : l.goesOn s = false) (a : α) : l.exhaust a s = ⟨a, s⟩ :=
  l.run_of_stops h _ a

/-- Once there are as many rounds as tokens, further rounds change nothing. -/
theorem run_eq_run (n m : Nat) (a : α) (s : State) (hs : s.WellFormed) (hn : s.rest.length ≤ n)
    (hm : s.rest.length ≤ m) : l.run n a s = l.run m a s := by
  induction n generalizing m a s with
  | zero =>
    have hstop : l.goesOn s = false := by
      cases hgo : l.goesOn s with
      | false => rfl
      | true => have := l.shrinks a s hs hgo; omega
    rw [l.run_of_stops hstop, l.run_of_stops hstop]
  | succ n ih =>
    cases hgo : l.goesOn s with
    | false => rw [l.run_of_stops hgo, l.run_of_stops hgo]
    | true =>
      have hlt := l.shrinks a s hs hgo
      obtain ⟨k, rfl⟩ : ∃ k, m = k + 1 := ⟨m - 1, by omega⟩
      simp only [run, hgo, if_true]
      exact ih k _ _ ((l.reads a s).wellFormed hs) (by omega) (by omega)

theorem exhaust_of_goesOn {s : State} (hs : s.WellFormed) (hgo : l.goesOn s = true) (a : α) :
    l.exhaust a s = l.exhaust (l.round a s).node (l.round a s).after := by
  have hlt := l.shrinks a s hs hgo
  obtain ⟨k, hk⟩ : ∃ k, s.rest.length = k + 1 := ⟨s.rest.length - 1, by omega⟩
  rw [exhaust, hk, run, if_pos hgo]
  exact l.run_eq_run k _ _ _ ((l.reads a s).wellFormed hs) (by omega) (Nat.le_refl _)

/-- What every round keeps holds when the loop has ended, and then there is no other round. -/
theorem exhaust_induction (P : α → State → Prop)
    (hround : ∀ a s, s.WellFormed → l.goesOn s = true → P a s →
      P (l.round a s).node (l.round a s).after)
    (a : α) (s : State) (hs : s.WellFormed) (h : P a s) :
    P (l.exhaust a s).node (l.exhaust a s).after ∧ l.goesOn (l.exhaust a s).after = false := by
  induction hn : s.rest.length using Nat.strongRecOn generalizing a s with
  | _ n ih =>
    cases hgo : l.goesOn s with
    | false =>
      rw [l.exhaust_of_stops hgo]
      exact ⟨h, hgo⟩
    | true =>
      rw [l.exhaust_of_goesOn hs hgo]
      exact ih _ (by rw [← hn]; exact l.shrinks a s hs hgo) _ _ ((l.reads a s).wellFormed hs)
        (hround a s hs hgo h) rfl

theorem run_reads (n : Nat) (a : α) (s : State) : Reads s (l.run n a s).after := by
  induction n generalizing a s with
  | zero => exact .refl
  | succ n ih =>
    rw [run]
    split
    · exact (l.reads a s).trans (ih _ _)
    · exact .refl

theorem exhaust_reads (a : α) (s : State) : Reads s (l.exhaust a s).after := l.run_reads _ a s

end Loop

/-! ## The loops of the parser -/

/-- The operators and operands that follow an expression. -/
def operators (operand : State → Parsed Expr) (ho : ∀ s, Reads s (operand s).after) (start : Nat) :
    Loop Expr where
  goesOn s := s.kind = .operator
  round lhs s :=
    (operand s.readOperator.after).after.finish start
      (.binary · s.readOperator.node lhs (operand s.readOperator.after).node)
  reads lhs s := (s.readOperator_reads.trans (ho _)).trans (State.finish_reads _ _ _)
  shrinks lhs s hs hgo := by
    have hk : s.kind = .operator := by simpa using hgo
    have hlt : s.advance.rest.length < s.rest.length := hs.advance_lt (by rw [hk]; decide)
    exact Nat.lt_of_le_of_lt (ho s.readOperator.after).length_rest_le hlt

theorem expressionOf_eq_exhaust {operand : State → Parsed Expr}
    (ho : ∀ s, Reads s (operand s).after) (s : State) :
    expressionOf operand s =
      (operators operand ho s.start).exhaust (operand s).node (operand s).after := by
  have htail : ∀ n lhs t, operatorTail operand s.start n lhs t =
      (operators operand ho s.start).run n lhs t := by
    intro n
    induction n with
    | zero => intro lhs t; rfl
    | succ n ih =>
      intro lhs t
      rw [operatorTail, Loop.run]
      simp only [operators, ih, decide_eq_true_eq]
  exact htail _ _ _

/-- The declarations that follow one, each after a `;`. -/
def declarations (levels start : Nat) : Loop Decl where
  goesOn s := s.kind = .semicolon
  round first s :=
    (singleDeclaration levels s.advance).after.finish start
      (.seq · first (singleDeclaration levels s.advance).node)
  reads first s :=
    (s.advance_reads.trans (singleDeclaration_reads _ _)).trans (State.finish_reads _ _ _)
  shrinks first s hs hgo := by
    have hk : s.kind = .semicolon := by simpa using hgo
    have hlt : s.advance.rest.length < s.rest.length := hs.advance_lt (by rw [hk]; decide)
    exact Nat.lt_of_le_of_lt (singleDeclaration_reads levels s.advance).length_rest_le hlt

theorem declaration_eq_exhaust (levels : Nat) (s : State) :
    declaration levels s =
      (declarations levels s.start).exhaust (singleDeclaration levels s).node
        (singleDeclaration levels s).after := by
  have htail : ∀ n first t, declarationTail levels s.start n first t =
      (declarations levels s.start).run n first t := by
    intro n
    induction n with
    | zero => intro first t; rfl
    | succ n ih =>
      intro first t
      rw [declarationTail, Loop.run]
      simp only [declarations, ih, decide_eq_true_eq]
  exact htail _ _ _

/-- The commands that follow one, each after a `;`. -/
def commands (single : State → Parsed Command) (hc : ∀ s, Reads s (single s).after) (start : Nat) :
    Loop Command where
  goesOn s := s.kind = .semicolon
  round first s :=
    (single s.advance).after.finish start (.seq · first (single s.advance).node)
  reads first s := (s.advance_reads.trans (hc _)).trans (State.finish_reads _ _ _)
  shrinks first s hs hgo := by
    have hk : s.kind = .semicolon := by simpa using hgo
    have hlt : s.advance.rest.length < s.rest.length := hs.advance_lt (by rw [hk]; decide)
    exact Nat.lt_of_le_of_lt (hc s.advance).length_rest_le hlt

theorem commandOf_eq_exhaust {single : State → Parsed Command}
    (hc : ∀ s, Reads s (single s).after) (s : State) :
    commandOf single s =
      (commands single hc s.start).exhaust (single s).node (single s).after := by
  have htail : ∀ n first t, commandTail single s.start n first t =
      (commands single hc s.start).run n first t := by
    intro n
    induction n with
    | zero => intro first t; rfl
    | succ n ih =>
      intro first t
      rw [commandTail, Loop.run]
      simp only [commands, ih, decide_eq_true_eq]
  exact htail _ _ _

end TriLang.Parser
