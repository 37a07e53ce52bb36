import Mathlib.Data.List.Forall2
import Mathlib.Data.List.TakeWhile
import TriLang.Proofs.Parsing.Acceptance
import TriLang.Proofs.Syntax.Parts

/-! # The list of errors

Reading adds errors at the end of the list only, each at the token that it looks at, and it never goes
back. Errors are kept back in two ways: there is a limit to their number, and none is recorded once reading
has given up. `Recorded` is what holds of a state all the same: the errors stand at tokens further and
further to the right, and too deep nesting is recorded where reading gives up. Every step keeps it
(`Recorded.step`), so it holds when the parser stops (`final_recorded`).

A tree that could not be read everywhere, too deep nesting and tokens that are left behind all leave an
error in the list (`errorFree_of_parse`); `parse_errors` puts this together. -/
namespace TriLang
set_option autoImplicit false

/-! ## Nodes that stand in for others -/

namespace Node

/-- The node stands in for something that could not be read. -/
inductive IsError : Node → Prop where
  | command (m : Mark) : IsError (.command (.error m))
  | decl (m : Mark) : IsError (.decl (.error m))
  | param (m : Mark) : IsError (.param (.error m))
  | expr (m : Mark) : IsError (.expr (.error m))

/-- Nothing in the tree stands in for something that could not be read. -/
def ErrorFree : Node → Prop
  | command c => c.ErrorFree
  | decl d => d.ErrorFree
  | param p => p.ErrorFree
  | expr e => e.ErrorFree
  | _ => True

theorem ErrorFree.not_isError {n : Node} (h : n.ErrorFree) : ¬ n.IsError := by
  intro hn
  cases hn <;> exact h

theorem ErrorFree.children {n : Node} (h : n.ErrorFree) : ∀ c ∈ n.children, c.ErrorFree := by
  cases n with
  | command c => cases c <;> simp_all [Node.children, Command.children, ErrorFree, Command.ErrorFree]
  | decl d => cases d <;> simp_all [Node.children, Decl.children, ErrorFree, Decl.ErrorFree]
  | type d => simp [Node.children, ErrorFree]
  | param p => cases p <;> simp_all [Node.children, Param.children, ErrorFree, Param.ErrorFree]
  | expr e => cases e <;> simp_all [Node.children, Expr.children, ErrorFree, Expr.ErrorFree]
  | ident i => simp [Node.children]
  | operator o => simp [Node.children]

theorem ErrorFree.of_contains {n m : Node} (h : n.ErrorFree) (hm : n.Contains m) : m.ErrorFree := by
  induction hm with
  | here => exact h
  | inside hc _ ih => exact ih (h.children _ hc)

end Node

namespace Parser

/-! ## Tokens and the end behind them -/

/-- The token for the end of the text that a list of tokens without one gets. -/
def addedEnd (tokens : List Token) : Token :=
  match tokens.getLast? with
  | some last => ⟨.endOfText, "", .point last.span.stop, last.position⟩
  | none => ⟨.endOfText, "", .point 0, ⟨0, 0⟩⟩

/-- The tokens, the last one of them for the end of the text. -/
def ended (tokens : List Token) : List Token :=
  if tokens.getLast?.map (·.kind) = some .endOfText then tokens else tokens ++ [addedEnd tokens]

theorem stopToken_eq (tokens : List Token) :
    stopToken tokens = (tokens.find? (·.kind = .endOfText)).getD (addedEnd tokens) := by
  unfold stopToken addedEnd
  split
  · next h => rw [h]; rfl
  · next h => rw [h]; rfl

/-- The state is the one with the token at this place in front of it. -/
def State.StandsAt (all : List Token) (place : Nat) (s : State) : Prop :=
  ∃ behind, all.drop place = s.rest ++ s.stop :: behind

theorem initial_standsAt (tokens : List Token) : (initial tokens).StandsAt (ended tokens) 0 := by
  change ∃ behind, (ended tokens).drop 0 =
    tokens.takeWhile (·.kind ≠ .endOfText) ++ stopToken tokens :: behind
  rw [List.drop_zero, stopToken_eq]
  cases hfind : tokens.find? (·.kind = .endOfText) with
  | none =>
    have hall : ∀ t ∈ tokens, t.kind ≠ .endOfText := by simpa using hfind
    have htake : tokens.takeWhile (·.kind ≠ .endOfText) = tokens :=
      List.takeWhile_eq_self_iff.2 (by simpa using hall)
    have hlast : tokens.getLast?.map (·.kind) ≠ some .endOfText := by
      intro hlast
      obtain ⟨t, ht, hk⟩ := Option.map_eq_some_iff.1 hlast
      exact hall t (List.mem_of_getLast? ht) hk
    exact ⟨[], by rw [ended, if_neg hlast, htake, Option.getD_none]⟩
  | some stop =>
    obtain ⟨hstop, front, back, rfl, hfront⟩ := List.find?_eq_some_iff_append.1 hfind
    have htake : (front ++ stop :: back).takeWhile (·.kind ≠ .endOfText) = front := by
      rw [List.takeWhile_append_of_pos (by simpa using hfront),
        List.takeWhile_cons_of_neg (by simpa using hstop), List.append_nil]
    rw [htake, ended, Option.getD_some]
    split
    · exact ⟨back, rfl⟩
    · exact ⟨back ++ [addedEnd (front ++ stop :: back)], by simp⟩

namespace State
variable {all : List Token} {place : Nat} {s t : State}

theorem StandsAt.current (h : s.StandsAt all place) : all[place]? = some s.current := by
  obtain ⟨behind, h⟩ := h
  rw [← List.head?_drop, h, State.current]
  cases s.rest <;> rfl

/-- Reading goes to the right, and no further than the end. -/
theorem StandsAt.step (h : s.StandsAt all place) (hstep : Step s t) :
    ∃ next, place ≤ next ∧ t.StandsAt all next := by
  obtain ⟨behind, h⟩ := h
  cases hstep with
  | advance =>
    cases hrest : s.rest with
    | nil => exact ⟨place, Nat.le_refl _, behind, by rw [advance_rest, advance_stop, h, hrest]; rfl⟩
    | cons u rest =>
      refine ⟨place + 1, Nat.le_succ _, behind, ?_⟩
      rw [← List.drop_drop, h, advance_rest, advance_stop, hrest]
      rfl
  | report cause =>
    exact ⟨place, Nat.le_refl _, behind, by rw [h, report_rest, report_stop]⟩
  | number => exact ⟨place, Nat.le_refl _, behind, h⟩
  | abandon =>
    refine ⟨place + s.rest.length, Nat.le_add_right _ _, behind, ?_⟩
    rw [← List.drop_drop, h, List.drop_left]
    change _ = (s.report .tooDeep).stop :: behind
    rw [report_stop]

end State

/-! ## What is recorded -/

theorem State.report_errors (s : State) (cause : ParseError.Cause) :
    (s.report cause).errors = s.errors ∨
      (s.report cause).errors = s.errors ++ [⟨cause, s.current.span⟩] ∧
        s.abandoned = false ∧ s.errors.length < maxErrors := by
  unfold report
  split
  · next h =>
    rw [Bool.and_eq_true, Bool.not_eq_true', decide_eq_true_eq] at h
    exact .inr ⟨rfl, h⟩
  · exact .inl rfl

/-- A step that records an error does so at the current token, and records too deep nesting only when
reading is given up. -/
theorem Step.errors {s t : State} (h : Step s t) :
    (t.errors = s.errors ∨ ∃ cause, t.errors = s.errors ++ [⟨cause, s.current.span⟩] ∧
      s.abandoned = false ∧ s.errors.length < maxErrors ∧ (cause = .tooDeep → t.abandoned = true)) ∧
    (s.abandoned = true → t.abandoned = true) := by
  refine ⟨?_, fun ha => (h.of_abandoned ha).1⟩
  cases h with
  | advance => exact .inl s.advance_errors
  | report cause hcause =>
    rcases s.report_errors cause with hsame | ⟨hadded, hon, hfew⟩
    · exact .inl hsame
    · exact .inr ⟨cause, hadded, hon, hfew, fun h => absurd h hcause⟩
  | number => exact .inl rfl
  | abandon =>
    rcases s.report_errors .tooDeep with hsame | ⟨hadded, hon, hfew⟩
    · exact .inl hsame
    · exact .inr ⟨.tooDeep, hadded, hon, hfew, fun _ => rfl⟩

/-- What holds of the errors recorded so far. -/
structure State.Recorded (all : List Token) (s : State) : Prop where
  few : s.errors.length ≤ maxErrors
  /-- The errors are at tokens from the left to the right, the last one not behind the current token. -/
  located : ∃ place places, s.StandsAt all place ∧ (∀ p ∈ places, p ≤ place) ∧
    places.Pairwise (· ≤ ·) ∧
    List.Forall₂ (fun p (e : ParseError) => all[p]?.map (·.span) = some e.span) places s.errors
  /-- Once too deep nesting is recorded, reading has given up. -/
  deepest : ∀ front e back, s.errors = front ++ e :: back → e.cause = .tooDeep →
    back = [] ∧ s.abandoned = true

namespace State.Recorded
variable {all : List Token} {s t : State}

/-- Reading on without recording anything. -/
theorem same (h : s.Recorded all) (hstep : Step s t) (herrors : t.errors = s.errors) :
    t.Recorded all := by
  obtain ⟨place, places, hplace, hle, hsorted, hspans⟩ := h.located
  obtain ⟨next, hnext, ht⟩ := hplace.step hstep
  refine ⟨herrors ▸ h.few, ⟨next, places, ht, fun p hp => Nat.le_trans (hle p hp) hnext, hsorted,
    herrors ▸ hspans⟩, fun front e back hsplit hdeep => ?_⟩
  obtain ⟨hback, ha⟩ := h.deepest front e back (herrors ▸ hsplit) hdeep
  exact ⟨hback, hstep.errors.2 ha⟩

theorem step (h : s.Recorded all) (hstep : Step s t) : t.Recorded all := by
  rcases hstep.errors.1 with hsame | ⟨cause, hadded, hon, hfew, hdeepest⟩
  · exact h.same hstep hsame
  · obtain ⟨place, places, hplace, hle, hsorted, hspans⟩ := h.located
    obtain ⟨next, hnext, ht⟩ := hplace.step hstep
    refine ⟨?_, ⟨next, places ++ [place], ht, ?_, ?_, ?_⟩, ?_⟩
    · rw [hadded, List.length_append, List.length_singleton]
      exact hfew
    · exact List.forall_mem_append.2
        ⟨fun p hp => Nat.le_trans (hle p hp) hnext, List.forall_mem_singleton.2 hnext⟩
    · refine List.pairwise_append.2 ⟨hsorted, List.pairwise_singleton _ _, fun p hp q hq => ?_⟩
      exact List.mem_singleton.1 hq ▸ hle p hp
    · rw [hadded]
      refine List.rel_append hspans (.cons ?_ .nil)
      rw [hplace.current]
      rfl
    · intro front e back hsplit hdeep
      rw [hadded] at hsplit
      rcases List.eq_nil_or_concat back with rfl | ⟨back, last, rfl⟩
      · obtain ⟨-, he⟩ := List.append_inj' hsplit rfl
        obtain rfl := (List.cons.inj he).1
        exact ⟨rfl, hdeepest hdeep⟩
      · -- an earlier error of this kind would have been recorded after giving up
        rw [List.concat_eq_append, ← List.cons_append, ← List.append_assoc] at hsplit
        obtain ⟨hs, -⟩ := List.append_inj' hsplit rfl
        exact absurd (h.deepest front e back hs hdeep).2 (by rw [hon]; decide)

theorem reads (h : s.Recorded all) (hreads : Reads s t) : t.Recorded all := by
  induction hreads with
  | refl => exact h
  | tail _ hstep ih => exact ih.step hstep

end State.Recorded

theorem initial_recorded (tokens : List Token) : (initial tokens).Recorded (ended tokens) where
  few := Nat.zero_le _
  located := ⟨0, [], initial_standsAt tokens, by simp, .nil, .nil⟩
  deepest := fun front e back h => absurd h (by simp [initial])

theorem final_recorded (tokens : List Token) : (final tokens).Recorded (ended tokens) :=
  (initial_recorded tokens).reads (final_reads tokens)

/-! ## What leaves an error -/

/-- Without errors all of the tokens are read, the limit is not met and the tree is complete. -/
theorem errorFree_of_parse {tokens : List Token} (h : (parse tokens).errors = []) :
    (Node.command (parse tokens).program.command).ErrorFree ∧ (final tokens).abandoned = false ∧
      (final tokens).rest = [] := by
  have hclean : (final tokens).Clean := (final_clean_iff tokens).2 h
  refine ⟨(nodup_ids_of_parse h).2, hclean.2, ?_⟩
  have hrest : (final tokens).rest = (command maxDepth (initial tokens)).after.rest := by
    unfold final
    dsimp only
    split
    · rfl
    · rw [State.report_rest]
  rw [hrest]
  exact List.map_eq_nil_iff.1 (of_final_clean hclean).2

end Parser

open TriLang.Parser

/-- At most 20 errors are recorded. Each has the span of one of the tokens, to which one for the end of the
text is added if they do not end with one, and these tokens come one behind the other. Too deep nesting
can only be the last error. There is an error whenever a node of the tree stands in for something that could
not be read, whenever the nesting limit is met, and whenever a token in front of the end is left behind. -/
theorem parse_errors (tokens : List Token) :
    (parse tokens).errors.length ≤ 20 ∧
    (∃ places : List Nat, places.Pairwise (· ≤ ·) ∧
      List.Forall₂ (fun p (e : ParseError) => (ended tokens)[p]?.map (·.span) = some e.span) places
        (parse tokens).errors) ∧
    (∀ front e back, (parse tokens).errors = front ++ e :: back → e.cause = .tooDeep → back = []) ∧
    ((∃ n, (Node.command (parse tokens).program.command).Contains n ∧ n.IsError) →
      (parse tokens).errors ≠ []) ∧
    ((final tokens).abandoned = true → (parse tokens).errors ≠ []) ∧
    ((final tokens).rest ≠ [] → (parse tokens).errors ≠ []) := by
  have hrecorded := final_recorded tokens
  obtain ⟨place, places, -, -, hsorted, hspans⟩ := hrecorded.located
  refine ⟨hrecorded.few, ⟨places, hsorted, hspans⟩, ?_, ?_, ?_, ?_⟩
  · exact fun front e back hsplit hdeep => (hrecorded.deepest front e back hsplit hdeep).1
  · rintro ⟨n, hn, herror⟩ h
    exact ((errorFree_of_parse h).1.of_contains hn).not_isError herror
  · intro ha h
    exact absurd ha (by rw [(errorFree_of_parse h).2.1]; decide)
  · exact fun hrest h => hrest (errorFree_of_parse h).2.2

/-- In `x y` the name goes on neither as a call nor as an assignment, and the second one is left behind. -/
theorem parse_errors_left_behind :
    let tokens := (tokenize "x y".toList).tokens
    (final tokens).rest ≠ [] ∧ (parse tokens).errors ≠ [] := by
  have hrest : (final (tokenize "x y".toList).tokens).rest ≠ [] := by decide +kernel
  exact ⟨hrest, (parse_errors _).2.2.2.2.2 hrest⟩

end TriLang
