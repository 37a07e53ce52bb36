import TriLang.Proofs.Parsing.Loops
import TriLang.Proofs.Parsing.Productions

/-! # What is read without errors is derived

If nothing has gone wrong after a reading function, then it read along a derivation, of a depth within the
levels it was given. A state after an error is not clean, and no later state is, so every part of what was
read without errors was read without errors itself (`Reads.clean`).

After an expression no operator stands, and after a list of commands no `;`. That no list is open in front
of a `;` follows: the loop would have gone on with that list. -/
namespace TriLang.Parser
set_option autoImplicit false

/-! ## Expressions -/

theorem expressionOf_sound {operand : State → Parsed Expr} {levels : Nat}
    (ho : ∀ s, Reads s (operand s).after)
    (hoperand : ∀ s : State, s.WellFormed → (operand s).after.Clean →
      ∃ D : ExprDerivation .item, D.depth ≤ levels ∧ D.ReadAs s (operand s))
    (s : State) (hs : s.WellFormed) (hclean : (expressionOf operand s).after.Clean) :
    ∃ D : ExprDerivation .chain, D.depth ≤ levels ∧ D.ReadAs s (expressionOf operand s) := by
  rw [expressionOf_eq_exhaust ho] at hclean ⊢
  refine ((operators operand ho s.start).exhaust_induction
    (fun lhs t => t.Clean → ∃ D : ExprDerivation .chain, D.depth ≤ levels ∧ D.ReadAs s ⟨lhs, t⟩)
    ?_ _ _ ((ho s).wellFormed hs) ?_).1 hclean
  · intro lhs t ht hgo ih hround
    have hk : t.kind = .operator := by simpa [operators] using hgo
    have hrhs : (operand t.readOperator.after).after.Clean := hround
    have hop := (ho _).clean hrhs
    obtain ⟨D, hD, hread⟩ := ih (t.readOperator_reads.clean hop)
    obtain ⟨E, hE, hread'⟩ := hoperand _ (t.readOperator_reads.wellFormed ht) hrhs
    exact ⟨.binary D t.current.spelling E, Nat.max_le.2 ⟨hD, hE⟩,
      ExprDerivation.readAs_binary _ hread ht hk hread'⟩
  · intro hfirst
    obtain ⟨D, hD, hread⟩ := hoperand s hs hfirst
    exact ⟨.single D, hD, hread.single⟩

theorem primary_sound (levels : Nat) (s : State) (hs : s.WellFormed)
    (hclean : (primary levels s).after.Clean) :
    ∃ D : ExprDerivation .item, D.depth ≤ levels ∧ D.ReadAs s (primary levels s) := by
  induction levels generalizing s with
  | zero => exact absurd hclean.2 (by simp [primary, State.giveUp, State.finishAt])
  | succ levels ih =>
    rw [primary] at hclean ⊢
    split at hclean
    · next hk =>
      exact ⟨.int s.current.spelling, Nat.succ_le_succ (Nat.zero_le levels),
        ExprDerivation.readAs_int _ hs hk⟩
    · next hk =>
      exact ⟨.char (literalChar s.current.spelling), Nat.succ_le_succ (Nat.zero_le levels),
        ExprDerivation.readAs_char _ hs hk⟩
    · next hk =>
      exact ⟨.name s.current.spelling, Nat.succ_le_succ (Nat.zero_le levels),
        ExprDerivation.readAs_name _ hs hk⟩
    · next hk =>
      obtain ⟨D, hD, hread⟩ := ih _ (s.readOperator_reads.wellFormed hs) hclean
      exact ⟨.unary s.current.spelling D, Nat.succ_le_succ hD,
        ExprDerivation.readAs_unary _ hs hk hread⟩
    · next hk =>
      have hinner := (State.expect_reads _ _).clean hclean
      obtain ⟨D, hD, hread⟩ := expressionOf_sound (primary_reads levels) ih _ hs.advance hinner
      have hclose := ((expression_reads levels _).wellFormed hs.advance).took_expect rfl hclean
      exact ⟨.brackets D, Nat.succ_le_succ hD,
        ExprDerivation.readAs_brackets (hs.took_fixed rfl hk) hread hclose⟩
    · exact absurd hclean (State.not_clean_report s _)

theorem expression_sound (levels : Nat) (s : State) (hs : s.WellFormed)
    (hclean : (expression levels s).after.Clean) :
    ∃ D : ExprDerivation .chain, D.depth ≤ levels ∧ D.ReadAs s (expression levels s) :=
  expressionOf_sound (primary_reads levels) (primary_sound levels) s hs hclean

/-! ## Parameters and declarations -/

theorem kind_of_expectIdent_clean {s : State} {what : Expectation}
    (h : (s.expectIdent what).after.Clean) :
    s.kind = .identifier ∧ s.expectIdent what = ⟨some s.readIdent.node, s.readIdent.after⟩ := by
  unfold State.expectIdent at h ⊢
  split at h
  · next hk => exact ⟨hk, by simp [hk]⟩
  · exact absurd h (State.not_clean_report s _)

theorem parameter_sound (levels : Nat) (s : State) (hs : s.WellFormed)
    (hclean : (parameter levels s).after.Clean) :
    ∃ D : ParamDerivation, D.depth ≤ levels ∧ D.ReadAs s (parameter levels s) := by
  unfold parameter at hclean ⊢
  split at hclean
  · next hstart =>
    obtain ⟨D, hD, hread⟩ := expression_sound levels s hs hclean
    rw [if_pos hstart]
    exact ⟨.value D, hD, ParamDerivation.readAs_value _ hread⟩
  · next hstart =>
    rw [if_neg hstart]
    split at hclean
    · next hvar =>
      rw [if_pos hvar]
      have hname : (s.advance.expectIdent .name).after.Clean := by
        dsimp only at hclean
        split at hclean <;> exact hclean
      obtain ⟨hk, hident⟩ := kind_of_expectIdent_clean hname
      rw [hident]
      exact ⟨.reference s.advance.current.spelling, Nat.zero_le levels,
        ParamDerivation.readAs_reference _ (hs.took_fixed rfl hvar) hs.advance hk⟩
    · next hvar =>
      rw [if_neg hvar]
      exact ⟨.empty, Nat.zero_le levels, ParamDerivation.readAs_empty _⟩

theorem singleDeclaration_sound (levels : Nat) (s : State) (hs : s.WellFormed)
    (hclean : (singleDeclaration levels s).after.Clean) :
    ∃ D : DeclDerivation .item, D.depth ≤ levels ∧ D.ReadAs s (singleDeclaration levels s) := by
  unfold singleDeclaration at hclean ⊢
  split at hclean
  · next hk =>
    have hvalue : (expression levels
        ((s.advance.expectIdent .name).after.expect .is)).after.Clean := by
      dsimp only at hclean
      split at hclean <;> exact hclean
    have his := (expression_reads levels _).clean hvalue
    obtain ⟨hname, hident⟩ := kind_of_expectIdent_clean ((State.expect_reads _ _).clean his)
    rw [hident] at his hvalue ⊢
    have hwf := s.advance.readIdent_reads.wellFormed hs.advance
    obtain ⟨D, hD, hread⟩ := expression_sound levels _ ((State.expect_reads _ _).wellFormed hwf) hvalue
    exact ⟨.const s.advance.current.spelling D, hD,
      DeclDerivation.readAs_const _ (hs.took_fixed rfl hk) hs.advance hname (hwf.took_expect rfl his)
        hread⟩
  · next hk =>
    have htype : (typeDenoter (s.advance.expectIdent .name).after).after.Clean := by
      dsimp only at hclean
      split at hclean <;> exact hclean
    obtain ⟨hname, hident⟩ := kind_of_expectIdent_clean ((typeDenoter_reads _).clean htype)
    rw [hident] at htype ⊢
    have hdenoter : (s.advance.readIdent.after.expectIdent .typeName).after.Clean := by
      unfold typeDenoter at htype
      dsimp only at htype
      split at htype <;> exact htype
    obtain ⟨hname', hident'⟩ := kind_of_expectIdent_clean hdenoter
    simp only [typeDenoter, hident']
    exact ⟨.var s.advance.current.spelling s.advance.readIdent.after.current.spelling,
      Nat.zero_le levels,
      DeclDerivation.readAs_var _ _ (hs.took_fixed rfl hk) hs.advance hname hname'⟩
  · exact absurd hclean (State.not_clean_report s _)

theorem declaration_sound (levels : Nat) (s : State) (hs : s.WellFormed)
    (hclean : (declaration levels s).after.Clean) :
    ∃ D : DeclDerivation .chain, D.depth ≤ levels ∧ D.ReadAs s (declaration levels s) := by
  rw [declaration_eq_exhaust] at hclean ⊢
  refine ((declarations levels s.start).exhaust_induction
    (fun first t => t.Clean → ∃ D : DeclDerivation .chain, D.depth ≤ levels ∧ D.ReadAs s ⟨first, t⟩)
    ?_ _ _ ((singleDeclaration_reads levels s).wellFormed hs) ?_).1 hclean
  · intro first t ht hgo ih hround
    have hk : t.kind = .semicolon := by simpa [declarations] using hgo
    have hsecond : (singleDeclaration levels t.advance).after.Clean := hround
    have hafter := (singleDeclaration_reads levels _).clean hsecond
    obtain ⟨D, hD, hread⟩ := ih (t.advance_reads.clean hafter)
    obtain ⟨E, hE, hread'⟩ := singleDeclaration_sound levels _ ht.advance hsecond
    exact ⟨.seq D E, Nat.max_le.2 ⟨hD, hE⟩,
      DeclDerivation.readAs_seq _ hread (ht.took_fixed rfl hk) hread'⟩
  · intro hfirst
    obtain ⟨D, hD, hread⟩ := singleDeclaration_sound levels s hs hfirst
    exact ⟨.single D, hD, hread.single⟩

/-! ## Commands -/

/-- What was read as a command has a derivation of a depth within the levels. In it every `;` belongs to
the innermost open list, and so would one that stands behind it. -/
def SoundCommand (x : Extent) (levels : Nat) (s : State) (p : Parsed Command) : Prop :=
  ∃ D : CommandDerivation x, D.depth ≤ levels ∧ D.Innermost ∧ D.ReadAs s p ∧
    (D.openEnded = true → p.after.kind ≠ .semicolon)

theorem commandOf_sound {single : State → Parsed Command} {levels : Nat}
    (hc : ∀ s, Reads s (single s).after)
    (hsingle : ∀ s : State, s.WellFormed → (single s).after.Clean →
      SoundCommand .item levels s (single s))
    (s : State) (hs : s.WellFormed) (hclean : (commandOf single s).after.Clean) :
    SoundCommand .chain levels s (commandOf single s) ∧
      (commandOf single s).after.kind ≠ .semicolon := by
  rw [commandOf_eq_exhaust hc] at hclean ⊢
  have hfirst : (single s).after.Clean → SoundCommand .chain levels s (single s) := by
    intro hclean
    obtain ⟨D, hD, hinner, hread, hopen⟩ := hsingle s hs hclean
    exact ⟨.single D, hD, hinner, hread.single, hopen⟩
  have hloop := (commands single hc s.start).exhaust_induction
    (fun first t => t.Clean → SoundCommand .chain levels s ⟨first, t⟩)
    (by
      intro first t ht hgo ih hround
      have hk : t.kind = .semicolon := by simpa [commands] using hgo
      have hsecond : (single t.advance).after.Clean := hround
      have hafter := (hc _).clean hsecond
      obtain ⟨D, hD, hinner, hread, hopen⟩ := ih (t.advance_reads.clean hafter)
      obtain ⟨E, hE, hinner', hread', hopen'⟩ := hsingle _ ht.advance hsecond
      -- the list that `D` might leave open would have taken this `;`
      have hclosed : D.openEnded = false := by
        cases h : D.openEnded with
        | false => rfl
        | true => exact absurd hk (hopen h)
      exact ⟨.seq D E, Nat.max_le.2 ⟨hD, hE⟩, ⟨hclosed, hinner, hinner'⟩,
        CommandDerivation.readAs_seq _ hread (ht.took_fixed rfl hk) hread', hopen'⟩)
    (single s).node (single s).after ((hc s).wellFormed hs) hfirst
  exact ⟨hloop.1 hclean, by simpa [commands] using hloop.2⟩

theorem namedCommand_sound (levels : Nat) (s : State) (hs : s.WellFormed)
    (hk : s.kind = .identifier) (hclean : (namedCommand levels s).after.Clean) :
    SoundCommand .item (levels + 1) s (namedCommand levels s) := by
  have hwf := s.readIdent_reads.wellFormed hs
  unfold namedCommand at hclean ⊢
  dsimp only at hclean ⊢
  split at hclean
  · next hbracket =>
    have hclose : ((parameter levels s.readIdent.after.advance).after.expect
      .rightBracket).Clean := hclean
    obtain ⟨D, hD, hread⟩ :=
      parameter_sound levels _ hwf.advance ((State.expect_reads _ _).clean hclose)
    have hbehind := (parameter_reads levels _).wellFormed hwf.advance
    exact ⟨.call s.current.spelling D, Nat.succ_le_succ hD, trivial,
      CommandDerivation.readAs_call _ hs hk (hwf.took_fixed rfl hbracket) hread
        (hbehind.took_expect rfl hclose), by simp [CommandDerivation.openEnded]⟩
  · next hbecomes =>
    obtain ⟨D, hD, hread⟩ := expression_sound levels _ hwf.advance hclean
    exact ⟨.assign s.current.spelling D, Nat.succ_le_succ hD, trivial,
      CommandDerivation.readAs_assign _ hs hk (hwf.took_fixed rfl hbecomes) hread,
      by simp [CommandDerivation.openEnded]⟩
  · exact absurd hclean (State.not_clean_report _ _)

section
variable {levels : Nat} {s : State}
  (ih : ∀ s : State, s.WellFormed → (single levels s).after.Clean →
    SoundCommand .item levels s (single levels s)) (hs : s.WellFormed)
include ih hs

theorem block_sound (hk : s.kind = .keyword .beginKw) (hclean : (single (levels + 1) s).after.Clean) :
    SoundCommand .item (levels + 1) s (single (levels + 1) s) := by
  simp only [single, hk] at hclean ⊢
  have hinner := (State.expect_reads _ _).clean hclean
  obtain ⟨⟨D, hD, hin, hread, -⟩, -⟩ := commandOf_sound (single_reads levels) ih _ hs.advance hinner
  have hclose := ((command_reads levels _).wellFormed hs.advance).took_expect rfl hclean
  exact ⟨.block D, Nat.succ_le_succ hD, hin,
    CommandDerivation.readAs_block (hs.took_fixed rfl hk) hread hclose,
    by simp [CommandDerivation.openEnded]⟩

theorem letIn_sound (hk : s.kind = .keyword .letKw) (hclean : (single (levels + 1) s).after.Clean) :
    SoundCommand .item (levels + 1) s (single (levels + 1) s) := by
  simp only [single, hk] at hclean ⊢
  have hrest : (commandOf (single levels) ((single levels ((declaration levels
    s.advance).after.expect (.keyword .inKw))).after.expect (.keyword .endletKw))).after.Clean :=
    hclean
  have hendlet := (command_reads levels _).clean hrest
  have hbody := (State.expect_reads _ _).clean hendlet
  have hin := (single_reads levels _).clean hbody
  have hdecl := (State.expect_reads _ _).clean hin
  have hwf1 := (declaration_reads levels _).wellFormed hs.advance
  have hwf2 := (State.expect_reads _ (.keyword .inKw)).wellFormed hwf1
  have hwf3 := (single_reads levels _).wellFormed hwf2
  have hwf4 := (State.expect_reads _ (.keyword .endletKw)).wellFormed hwf3
  obtain ⟨D, hD, hd⟩ := declaration_sound levels _ hs.advance hdecl
  obtain ⟨B, hB, hBin, hb, -⟩ := ih _ hwf2 hbody
  obtain ⟨⟨R, hR, hRin, hr, -⟩, hstop⟩ := commandOf_sound (single_reads levels) ih _ hwf4 hrest
  exact ⟨.letIn D B R, Nat.succ_le_succ (Nat.max_le.2 ⟨hD, Nat.max_le.2 ⟨hB, hR⟩⟩), ⟨hBin, hRin⟩,
    CommandDerivation.readAs_letIn _ (hs.took_fixed rfl hk) hd (hwf1.took_expect rfl hin) hb
      (hwf3.took_expect rfl hendlet) hr, fun _ => hstop⟩

theorem cond_sound (hk : s.kind = .keyword .ifKw) (hclean : (single (levels + 1) s).after.Clean) :
    SoundCommand .item (levels + 1) s (single (levels + 1) s) := by
  simp only [single, hk] at hclean ⊢
  have helse_branch : (single levels ((single levels ((expression levels
    s.advance).after.expect (.keyword .thenKw))).after.expect (.keyword .elseKw))).after.Clean :=
    hclean
  have helse := (single_reads levels _).clean helse_branch
  have hthen_branch := (State.expect_reads _ _).clean helse
  have hthen := (single_reads levels _).clean hthen_branch
  have hcond := (State.expect_reads _ _).clean hthen
  have hwf1 := (expression_reads levels _).wellFormed hs.advance
  have hwf2 := (State.expect_reads _ (.keyword .thenKw)).wellFormed hwf1
  have hwf3 := (single_reads levels _).wellFormed hwf2
  have hwf4 := (State.expect_reads _ (.keyword .elseKw)).wellFormed hwf3
  obtain ⟨C, hC, hc⟩ := expression_sound levels _ hs.advance hcond
  obtain ⟨A, hA, hAin, ha, -⟩ := ih _ hwf2 hthen_branch
  obtain ⟨B, hB, hBin, hb, hopen⟩ := ih _ hwf4 helse_branch
  exact ⟨.cond C A B, Nat.succ_le_succ (Nat.max_le.2 ⟨hC, Nat.max_le.2 ⟨hA, hB⟩⟩), ⟨hAin, hBin⟩,
    CommandDerivation.readAs_cond _ (hs.took_fixed rfl hk) hc (hwf1.took_expect rfl hthen) ha
      (hwf3.took_expect rfl helse) hb, hopen⟩

theorem whileDo_sound (hk : s.kind = .keyword .whileKw)
    (hclean : (single (levels + 1) s).after.Clean) :
    SoundCommand .item (levels + 1) s (single (levels + 1) s) := by
  simp only [single, hk] at hclean ⊢
  have hrest : (commandOf (single levels) ((commandOf (single levels) ((expression levels
    s.advance).after.expect (.keyword .doKw))).after.expect (.keyword .wendKw))).after.Clean :=
    hclean
  have hwend := (command_reads levels _).clean hrest
  have hbody := (State.expect_reads _ _).clean hwend
  have hdo := (command_reads levels _).clean hbody
  have hcond := (State.expect_reads _ _).clean hdo
  have hwf1 := (expression_reads levels _).wellFormed hs.advance
  have hwf2 := (State.expect_reads _ (.keyword .doKw)).wellFormed hwf1
  have hwf3 := (command_reads levels _).wellFormed hwf2
  have hwf4 := (State.expect_reads _ (.keyword .wendKw)).wellFormed hwf3
  obtain ⟨C, hC, hc⟩ := expression_sound levels _ hs.advance hcond
  obtain ⟨⟨B, hB, hBin, hb, -⟩, -⟩ := commandOf_sound (single_reads levels) ih _ hwf2 hbody
  obtain ⟨⟨R, hR, hRin, hr, -⟩, hstop⟩ := commandOf_sound (single_reads levels) ih _ hwf4 hrest
  exact ⟨.whileDo C B R, Nat.succ_le_succ (Nat.max_le.2 ⟨hC, Nat.max_le.2 ⟨hB, hR⟩⟩), ⟨hBin, hRin⟩,
    CommandDerivation.readAs_whileDo _ (hs.took_fixed rfl hk) hc (hwf1.took_expect rfl hdo) hb
      (hwf3.took_expect rfl hwend) hr, fun _ => hstop⟩

theorem doWhile_sound (hk : s.kind = .keyword .doKw) (hclean : (single (levels + 1) s).after.Clean) :
    SoundCommand .item (levels + 1) s (single (levels + 1) s) := by
  simp only [single, hk] at hclean ⊢
  have hcond : (expression levels ((single levels s.advance).after.expect
    (.keyword .wendwhileKw))).after.Clean := hclean
  have hwendwhile := (expression_reads levels _).clean hcond
  have hbody := (State.expect_reads _ _).clean hwendwhile
  have hwf1 := (single_reads levels _).wellFormed hs.advance
  have hwf2 := (State.expect_reads _ (.keyword .wendwhileKw)).wellFormed hwf1
  obtain ⟨B, hB, hBin, hb, -⟩ := ih _ hs.advance hbody
  obtain ⟨C, hC, hc⟩ := expression_sound levels _ hwf2 hcond
  exact ⟨.doWhile B C, Nat.succ_le_succ (Nat.max_le.2 ⟨hB, hC⟩), hBin,
    CommandDerivation.readAs_doWhile _ (hs.took_fixed rfl hk) hb (hwf1.took_expect rfl hwendwhile)
      hc, by simp [CommandDerivation.openEnded]⟩

end

theorem single_sound (levels : Nat) (s : State) (hs : s.WellFormed)
    (hclean : (single levels s).after.Clean) : SoundCommand .item levels s (single levels s) := by
  induction levels generalizing s with
  | zero => exact absurd hclean.2 (by simp [single, State.giveUp, State.finishAt])
  | succ levels ih =>
    by_cases hk : s.kind = .keyword .beginKw
    · exact block_sound ih hs hk hclean
    by_cases hk : s.kind = .keyword .letKw
    · exact letIn_sound ih hs hk hclean
    by_cases hk : s.kind = .keyword .ifKw
    · exact cond_sound ih hs hk hclean
    by_cases hk : s.kind = .keyword .whileKw
    · exact whileDo_sound ih hs hk hclean
    by_cases hk : s.kind = .keyword .doKw
    · exact doWhile_sound ih hs hk hclean
    rw [single] at hclean ⊢
    split at hclean <;> try contradiction
    · next hk => exact namedCommand_sound levels s hs hk hclean
    · next hk =>
      exact ⟨.pass, Nat.succ_le_succ (Nat.zero_le levels), trivial,
        CommandDerivation.readAs_pass _ (hs.took_fixed rfl hk), by simp [CommandDerivation.openEnded]⟩
    · exact ⟨.empty, Nat.succ_le_succ (Nat.zero_le levels), trivial,
        CommandDerivation.readAs_empty _, by simp [CommandDerivation.openEnded]⟩

theorem command_sound (levels : Nat) (s : State) (hs : s.WellFormed)
    (hclean : (command levels s).after.Clean) :
    SoundCommand .chain levels s (command levels s) ∧ (command levels s).after.kind ≠ .semicolon :=
  commandOf_sound (single_reads levels) (single_sound levels) s hs hclean

end TriLang.Parser
