import TriLang.Proofs.Parsing.Acceptance
import TriLang.Proofs.Syntax.Nodes

/-! # How the nodes of a tree are built

`Builds levels s t nodes` says that between two states the nodes were built one behind the other, and
nothing else was kept. There are four ways to come by a node: a token is read as a leaf, a node is finished
over those that were built since its first token, a name becomes the denoter of a type, or reading gives up.
One lemma for each reading function says that it builds what it answers with, errors or not; what is to be
known of all trees is then an induction over the four ways. -/
namespace TriLang.Parser
set_option autoImplicit false

/-! ## Building -/

/-- What is left of a state when a node has taken its number. -/
def State.issue (s : State) : State := { s with nextId := s.nextId + 1 }

/-- The node stands for the token alone. -/
inductive LeafOf (t : Token) : Node → Prop where
  | ident (m : Mark) (hkind : t.kind = .identifier) : LeafOf t (.ident ⟨m, t.spelling⟩)
  | operator (m : Mark) (hkind : t.kind = .operator) : LeafOf t (.operator ⟨m, t.spelling⟩)
  | int (m : Mark) (hkind : t.kind = .intLiteral) : LeafOf t (.expr (.int m t.spelling))
  | char (m : Mark) (hkind : t.kind = .charLiteral) :
    LeafOf t (.expr (.char m (literalChar t.spelling)))

/-- Between two states the nodes were built, from the left to the right, with so many levels left. -/
inductive Builds : Nat → State → State → List Node → Prop where
  | reads {levels : Nat} {s t : State} (h : Reads s t) : Builds levels s t []
  | append {levels : Nat} {s t u : State} {front back : List Node} (h : Builds levels s t front)
    (h' : Builds levels t u back) : Builds levels s u (front ++ back)
  | leaf {levels : Nat} {s : State} {n : Node} (h : LeafOf s.current n) (hid : n.id = s.nextId)
    (hspan : n.span = s.current.span ∨ n.span = s.advance.spanFrom s.start)
    (hlevel : n.level ≤ levels) : Builds levels s s.advance.issue [n]
  | finish {levels inner : Nat} {s t : State} {n : Node} (h : Builds inner s t n.children)
    (hspelling : n.spelling? = none) (hmark : n.mark = ⟨t.nextId, t.spanFrom s.start⟩)
    (hlevel : inner + n.level ≤ levels) : Builds levels s t.issue [n]
  | type {levels : Nat} {s t : State} {ident : Ident} (h : Builds levels s t [.ident ident]) :
    Builds levels s t.issue [.type ⟨⟨t.nextId, ident.span⟩, ident⟩]
  | giveUp {levels : Nat} {s : State} {n : Node} (hchildren : n.children = [])
    (hspelling : n.spelling? = none) (hmark : n.mark = ⟨s.abandon.nextId, s.abandon.current.span⟩)
    (hlevel : n.level = 0) : Builds levels s s.abandon.issue [n]

theorem LeafOf.kind_ne {t : Token} {n : Node} (h : LeafOf t n) : t.kind ≠ .endOfText := by
  cases h with
  | ident m hkind => simp [hkind]
  | operator m hkind => simp [hkind]
  | int m hkind => simp [hkind]
  | char m hkind => simp [hkind]

theorem LeafOf.children {t : Token} {n : Node} (h : LeafOf t n) : n.children = [] := by
  cases h <;> rfl

namespace Builds
variable {levels : Nat} {s t u : State} {nodes : List Node}

theorem toReads (h : Builds levels s t nodes) : Reads s t := by
  induction h with
  | reads h => exact h
  | append _ _ ih ih' => exact ih.trans ih'
  | @leaf _ s _ => exact s.advance_reads.tail (.number _)
  | finish _ _ _ _ ih => exact ih.tail (.number _)
  | type _ ih => exact ih.tail (.number _)
  | @giveUp _ s _ => exact .tail (.single (.abandon s)) (.number _)

/-- What was built is nested no deeper than the levels that were left. -/
theorem within (h : Builds levels s t nodes) : ∀ n ∈ nodes, n.Within levels := by
  induction h with
  | reads => simp
  | append _ _ ih ih' => exact List.forall_mem_append.2 ⟨ih, ih'⟩
  | @leaf levels s n hleaf _ _ hlevel =>
    have hbelow : ∀ c ∈ n.children, c.Within 0 := by simp [hleaf.children]
    exact List.forall_mem_singleton.2 (.node (by omega) hbelow)
  | finish _ _ _ hlevel ih => exact List.forall_mem_singleton.2 (.node hlevel ih)
  | @type levels s t ident _ ih =>
    exact List.forall_mem_singleton.2 (.node (Nat.le_refl levels) ih)
  | @giveUp levels s n hchildren _ _ hlevel =>
    have hbelow : ∀ c ∈ n.children, c.Within 0 := by simp [hchildren]
    exact List.forall_mem_singleton.2 (.node (by omega) hbelow)

theorem mono (h : Builds levels s t nodes) {more : Nat} (hmore : levels ≤ more) :
    Builds more s t nodes := by
  induction h generalizing more with
  | reads h => exact .reads h
  | append _ _ ih ih' => exact .append (ih hmore) (ih' hmore)
  | leaf hleaf hid hspan hlevel => exact .leaf hleaf hid hspan (Nat.le_trans hlevel hmore)
  | finish h hspelling hmark hlevel _ => exact .finish h hspelling hmark (Nat.le_trans hlevel hmore)
  | type _ ih => exact .type (ih hmore)
  | giveUp hchildren hspelling hmark hlevel => exact .giveUp hchildren hspelling hmark hlevel

theorem behind (h : Builds levels t u nodes) (h' : Reads s t) : Builds levels s u nodes :=
  .append (.reads h') h

theorem upTo (h : Builds levels s t nodes) (h' : Reads t u) : Builds levels s u nodes := by
  have hboth : Builds levels s u (nodes ++ []) := .append h (.reads h')
  rwa [List.append_nil] at hboth

end Builds

/-! ## Leaves -/

section Leaves
variable (levels : Nat) {s : State}

theorem readIdent_builds (hk : s.kind = .identifier) :
    Builds levels s s.readIdent.after [.ident s.readIdent.node] :=
  .leaf (.ident _ hk) s.advance_nextId (.inl rfl) (Nat.zero_le levels)

theorem readOperator_builds (hk : s.kind = .operator) :
    Builds levels s s.readOperator.after [.operator s.readOperator.node] :=
  .leaf (.operator _ hk) s.advance_nextId (.inl rfl) (Nat.zero_le levels)

theorem expectIdent_builds (what : Expectation) {ident : Ident}
    (h : (s.expectIdent what).node = some ident) :
    Builds levels s (s.expectIdent what).after [.ident ident] := by
  unfold State.expectIdent at h ⊢
  by_cases hk : s.kind = .identifier
  · rw [if_pos hk] at h ⊢
    obtain rfl : s.readIdent.node = ident := Option.some.inj h
    exact readIdent_builds levels hk
  · rw [if_neg hk] at h
    simp at h

end Leaves

/-! ## Expressions -/

theorem expressionOf_builds {levels : Nat} {operand : State → Parsed Expr}
    (ho : ∀ s, Builds levels s (operand s).after [.expr (operand s).node]) (s : State) :
    Builds levels s (expressionOf operand s).after [.expr (expressionOf operand s).node] := by
  -- all rounds start where the first operand does, and what is there already is built from there on
  have htail : ∀ rounds lhs t, Builds levels s t [.expr lhs] →
      Builds levels s (operatorTail operand s.start rounds lhs t).after
        [.expr (operatorTail operand s.start rounds lhs t).node] := by
    intro rounds
    induction rounds with
    | zero => exact fun lhs t h => h
    | succ rounds ih =>
      intro lhs t h
      rw [operatorTail]
      by_cases hk : t.kind = .operator
      · rw [if_pos hk]
        have hparts := (h.append (readOperator_builds levels hk)).append (ho t.readOperator.after)
        exact ih _ _ (.finish hparts rfl rfl (Nat.le_refl levels))
      · rw [if_neg hk]
        exact h
  exact htail _ _ _ (ho s)

theorem primary_builds (levels : Nat) (s : State) :
    Builds levels s (primary levels s).after [.expr (primary levels s).node] := by
  induction levels generalizing s with
  | zero => exact .giveUp rfl rfl rfl rfl
  | succ levels ih =>
    have hlevel : 1 ≤ levels + 1 := by omega
    rw [primary]
    split
    · next hk => exact .leaf (.int _ hk) s.advance_nextId (.inr rfl) hlevel
    · next hk => exact .leaf (.char _ hk) s.advance_nextId (.inr rfl) hlevel
    · next hk => exact .finish (readIdent_builds levels hk) rfl rfl (Nat.le_refl _)
    · next hk =>
      have hparts := (readOperator_builds levels hk).append (ih s.readOperator.after)
      exact .finish hparts rfl rfl (Nat.le_refl _)
    · have hinner := (expressionOf_builds ih s.advance).behind s.advance_reads
      exact (hinner.mono (Nat.le_succ levels)).upTo (State.expect_reads _ _)
    · exact .finish (.reads (s.report_reads _ (by simp))) rfl rfl hlevel

theorem expression_builds (levels : Nat) (s : State) :
    Builds levels s (expression levels s).after [.expr (expression levels s).node] :=
  expressionOf_builds (primary_builds levels) s

/-! ## Parameters and declarations -/

theorem parameter_builds (levels : Nat) (s : State) :
    Builds levels s (parameter levels s).after [.param (parameter levels s).node] := by
  unfold parameter
  split
  · exact .finish (expression_builds levels s) rfl rfl (Nat.le_refl levels)
  · split
    · dsimp only
      split
      · next ident hident =>
        have hname := expectIdent_builds levels .name hident
        exact .finish (hname.behind s.advance_reads) rfl rfl (Nat.le_refl levels)
      · have hname := s.advance_reads.trans (s.advance.expectIdent_reads .name)
        exact .finish (.reads hname) rfl rfl (Nat.le_refl levels)
    · exact .finish (.reads .refl) rfl rfl (Nat.le_refl levels)

theorem typeDenoter_builds (levels : Nat) {s : State} {denoter : TypeDenoter}
    (h : (typeDenoter s).node = some denoter) :
    Builds levels s (typeDenoter s).after [.type denoter] := by
  unfold typeDenoter at h ⊢
  dsimp only at h ⊢
  split at h
  · next ident hident =>
    obtain rfl := Option.some.inj h
    exact .type (expectIdent_builds levels .typeName hident)
  · simp at h

theorem singleDeclaration_builds (levels : Nat) (s : State) :
    Builds levels s (singleDeclaration levels s).after [.decl (singleDeclaration levels s).node] := by
  unfold singleDeclaration
  have hname := s.advance_reads.trans (s.advance.expectIdent_reads .name)
  split
  · have hvalue := (expression_builds levels _).behind
      ((s.advance.expectIdent .name).after.expect_reads .is)
    dsimp only
    split
    · next ident hident =>
      have hparts := ((expectIdent_builds levels .name hident).behind s.advance_reads).append hvalue
      exact .finish hparts rfl rfl (Nat.le_refl levels)
    · exact .finish (.reads (hname.trans hvalue.toReads)) rfl rfl (Nat.le_refl levels)
  · dsimp only
    split
    · next ident denoter hident hdenoter =>
      have hparts := ((expectIdent_builds levels .name hident).behind s.advance_reads).append
        (typeDenoter_builds levels hdenoter)
      exact .finish hparts rfl rfl (Nat.le_refl levels)
    · exact .finish (.reads (hname.trans (typeDenoter_reads _))) rfl rfl (Nat.le_refl levels)
  · exact .finish (.reads (s.report_reads _ (by simp))) rfl rfl (Nat.le_refl levels)

theorem declaration_builds (levels : Nat) (s : State) :
    Builds levels s (declaration levels s).after [.decl (declaration levels s).node] := by
  have htail : ∀ rounds first t, Builds levels s t [.decl first] →
      Builds levels s (declarationTail levels s.start rounds first t).after
        [.decl (declarationTail levels s.start rounds first t).node] := by
    intro rounds
    induction rounds with
    | zero => exact fun first t h => h
    | succ rounds ih =>
      intro first t h
      rw [declarationTail]
      by_cases hk : t.kind = .semicolon
      · rw [if_pos hk]
        have hparts := h.append ((singleDeclaration_builds levels t.advance).behind t.advance_reads)
        exact ih _ _ (.finish hparts rfl rfl (Nat.le_refl levels))
      · rw [if_neg hk]
        exact h
  exact htail _ _ _ (singleDeclaration_builds levels s)

/-! ## Commands -/

theorem commandOf_builds {levels : Nat} {single : State → Parsed Command}
    (hc : ∀ s, Builds levels s (single s).after [.command (single s).node]) (s : State) :
    Builds levels s (commandOf single s).after [.command (commandOf single s).node] := by
  have htail : ∀ rounds first t, Builds levels s t [.command first] →
      Builds levels s (commandTail single s.start rounds first t).after
        [.command (commandTail single s.start rounds first t).node] := by
    intro rounds
    induction rounds with
    | zero => exact fun first t h => h
    | succ rounds ih =>
      intro first t h
      rw [commandTail]
      by_cases hk : t.kind = .semicolon
      · rw [if_pos hk]
        have hparts := h.append ((hc t.advance).behind t.advance_reads)
        exact ih _ _ (.finish hparts rfl rfl (Nat.le_refl levels))
      · rw [if_neg hk]
        exact h
  exact htail _ _ _ (hc s)

theorem namedCommand_builds (levels : Nat) {s : State} (hk : s.kind = .identifier) :
    Builds (levels + 1) s (namedCommand levels s).after [.command (namedCommand levels s).node] := by
  unfold namedCommand
  have hname := readIdent_builds levels hk
  dsimp only
  split
  · have hparam := (parameter_builds levels _).behind s.readIdent.after.advance_reads
    have hparts := hname.append (hparam.upTo (State.expect_reads _ .rightBracket))
    exact .finish hparts rfl rfl (Nat.le_refl _)
  · have hvalue := (expression_builds levels _).behind s.readIdent.after.advance_reads
    exact .finish (hname.append hvalue) rfl rfl (Nat.le_refl _)
  · exact .finish (.reads (hname.toReads.trans (State.report_reads _ _ (by simp)))) rfl rfl (Nat.le_refl _)

theorem single_builds (levels : Nat) (s : State) :
    Builds levels s (single levels s).after [.command (single levels s).node] := by
  induction levels generalizing s with
  | zero => exact .giveUp rfl rfl rfl rfl
  | succ levels ih =>
    have hcommand := commandOf_builds ih
    rw [single]
    split
    · next hk => exact namedCommand_builds levels hk
    · have hinner := (hcommand s.advance).behind s.advance_reads
      exact (hinner.mono (Nat.le_succ levels)).upTo (State.expect_reads _ _)
    · let decl := declaration levels s.advance
      let body := single levels (decl.after.expect (.keyword .inKw))
      have hdecl := (declaration_builds levels s.advance).behind s.advance_reads
      have hbody := (ih _).behind (decl.after.expect_reads (.keyword .inKw))
      have hrest := (hcommand _).behind (body.after.expect_reads (.keyword .endletKw))
      exact .finish ((hdecl.append hbody).append hrest) rfl rfl (Nat.le_refl _)
    · let cond := expression levels s.advance
      let thenBranch := single levels (cond.after.expect (.keyword .thenKw))
      have hcond := (expression_builds levels s.advance).behind s.advance_reads
      have hthen := (ih _).behind (cond.after.expect_reads (.keyword .thenKw))
      have helse := (ih _).behind (thenBranch.after.expect_reads (.keyword .elseKw))
      exact .finish ((hcond.append hthen).append helse) rfl rfl (Nat.le_refl _)
    · let cond := expression levels s.advance
      let body := commandOf (single levels) (cond.after.expect (.keyword .doKw))
      have hcond := (expression_builds levels s.advance).behind s.advance_reads
      have hbody := (hcommand _).behind (cond.after.expect_reads (.keyword .doKw))
      have hrest := (hcommand _).behind (body.after.expect_reads (.keyword .wendKw))
      exact .finish ((hcond.append hbody).append hrest) rfl rfl (Nat.le_refl _)
    · let body := single levels s.advance
      have hbody := (ih s.advance).behind s.advance_reads
      have hcond := (expression_builds levels _).behind
        (body.after.expect_reads (.keyword .wendwhileKw))
      exact .finish (hbody.append hcond) rfl rfl (Nat.le_refl _)
    · exact .finish (.reads s.advance_reads) rfl rfl (Nat.le_refl (levels + 1))
    · exact .finish (.reads .refl) rfl rfl (Nat.le_refl (levels + 1))

theorem command_builds (levels : Nat) (s : State) :
    Builds levels s (command levels s).after [.command (command levels s).node] :=
  commandOf_builds (single_builds levels) s

/-! ## Whole programs -/

theorem parse_builds (tokens : List Token) :
    Builds maxDepth (initial tokens) (final tokens) [.command (parse tokens).program.command] := by
  have hcommand := command_builds maxDepth (initial tokens)
  unfold final
  dsimp only
  split
  · exact hcommand
  · exact hcommand.upTo (State.report_reads _ _ (by simp))

end TriLang.Parser
