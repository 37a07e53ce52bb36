import Mathlib.Algebra.Group.Nat.Defs
import TriLang.Proofs.Parsing.Building

/-! # The numbers of the nodes

Later analyses refer to the nodes of a tree by their numbers alone. `Builds.ids` says that the nodes built
between two states have different numbers, rising in the order in which the nodes are finished, all of them
handed out between these states. How many numbers are handed out is a matter of the tokens: a token that is
passed over pays for four numbers (`State.budget`), and every reading function gets by with what the tokens
it passes over pay and with one number more, or two at the brackets of a call. -/
namespace TriLang.Parser
set_option autoImplicit false

/-! ## Rising numbers -/

theorem State.report_nextId (s : State) (cause : ParseError.Cause) :
    (s.report cause).nextId = s.nextId := by
  unfold report; split <;> rfl

theorem Step.nextId_le {s t : State} (h : Step s t) : s.nextId ≤ t.nextId := by
  cases h with
  | advance => exact Nat.le_of_eq s.advance_nextId.symm
  | report cause => exact Nat.le_of_eq (s.report_nextId cause).symm
  | number => exact Nat.le_succ _
  | abandon => exact Nat.le_of_eq (s.report_nextId .tooDeep).symm

theorem Reads.nextId_le {s t : State} (h : Reads s t) : s.nextId ≤ t.nextId := by
  induction h with
  | refl => exact Nat.le_refl _
  | tail _ hstep ih => exact Nat.le_trans ih hstep.nextId_le

/-- The numbers of all the nodes are different, rise from the left to the right and lie between bounds. -/
structure Rising (lower upper : Nat) (ids : List Nat) : Prop where
  pairwise : ids.Pairwise (· < ·)
  bounds : ∀ i ∈ ids, lower ≤ i ∧ i < upper

namespace Rising
variable {a b c : Nat} {front back : List Nat}

theorem append (h : Rising a b front) (h' : Rising b c back) (hab : a ≤ b) (hbc : b ≤ c) :
    Rising a c (front ++ back) := by
  refine ⟨List.pairwise_append.2 ⟨h.pairwise, h'.pairwise, fun i hi j hj => ?_⟩, fun i hi => ?_⟩
  · have hlt := (h.bounds i hi).2
    have hle := (h'.bounds j hj).1
    omega
  · rcases List.mem_append.1 hi with hi | hi
    · have hbounds := h.bounds i hi
      omega
    · have hbounds := h'.bounds i hi
      omega

theorem concat (h : Rising a b front) (hab : a ≤ b) : Rising a (b + 1) (front ++ [b]) := by
  refine h.append ⟨List.pairwise_singleton _ _, fun i hi => ?_⟩ hab (Nat.le_succ b)
  obtain rfl := List.mem_singleton.1 hi
  omega

end Rising

namespace Builds
variable {levels : Nat} {s t : State} {nodes : List Node}

theorem ids (h : Builds levels s t nodes) : Rising s.nextId t.nextId (nodes.flatMap Node.ids) := by
  have hnil : ∀ a b, Rising a b [] := fun a b => ⟨List.Pairwise.nil, by simp⟩
  induction h with
  | reads => exact hnil _ _
  | append h h' ih ih' =>
    rw [List.flatMap_append]
    exact ih.append ih' h.toReads.nextId_le h'.toReads.nextId_le
  | @leaf levels s n hleaf hid _ _ =>
    have hids : [n].flatMap Node.ids = [] ++ [s.advance.nextId] := by
      simp [Node.ids_eq, hleaf.children, hid, State.advance_nextId]
    rw [hids, ← s.advance_nextId]
    exact (hnil _ _).concat (Nat.le_refl _)
  | @finish levels inner s t n h _ hmark _ ih =>
    have hids : [n].flatMap Node.ids = n.children.flatMap Node.ids ++ [t.nextId] := by
      simp [Node.ids_eq n, Node.id, hmark]
    rw [hids]
    exact ih.concat h.toReads.nextId_le
  | @type levels s t ident h ih =>
    exact ih.concat h.toReads.nextId_le
  | @giveUp levels s n hchildren _ hmark _ =>
    have hids : [n].flatMap Node.ids = [] ++ [s.abandon.nextId] := by
      simp [Node.ids_eq n, hchildren, Node.id, hmark]
    rw [hids]
    exact ((hnil _ _).concat (Step.abandon s).nextId_le)

/-- The number of a node is greater than that of any node below it. -/
theorem above (h : Builds levels s t nodes) :
    ∀ n ∈ nodes, n.Throughout fun n => ∀ c ∈ n.children, ∀ i ∈ c.ids, i < n.id := by
  induction h with
  | reads => simp
  | append _ _ ih ih' => exact List.forall_mem_append.2 ⟨ih, ih'⟩
  | leaf hleaf =>
    exact List.forall_mem_singleton.2 (.node (by simp [hleaf.children]) (by simp [hleaf.children]))
  | @finish levels inner s t n h _ hmark _ ih =>
    have hid : n.id = t.nextId := congrArg Mark.id hmark
    refine List.forall_mem_singleton.2 (.node (fun c hc i hi => ?_) ih)
    rw [hid]
    exact (h.ids.bounds i (List.mem_flatMap.2 ⟨c, hc, hi⟩)).2
  | @type levels s t ident h ih =>
    refine List.forall_mem_singleton.2 (.node (fun c hc i hi => ?_) ih)
    exact (h.ids.bounds i (List.mem_flatMap.2 ⟨c, hc, hi⟩)).2
  | giveUp hchildren =>
    exact List.forall_mem_singleton.2 (.node (by simp [hchildren]) (by simp [hchildren]))

end Builds

/-! ## What the tokens pay for -/

/-- The numbers handed out so far, and four for each token that is left. -/
def State.budget (s : State) : Nat := s.nextId + 4 * s.rest.length

/-- The state is well formed, and its budget is within a limit. -/
structure State.KeepsTo (limit : Nat) (s : State) : Prop where
  wellFormed : s.WellFormed
  budget_le : s.budget ≤ limit

namespace State.KeepsTo
variable {limit : Nat} {s : State} (h : s.KeepsTo limit)
include h

theorem mono {more : Nat} (hmore : limit ≤ more) : s.KeepsTo more :=
  ⟨h.wellFormed, Nat.le_trans h.budget_le hmore⟩

theorem report (cause : ParseError.Cause) : (s.report cause).KeepsTo limit := by
  refine ⟨?_, ?_⟩
  · rw [WellFormed, report_stop, report_rest]
    exact h.wellFormed
  · rw [budget, report_nextId, report_rest]
    exact h.budget_le

theorem issue : s.issue.KeepsTo (limit + 1) := by
  have hle := h.budget_le
  refine ⟨h.wellFormed, ?_⟩
  unfold budget at hle ⊢
  simp only [State.issue]
  omega

theorem finish {α : Type} (start : Nat) (build : Mark → α) :
    (s.finish start build).after.KeepsTo (limit + 1) := h.issue

theorem pass : s.advance.KeepsTo limit := by
  have hle := h.budget_le
  refine ⟨h.wellFormed.advance, ?_⟩
  unfold budget at hle ⊢
  rw [advance_nextId, advance_rest, List.length_tail]
  omega

/-- Passing over a token pays for four numbers. -/
theorem advance (hk : s.kind ≠ .endOfText) : ∃ left, limit = left + 4 ∧ s.advance.KeepsTo left := by
  have hle := h.budget_le
  have hpos := h.wellFormed.rest_pos hk
  unfold budget at hle
  refine ⟨limit - 4, by omega, h.wellFormed.advance, ?_⟩
  unfold budget
  rw [advance_nextId, advance_rest, List.length_tail]
  omega

theorem expect (kind : Token.Kind) : (s.expect kind).KeepsTo limit := by
  unfold State.expect
  split
  · exact h.pass
  · exact h.report _

theorem giveUp {α : Type} (build : Mark → α) : (s.giveUp build).after.KeepsTo (limit + 1) := by
  have habandon : s.abandon.KeepsTo limit := by
    have hle := h.budget_le
    have hnext : s.abandon.nextId = s.nextId := s.report_nextId .tooDeep
    refine ⟨Reads.wellFormed (.single (.abandon s)) h.wellFormed, ?_⟩
    unfold budget at hle
    rw [budget, hnext]
    change s.nextId + 4 * 0 ≤ limit
    omega
  exact habandon.issue

theorem readIdent (hk : s.kind = .identifier) :
    ∃ left, limit = left + 3 ∧ s.readIdent.after.KeepsTo left := by
  obtain ⟨left, rfl, hadvance⟩ := h.advance (by rw [hk]; decide)
  exact ⟨left + 1, rfl, hadvance.issue⟩

theorem readOperator (hk : s.kind = .operator) :
    ∃ left, limit = left + 3 ∧ s.readOperator.after.KeepsTo left := by
  obtain ⟨left, rfl, hadvance⟩ := h.advance (by rw [hk]; decide)
  exact ⟨left + 1, rfl, hadvance.issue⟩

theorem expectIdent (what : Expectation) : (s.expectIdent what).after.KeepsTo limit := by
  unfold State.expectIdent
  by_cases hk : s.kind = .identifier
  · rw [if_pos hk]
    obtain ⟨left, rfl, hname⟩ := h.readIdent hk
    exact hname.mono (by omega)
  · rw [if_neg hk]
    exact h.report _

end State.KeepsTo

/-! ## What the reading functions spend -/

section Spending
variable {limit : Nat} {s : State}

theorem expressionOf_keepsTo {operand : State → Parsed Expr} (hreads : ∀ s, Reads s (operand s).after)
    (ho : ∀ {limit : Nat} {s : State}, s.KeepsTo limit → (operand s).after.KeepsTo (limit + 1))
    (h : s.KeepsTo limit) : (expressionOf operand s).after.KeepsTo (limit + 1) := by
  rw [expressionOf_eq_exhaust hreads]
  refine ((operators operand hreads s.start).exhaust_induction
    (fun _ t => t.KeepsTo (limit + 1)) (fun lhs t _ hgo ht => ?_) _ _
    (ho h).wellFormed (ho h)).1
  obtain ⟨left, hleft, hop⟩ := ht.readOperator (by simpa [operators] using hgo)
  exact (ho hop).issue.mono (by omega)

theorem primary_keepsTo (levels : Nat) (h : s.KeepsTo limit) :
    (primary levels s).after.KeepsTo (limit + 1) := by
  induction levels generalizing limit s with
  | zero => exact h.giveUp _
  | succ levels ih =>
    rw [primary]
    split
    · exact h.pass.finish _ _
    · exact h.pass.finish _ _
    · next hk =>
      obtain ⟨left, rfl, hname⟩ := h.readIdent hk
      exact (hname.finish _ _).mono (by omega)
    · next hk =>
      obtain ⟨left, rfl, hop⟩ := h.readOperator hk
      exact ((ih hop).finish _ _).mono (by omega)
    · exact (expressionOf_keepsTo (primary_reads levels) ih h.pass).expect _
    · exact (h.report _).finish _ _

theorem expression_keepsTo (levels : Nat) (h : s.KeepsTo limit) :
    (expression levels s).after.KeepsTo (limit + 1) :=
  expressionOf_keepsTo (primary_reads levels) (primary_keepsTo levels) h

theorem parameter_keepsTo (levels : Nat) (h : s.KeepsTo limit) :
    (parameter levels s).after.KeepsTo (limit + 2) := by
  unfold parameter
  split
  · exact (expression_keepsTo levels h).finish _ _
  · split
    · have hname := (h.pass.expectIdent .name).mono (Nat.le_succ limit)
      dsimp only
      split
      · exact hname.finish _ _
      · exact hname.finish _ _
    · exact (h.mono (Nat.le_succ limit)).finish _ _

theorem typeDenoter_keepsTo (h : s.KeepsTo limit) : (typeDenoter s).after.KeepsTo limit := by
  unfold typeDenoter State.expectIdent
  by_cases hk : s.kind = .identifier
  · rw [if_pos hk]
    obtain ⟨left, rfl, hname⟩ := h.readIdent hk
    exact hname.issue.mono (by omega)
  · rw [if_neg hk]
    exact h.report _

theorem singleDeclaration_keepsTo (levels : Nat) (h : s.KeepsTo limit) :
    (singleDeclaration levels s).after.KeepsTo (limit + 1) := by
  unfold singleDeclaration
  split
  · next hk =>
    obtain ⟨left, rfl, hconst⟩ := h.advance (by rw [hk]; decide)
    have hvalue := expression_keepsTo levels ((hconst.expectIdent .name).expect .is)
    dsimp only
    split
    · exact (hvalue.finish _ _).mono (by omega)
    · exact (hvalue.finish _ _).mono (by omega)
  · have htype := typeDenoter_keepsTo (h.pass.expectIdent .name)
    dsimp only
    split
    · exact htype.finish _ _
    · exact htype.finish _ _
  · exact (h.report _).finish _ _

theorem declaration_keepsTo (levels : Nat) (h : s.KeepsTo limit) :
    (declaration levels s).after.KeepsTo (limit + 1) := by
  have hfirst := singleDeclaration_keepsTo levels h
  rw [declaration_eq_exhaust]
  refine ((declarations levels s.start).exhaust_induction
    (fun _ t => t.KeepsTo (limit + 1)) (fun first t _ hgo ht => ?_) _ _ hfirst.wellFormed hfirst).1
  have hk : t.kind = .semicolon := by simpa [declarations] using hgo
  obtain ⟨left, hleft, hsemicolon⟩ := ht.advance (by rw [hk]; decide)
  exact (singleDeclaration_keepsTo levels hsemicolon).issue.mono (by omega)

theorem commandOf_keepsTo {single : State → Parsed Command} (hreads : ∀ s, Reads s (single s).after)
    (hc : ∀ {limit : Nat} {s : State}, s.KeepsTo limit → (single s).after.KeepsTo (limit + 1))
    (h : s.KeepsTo limit) : (commandOf single s).after.KeepsTo (limit + 1) := by
  rw [commandOf_eq_exhaust hreads]
  refine ((commands single hreads s.start).exhaust_induction
    (fun _ t => t.KeepsTo (limit + 1)) (fun first t _ hgo ht => ?_) _ _
    (hc h).wellFormed (hc h)).1
  have hk : t.kind = .semicolon := by simpa [commands] using hgo
  obtain ⟨left, hleft, hsemicolon⟩ := ht.advance (by rw [hk]; decide)
  exact (hc hsemicolon).issue.mono (by omega)

theorem namedCommand_keepsTo (levels : Nat) (h : s.KeepsTo limit) (hk : s.kind = .identifier) :
    (namedCommand levels s).after.KeepsTo (limit + 1) := by
  obtain ⟨left, rfl, hname⟩ := h.readIdent hk
  unfold namedCommand
  dsimp only
  split
  · have hparam := parameter_keepsTo levels hname.pass
    exact ((hparam.expect .rightBracket).finish _ _).mono (by omega)
  · exact ((expression_keepsTo levels hname.pass).finish _ _).mono (by omega)
  · exact ((hname.report _).finish _ _).mono (by omega)

theorem single_keepsTo (levels : Nat) (h : s.KeepsTo limit) :
    (single levels s).after.KeepsTo (limit + 1) := by
  induction levels generalizing limit s with
  | zero => exact h.giveUp _
  | succ levels ih =>
    rw [single]
    split
    · next hk => exact namedCommand_keepsTo levels h hk
    · exact (commandOf_keepsTo (single_reads levels) ih h.pass).expect _
    · next hk =>
      obtain ⟨left, rfl, hlet⟩ := h.advance (by rw [hk]; decide)
      have hbody := ih ((declaration_keepsTo levels hlet).expect (.keyword .inKw))
      have hrest := commandOf_keepsTo (single_reads levels) ih (hbody.expect (.keyword .endletKw))
      exact (hrest.finish _ _).mono (by omega)
    · next hk =>
      obtain ⟨left, rfl, hif⟩ := h.advance (by rw [hk]; decide)
      have hthen := ih ((expression_keepsTo levels hif).expect (.keyword .thenKw))
      have helse := ih (hthen.expect (.keyword .elseKw))
      exact (helse.finish _ _).mono (by omega)
    · next hk =>
      obtain ⟨left, rfl, hwhile⟩ := h.advance (by rw [hk]; decide)
      have hcond := expression_keepsTo levels hwhile
      have hbody := commandOf_keepsTo (single_reads levels) ih (hcond.expect (.keyword .doKw))
      have hrest := commandOf_keepsTo (single_reads levels) ih (hbody.expect (.keyword .wendKw))
      exact (hrest.finish _ _).mono (by omega)
    · next hk =>
      obtain ⟨left, rfl, hdo⟩ := h.advance (by rw [hk]; decide)
      have hcond := expression_keepsTo levels ((ih hdo).expect (.keyword .wendwhileKw))
      exact (hcond.finish _ _).mono (by omega)
    · exact h.pass.finish _ _
    · exact h.finish _ _

theorem command_keepsTo (levels : Nat) (h : s.KeepsTo limit) :
    (command levels s).after.KeepsTo (limit + 1) :=
  commandOf_keepsTo (single_reads levels) (single_keepsTo levels) h

end Spending

end TriLang.Parser

namespace TriLang
open TriLang.Parser

/-! ## Whole trees -/

/-- With or without errors, no number stands twice in the tree. -/
theorem nodup_ids_tree (tokens : List Token) : (parse tokens).program.command.ids.Nodup := by
  have hids := (parse_builds tokens).ids
  rw [List.flatMap_singleton] at hids
  exact hids.pairwise.imp Nat.ne_of_lt

theorem Parser.final_nextId (tokens : List Token) :
    (final tokens).nextId = (command maxDepth (initial tokens)).after.nextId := by
  unfold final
  dsimp only
  split
  · rfl
  · exact State.report_nextId _ _

/-- Without errors no number is left out. -/
theorem ids_of_parse {tokens : List Token} (h : (parse tokens).errors = []) :
    (parse tokens).program.command.ids = List.range (final tokens).nextId := by
  obtain ⟨hclean, -⟩ := of_final_clean ((final_clean_iff tokens).2 h)
  obtain ⟨⟨D, -, -, hread, -⟩, -⟩ :=
    command_sound maxDepth _ (initial_wellFormed tokens) hclean
  have hissued : (final tokens).nextId = D.tree.nodes := by
    rw [final_nextId, hread.took.nextId]
    exact Nat.zero_add _
  have hnode : (parse tokens).program.command.unspanned = D.tree.numbered 0 := hread.node
  rw [← Command.ids_unspanned, hnode, Command.ids_numbered, hissued, List.range_eq_range']

/-- Whatever the tokens are, no two nodes of the tree have the same number, and each node has a greater one
than all nodes below it. All are among the numbers that are handed out, at most four for each token in front
of the end of the text and one more, so that for fewer than 2³⁰ tokens they fit into 32 bits. If there are no
errors, none is handed out in vain. -/
theorem parse_numbers (tokens : List Token) :
    let tree := Node.command (parse tokens).program.command
    let issued := (final tokens).nextId
    let count := (tokens.takeWhile (·.kind ≠ .endOfText)).length
    tree.ids.Nodup ∧
    (tree.Throughout fun n => ∀ c ∈ n.children, ∀ i ∈ c.ids, i < n.id) ∧
    (∀ i ∈ tree.ids, i < issued) ∧ issued ≤ 4 * count + 1 ∧ (count < 2 ^ 30 → issued < 2 ^ 32) ∧
    ((parse tokens).errors = [] → tree.ids = List.range issued) := by
  intro tree issued count
  have hbuilds := parse_builds tokens
  have hids := hbuilds.ids
  rw [List.flatMap_singleton] at hids
  have hbudget : (initial tokens).KeepsTo (4 * count) :=
    ⟨initial_wellFormed tokens, by rw [State.budget]; exact Nat.le_of_eq (Nat.zero_add _)⟩
  have hissued : issued ≤ 4 * count + 1 := by
    have hle := (command_keepsTo maxDepth hbudget).budget_le
    rw [State.budget, ← final_nextId] at hle
    omega
  refine ⟨hids.pairwise.imp Nat.ne_of_lt, hbuilds.above _ (List.mem_singleton_self _),
    fun i hi => (hids.bounds i hi).2, hissued, fun hcount => ?_, ids_of_parse⟩
  omega

theorem parse_numbers_call :
    let tokens := (tokenize "y(1)".toList).tokens
    (parse tokens).errors = [] ∧
      (parse tokens).program.command.ids = List.range (final tokens).nextId ∧
      (final tokens).nextId < 2 ^ 32 := by
  intro tokens
  have hclean : (parse tokens).errors = [] := by decide +kernel
  have hcount : (tokens.takeWhile (·.kind ≠ .endOfText)).length < 2 ^ 30 := by decide +kernel
  exact ⟨hclean, (parse_numbers tokens).2.2.2.2.2 hclean, (parse_numbers tokens).2.2.2.2.1 hcount⟩

/-- A name that is followed by neither `(` nor `=` is numbered and not kept. -/
example : let tokens := (tokenize "x; y(1)".toList).tokens
    (parse tokens).program.command.ids = [1, 2, 3, 4, 5, 6] ∧ (final tokens).nextId = 7 := by
  decide +kernel

end TriLang
