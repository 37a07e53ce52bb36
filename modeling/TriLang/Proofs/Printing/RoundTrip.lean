import TriLang.Proofs.Parsing.Acceptance
import TriLang.Proofs.Printing.Derivation
import TriLang.Proofs.Printing.Spacing

/-! # Printing and reading again

A text without lexical and syntax errors is printed as a text that is read again as the same tree, with the
same numbers, unless the brackets and blocks that printing adds nest too deep. -/
namespace TriLang
open Layout TriLang.Parser
set_option autoImplicit false

/-! ## Marks are not printed -/

section marks
variable (f : Mark → Mark)

theorem Expr.isBinary_mapMarks (e : Expr) : (e.mapMarks f).isBinary = e.isBinary := by
  cases e <;> rfl

theorem Expr.layout_mapMarks (e : Expr) : (e.mapMarks f).layout = e.layout := by
  induction e with
  | binary m op lhs rhs ihl ihr =>
    simp only [mapMarks, layout, ihl, ihr, isBinary_mapMarks, Operator.mapMarks]
  | unary m op operand ih =>
    simp only [mapMarks, layout, ih, isBinary_mapMarks, Operator.mapMarks]
  | _ => rfl

theorem Param.layout_mapMarks (p : Param) : (p.mapMarks f).layout = p.layout := by
  cases p with
  | value m expr => exact expr.layout_mapMarks f
  | _ => rfl

theorem Decl.layout_mapMarks (d : Decl) (level : Nat) :
    (d.mapMarks f).layout level = d.layout level := by
  induction d with
  | const m name value => simp only [mapMarks, layout, value.layout_mapMarks, Ident.mapMarks]
  | seq m first second ihf ihs => simp only [mapMarks, layout, ihf, ihs]
  | _ => rfl

theorem Command.isSequence_mapMarks (c : Command) : (c.mapMarks f).isSequence = c.isSequence := by
  cases c <;> rfl

theorem Command.isOpenEnded_mapMarks (c : Command) :
    (c.mapMarks f).isOpenEnded = c.isOpenEnded := by
  induction c with
  | cond m c thenBranch elseBranch _ ihe => exact ihe
  | _ => rfl

theorem Command.layout_mapMarks (c : Command) (followed : Bool) (level : Nat) :
    (c.mapMarks f).layout followed level = c.layout followed level := by
  have hlayout : ∀ c : Command, (∀ followed level, (c.mapMarks f).layout followed level =
      c.layout followed level) → (c.mapMarks f).layout = c.layout := by
    intro c h
    funext followed level
    exact h followed level
  induction c generalizing followed level with
  | assign m target value =>
    simp only [mapMarks, layout, value.layout_mapMarks, Ident.mapMarks]
  | call m callee param => simp only [mapMarks, layout, param.layout_mapMarks, Ident.mapMarks]
  | cond m c thenBranch elseBranch iht ihe =>
    simp only [mapMarks, layout, c.layout_mapMarks, hlayout _ iht, hlayout _ ihe,
      isSequence_mapMarks, isOpenEnded_mapMarks]
  | whileDo m c body rest ihb ihr =>
    simp only [mapMarks, layout, c.layout_mapMarks, hlayout _ ihb, hlayout _ ihr]
  | doWhile m body c ih =>
    simp only [mapMarks, layout, c.layout_mapMarks, hlayout _ ih, isSequence_mapMarks]
  | letIn m decl body rest ihb ihr =>
    simp only [mapMarks, layout, decl.layout_mapMarks, hlayout _ ihb, hlayout _ ihr,
      isSequence_mapMarks]
  | seq m first second ihf ihs =>
    simp only [mapMarks, layout, hlayout _ ihf, hlayout _ ihs, isSequence_mapMarks,
      isOpenEnded_mapMarks]
  | _ => rfl

theorem Expr.nesting_mapMarks (e : Expr) : (e.mapMarks f).nesting = e.nesting := by
  induction e with
  | binary m op lhs rhs ihl ihr => simp only [mapMarks, nesting, ihl, ihr, isBinary_mapMarks]
  | unary m op operand ih => simp only [mapMarks, nesting, ih, isBinary_mapMarks]
  | _ => rfl

theorem Param.nesting_mapMarks (p : Param) : (p.mapMarks f).nesting = p.nesting := by
  cases p with
  | value m expr => exact expr.nesting_mapMarks f
  | _ => rfl

theorem Decl.nesting_mapMarks (d : Decl) : (d.mapMarks f).nesting = d.nesting := by
  induction d with
  | const m name value => exact value.nesting_mapMarks f
  | seq m first second ihf ihs => simp only [mapMarks, nesting, ihf, ihs]
  | _ => rfl

theorem Command.nesting_mapMarks (c : Command) (followed : Bool) :
    (c.mapMarks f).nesting followed = c.nesting followed := by
  induction c generalizing followed with
  | assign m target value => simp only [mapMarks, nesting, value.nesting_mapMarks]
  | call m callee param => simp only [mapMarks, nesting, param.nesting_mapMarks]
  | cond m c thenBranch elseBranch iht ihe =>
    simp only [mapMarks, nesting, c.nesting_mapMarks, iht, ihe, isSequence_mapMarks,
      isOpenEnded_mapMarks]
  | whileDo m c body rest ihb ihr => simp only [mapMarks, nesting, c.nesting_mapMarks, ihb, ihr]
  | doWhile m body c ih => simp only [mapMarks, nesting, c.nesting_mapMarks, ih, isSequence_mapMarks]
  | letIn m decl body rest ihb ihr =>
    simp only [mapMarks, nesting, decl.nesting_mapMarks, ihb, ihr, isSequence_mapMarks]
  | seq m first second ihf ihs =>
    simp only [mapMarks, nesting, ihf, ihs, isSequence_mapMarks, isOpenEnded_mapMarks]
  | _ => rfl

theorem Command.lifts_mapMarks (c : Command) (followed : Bool) :
    (c.mapMarks f).lifts followed = c.lifts followed := by
  induction c generalizing followed with
  | cond m c thenBranch elseBranch iht ihe =>
    simp only [mapMarks, lifts, iht, ihe, isOpenEnded_mapMarks]
  | whileDo m c body rest ihb ihr => simp only [mapMarks, lifts, ihb, ihr]
  | doWhile m body c ih => exact ih false
  | letIn m decl body rest ihb ihr => simp only [mapMarks, lifts, ihb, ihr]
  | seq m first second ihf ihs => simp only [mapMarks, lifts, ihf, ihs, isSequence_mapMarks]
  | _ => rfl

end marks

/-! ## The tree of a text without errors can be read -/

/-- A name, operator or number is spelled as such. -/
def Terminal.Readable : Terminal → Prop
  | int spelling => IsSpelling .intLiteral spelling
  | name spelling => IsSpelling .identifier spelling
  | operator spelling => IsSpelling .operator spelling
  | _ => True

theorem Terminal.readable_ofSpelling {kind : Token.Kind} {spelling : String}
    (h : IsSpelling kind spelling) : (Terminal.ofSpelling kind spelling).Readable := by
  unfold Terminal.ofSpelling
  split <;> first | exact h | trivial

theorem ExprDerivation.readable_tree {x : Extent} (D : ExprDerivation x)
    (h : ∀ t ∈ D.yield, t.Readable) : D.tree.Readable := by
  induction D with
  | int spelling => exact h (.int spelling) (by simp [yield])
  | char value => trivial
  | name spelling => exact h (.name spelling) (by simp [yield])
  | unary op operand ih =>
    simp only [yield, List.forall_mem_cons] at h
    exact ⟨h.1, ih h.2⟩
  | brackets inner ih => exact ih fun t ht => h t (by simp [yield, ht])
  | single first ih => exact ih h
  | binary lhs op rhs ihl ihr =>
    simp only [yield, List.forall_mem_append, List.forall_mem_cons] at h
    exact ⟨h.2.1, ihl h.1, ihr h.2.2⟩

theorem ParamDerivation.readable_tree (D : ParamDerivation) (h : ∀ t ∈ D.yield, t.Readable) :
    D.tree.Readable := by
  cases D with
  | value expr => exact expr.readable_tree h
  | reference name => exact h (.name name) (by simp [yield])
  | empty => trivial

theorem DeclDerivation.readable_tree {x : Extent} (D : DeclDerivation x)
    (h : ∀ t ∈ D.yield, t.Readable) : D.tree.Readable := by
  induction D with
  | const name value =>
    simp only [yield, List.forall_mem_cons] at h
    exact ⟨h.2.1, value.readable_tree h.2.2.2⟩
  | var name type => exact ⟨h (.name name) (by simp [yield]), h (.name type) (by simp [yield])⟩
  | single first ih => exact ih h
  | seq front last ihf ihl =>
    simp only [yield, List.forall_mem_append, List.forall_mem_cons] at h
    exact ⟨ihf h.1, ihl h.2.2⟩

theorem CommandDerivation.readable_tree {x : Extent} (D : CommandDerivation x)
    (h : ∀ t ∈ D.yield, t.Readable) : D.tree.Readable := by
  induction D with
  | assign target value =>
    simp only [yield, List.forall_mem_cons] at h
    exact ⟨h.1, value.readable_tree h.2.2⟩
  | call callee param =>
    simp only [yield, List.forall_mem_append, List.forall_mem_cons] at h
    exact ⟨h.1, param.readable_tree h.2.2.1⟩
  | block inner ih => exact ih fun t ht => h t (by simp [yield, ht])
  | letIn decl body rest ihb ihr =>
    simp only [yield, List.forall_mem_append, List.forall_mem_cons] at h
    exact ⟨decl.readable_tree h.2.1, ihb h.2.2.2.1, ihr h.2.2.2.2.2⟩
  | cond c thenBranch elseBranch iht ihe =>
    simp only [yield, List.forall_mem_append, List.forall_mem_cons] at h
    exact ⟨c.readable_tree h.2.1, iht h.2.2.2.1, ihe h.2.2.2.2.2⟩
  | whileDo c body rest ihb ihr =>
    simp only [yield, List.forall_mem_append, List.forall_mem_cons] at h
    exact ⟨c.readable_tree h.2.1, ihb h.2.2.2.1, ihr h.2.2.2.2.2⟩
  | doWhile body c ih =>
    simp only [yield, List.forall_mem_append, List.forall_mem_cons] at h
    exact ⟨ih h.2.1, c.readable_tree h.2.2.2⟩
  | pass => trivial
  | empty => trivial
  | single first ih => exact ih h
  | seq front last ihf ihl =>
    simp only [yield, List.forall_mem_append, List.forall_mem_cons] at h
    exact ⟨ihf h.1, ihl h.2.2⟩

/-! ## Words of texts -/

/-- The word of a text is made of the tokens that it is read as. -/
theorem Lexes.word_eq {text : List Char} {tokens : List (Token.Kind × String)}
    (h : Lexes text tokens) :
    word (tokenize text).tokens = tokens.map fun t => .ofSpelling t.1 t.2 := by
  obtain ⟨-, htokens⟩ := (tokenize_iff_lexes text tokens).1 h
  have hkinds : ∀ t ∈ tokens, decide (t.1 ≠ Token.Kind.endOfText) = true := by
    intro t ht
    obtain ⟨c, tail, -, hs⟩ := h.isSpelling t ht
    simpa using hs.ne_endOfText
  calc word (tokenize text).tokens
      = (((tokenize text).tokens.map Token.view).takeWhile
          (fun t => decide (t.1 ≠ Token.Kind.endOfText))).map fun t => .ofSpelling t.1 t.2 := by
        rw [List.takeWhile_map, List.map_map]; rfl
    _ = tokens.map fun t => .ofSpelling t.1 t.2 := by
        rw [htokens, List.takeWhile_append_of_pos hkinds]
        simp

theorem exists_lexes {text : List Char} (h : (tokenize text).errors = []) :
    ∃ tokens, Lexes text tokens := ⟨_, lexes_of_split (LineMap.ofText text) 0 text h⟩

/-- What is printed is read as the tokens of the layout. -/
theorem Program.lexes_print {p : Program} (h : p.command.Readable) (width : Nat) :
    Lexes (p.print width) (Layout.tokens p.layout) := by
  have hspaced := (p.command.lined_layout h false 0).fits [] trivial separated_nil
  rw [List.append_nil] at hspaced
  exact lexes_render width hspaced

/-! ## The round trip -/

/-- A text without errors is derived as some tree. What is printed has no lexical errors and is derived as the
same tree, as deep as the layout nests. -/
theorem exists_derivation_of_print (text : List Char) (width : Nat)
    (hlex : (tokenize text).errors = []) (hparse : (parseText text).errors = []) :
    let program := (parseText text).program
    let printed := program.print width
    (tokenize printed).errors = [] ∧ ∃ D E : CommandDerivation .chain,
      D.Derives (tokenize text).tokens ∧ D.depth ≤ maxDepth ∧ program.command.bare = D.tree ∧
        program.command.unspanned = D.tree.numbered 0 ∧ E.Derives (tokenize printed).tokens ∧
        E.tree = D.tree ∧ E.depth = D.tree.nesting false := by
  intro program printed
  obtain ⟨D, hD, hdepth, htree⟩ := exists_derivation_of_parse hparse
  have hbare : program.command.bare = D.tree := by
    rw [← Command.bare_unspanned, show program.command.unspanned = _ from htree,
      Command.bare_numbered, D.bare_tree]
  have hlayout : program.layout = D.tree.layout false 0 := by
    rw [← hbare, Command.bare, Command.layout_mapMarks, Program.layout]
  -- the leaves of the tree are spelled as tokens of the text are
  have hreadable : D.tree.Readable := by
    obtain ⟨tokens, htokens⟩ := exists_lexes hlex
    refine D.readable_tree fun t ht => ?_
    rw [hD.yield, htokens.word_eq] at ht
    obtain ⟨u, hu, rfl⟩ := List.mem_map.1 ht
    exact Terminal.readable_ofSpelling (htokens.isSpelling u hu)
  have hlexes : Lexes printed (Layout.tokens (D.tree.layout false 0)) := by
    have hprint := Program.lexes_print (p := ⟨D.tree, default⟩) hreadable width
    change Lexes (render width program.layout) _
    rw [hlayout]
    exact hprint
  obtain ⟨E, hE, -⟩ := D.printable.chain false 0
  have hderives : E.Derives (tokenize printed).tokens :=
    ⟨by rw [hlexes.word_eq, hE.yield, terminals], hE.innermost⟩
  exact ⟨((tokenize_iff_lexes printed _).1 hlexes).1, D, E, hD, hdepth, hbare, htree, hderives,
    hE.tree, hE.depth⟩

/-- Printing a text without errors gives a text without lexical errors. Read again it is the same tree with
the same numbers at all nodes, unless it nests too deep, which then is the only error. -/
theorem parseText_print (text : List Char) (width : Nat) (hlex : (tokenize text).errors = [])
    (hparse : (parseText text).errors = []) :
    let printed := (parseText text).program.print width
    (tokenize printed).errors = [] ∧
      ((∃ span, (parseText printed).errors = [⟨.tooDeep, span⟩]) ∨
        ((parseText printed).errors = [] ∧ (parseText printed).program.command.unspanned =
          (parseText text).program.command.unspanned)) := by
  intro printed
  obtain ⟨hprinted, D, E, -, -, -, htree, hderives, hE, -⟩ :=
    exists_derivation_of_print text width hlex hparse
  refine ⟨hprinted, ?_⟩
  by_cases hdepth : E.depth ≤ maxDepth
  · obtain ⟨herrors, htree'⟩ := hderives.parse_of_le hdepth
    refine .inr ⟨herrors, ?_⟩
    rw [parseText, htree', hE, ← htree]
  · exact .inl (hderives.parse_of_lt (Nat.lt_of_not_le hdepth))

/-- The loop in front of the last `;` was a block, and it has to be one again. -/
theorem parseText_print_block :
    let text := "begin while b do x = a - (b - 'c') wend end; pass".toList
    let printed := (parseText text).program.print 2
    ((tokenize text).errors = [] ∧ (parseText text).errors = []) ∧ (tokenize printed).errors = [] ∧
      ((∃ span, (parseText printed).errors = [⟨.tooDeep, span⟩]) ∨
        ((parseText printed).errors = [] ∧ (parseText printed).program.command.unspanned =
          (parseText text).program.command.unspanned)) := by
  intro text printed
  have hlex : (tokenize text).errors = [] := by decide +kernel
  have hparse : (parseText text).errors = [] := by decide +kernel
  exact ⟨⟨hlex, hparse⟩, parseText_print text 2 hlex hparse⟩

end TriLang
