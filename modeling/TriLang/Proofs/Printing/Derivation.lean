import TriLang.Proofs.Printing.Nesting

/-! # The layout of a derived tree derives it

For every derived tree there is a derivation whose word is made of the tokens of the layout and whose tree
is the same. It is as deep as the layout nests, and in it every `;` belongs to the innermost open list of
commands: what stands in front of a `;` is put between `begin` and `end` where it would leave a list open. -/
namespace TriLang
open Layout
set_option autoImplicit false

/-! ## The word of a layout -/

namespace Layout

/-- What the grammar sees of the tokens among the pieces. -/
def terminals (pieces : List Piece) : List Terminal :=
  (tokens pieces).map fun t => .ofSpelling t.1 t.2

variable (pieces rest : List Piece)

@[simp] theorem terminals_nil : terminals [] = [] := rfl

@[simp] theorem terminals_line (level : Nat) : terminals (.line level :: rest) = terminals rest := rfl

@[simp] theorem terminals_gap : terminals (.gap :: rest) = terminals rest := rfl

@[simp] theorem terminals_token (kind : Token.Kind) (spelling : String) :
    terminals (.token kind spelling :: rest) = .ofSpelling kind spelling :: terminals rest := rfl

@[simp] theorem terminals_word (k : Keyword) :
    terminals (word k :: rest) = .word k :: terminals rest := rfl

@[simp] theorem terminals_name (spelling : String) :
    terminals (name spelling :: rest) = .name spelling :: terminals rest := rfl

@[simp] theorem terminals_semicolon :
    terminals (semicolon :: rest) = .fixed .semicolon :: terminals rest := rfl

@[simp] theorem terminals_append :
    terminals (pieces ++ rest) = terminals pieces ++ terminals rest := by
  induction pieces with
  | nil => rfl
  | cons p pieces ih => cases p <;> simp_all [terminals, tokens]

end Layout

/-! ## Expressions, parameters and declarations -/

/-- The derivation has the word of the pieces, the tree of the expression and this depth. -/
structure ExprDerivation.Prints {x : Extent} (D : ExprDerivation x) (e : Expr) (pieces : List Piece)
    (nesting : Nat) : Prop where
  yield : D.yield = terminals pieces
  tree : D.tree = e
  depth : D.depth = nesting

/-- The layout of the expression derives it, by itself and as an operand. -/
structure Expr.Printable (e : Expr) : Prop where
  chain : ∃ D : ExprDerivation .chain, D.Prints e e.layout e.nesting
  item : ∃ D : ExprDerivation .item,
    D.Prints e (layout.bracketedIf e.isBinary e.layout) (e.nesting + e.isBinary.toNat)

theorem Expr.Printable.of_item {e : Expr} (he : e.isBinary = false)
    (h : ∃ D : ExprDerivation .item, D.Prints e e.layout e.nesting) : e.Printable := by
  obtain ⟨D, hD⟩ := h
  exact ⟨⟨.single D, hD.yield, hD.tree, hD.depth⟩, ⟨D, by rwa [he]⟩⟩

theorem ExprDerivation.printable {x : Extent} (D : ExprDerivation x) : D.tree.Printable := by
  induction D with
  | int spelling => exact .of_item rfl ⟨.int spelling, rfl, rfl, rfl⟩
  | char value =>
    refine .of_item rfl ⟨.char value, ?_, rfl, rfl⟩
    simp [yield, tree, Expr.layout, Terminal.ofSpelling, Parser.literalChar]
  | name spelling => exact .of_item rfl ⟨.name spelling, rfl, rfl, rfl⟩
  | unary op operand ih =>
    obtain ⟨D, hD⟩ := ih.item
    refine .of_item rfl ⟨.unary op D, ?_, by rw [tree, hD.tree, tree], by rw [depth, hD.depth]; rfl⟩
    simp [yield, tree, Expr.layout, hD.yield, Terminal.ofSpelling]
  | brackets inner ih => exact ih
  | single first ih => exact ih
  | binary lhs op rhs ihl ihr =>
    obtain ⟨L, hL⟩ := ihl.chain
    obtain ⟨R, hR⟩ := ihr.item
    have hchain : (binary L op R).Prints (binary lhs op rhs).tree (binary lhs op rhs).tree.layout
        (binary lhs op rhs).tree.nesting :=
      ⟨by simp [yield, tree, Expr.layout, hL.yield, hR.yield, Terminal.ofSpelling],
        by rw [tree, hL.tree, hR.tree, tree], by rw [depth, hL.depth, hR.depth]; rfl⟩
    refine ⟨⟨_, hchain⟩, ⟨.brackets (binary L op R), ?_, hchain.tree, by rw [depth, hchain.depth]; rfl⟩⟩
    rw [yield, hchain.yield]
    simp [Expr.layout.bracketedIf, tree, Expr.isBinary, Terminal.ofSpelling]

theorem ParamDerivation.printable (D : ParamDerivation) :
    ∃ E : ParamDerivation, E.yield = terminals D.tree.layout ∧ E.tree = D.tree ∧
      E.depth = D.tree.nesting := by
  cases D with
  | value expr =>
    obtain ⟨E, hE⟩ := expr.printable.chain
    exact ⟨.value E, hE.yield, by rw [tree, hE.tree, tree], hE.depth⟩
  | reference name => exact ⟨.reference name, rfl, rfl, rfl⟩
  | empty => exact ⟨.empty, rfl, rfl, rfl⟩

theorem DeclDerivation.printable {x : Extent} (D : DeclDerivation x) (level : Nat) :
    ∃ E : DeclDerivation x, E.yield = terminals (D.tree.layout level) ∧ E.tree = D.tree ∧
      E.depth = D.tree.nesting := by
  induction D with
  | const name value =>
    obtain ⟨E, hE⟩ := value.printable.chain
    refine ⟨.const name E, ?_, by rw [tree, hE.tree, tree], hE.depth⟩
    simp [yield, tree, Decl.layout, hE.yield, Terminal.ofSpelling]
  | var name type => exact ⟨.var name type, rfl, rfl, rfl⟩
  | single first ih =>
    obtain ⟨E, hyield, htree, hdepth⟩ := ih
    exact ⟨.single E, hyield, htree, hdepth⟩
  | seq front last ihf ihl =>
    obtain ⟨F, hF, hF', hFdepth⟩ := ihf
    obtain ⟨L, hL, hL', hLdepth⟩ := ihl
    refine ⟨.seq F L, ?_, by rw [tree, hF', hL', tree], by rw [depth, hFdepth, hLdepth]; rfl⟩
    simp [yield, tree, Decl.layout, hF, hL]

/-! ## Commands -/

structure CommandDerivation.Prints {x : Extent} (D : CommandDerivation x) (c : Command)
    (pieces : List Piece) (nesting : Nat) : Prop where
  yield : D.yield = terminals pieces
  tree : D.tree = c
  innermost : D.Innermost
  depth : D.depth = nesting

/-- The layout of the command derives it, as commands joined by `;` and as a single one. If a `;` follows,
no list is left open. -/
structure Command.Printable (c : Command) : Prop where
  chain : ∀ followed level, ∃ D : CommandDerivation .chain,
    D.Prints c (c.layout followed level) (c.nesting followed) ∧
      (followed = true → D.openEnded = false)
  item : ∀ followed level, ∃ D : CommandDerivation .item,
    D.Prints c (enclosedIf (c.isSequence || (followed && c.isOpenEnded)) (c.layout false) level)
        (c.nesting false + (c.isSequence || (followed && c.isOpenEnded)).toNat) ∧
      D.openEnded = (!followed && c.isOpenEnded)

/-- A block leaves no list open, whatever is in it. -/
theorem CommandDerivation.Prints.block {D : CommandDerivation .chain} {c : Command}
    {lines : Nat → List Piece} {level nesting : Nat} (h : D.Prints c (lines (level + 1)) nesting) :
    (CommandDerivation.block D).Prints c (enclosedIf true lines level) (nesting + 1) :=
  ⟨by simp [CommandDerivation.yield, enclosedIf, h.yield], h.tree, h.innermost,
    congrArg Nat.succ h.depth⟩

theorem Command.layout_of_not_sequence {c : Command} (hc : c.isSequence = false) (followed : Bool)
    (level : Nat) :
    c.layout followed level = enclosedIf (followed && c.isOpenEnded) (c.layout false) level := by
  cases c <;> simp_all [layout, isOpenEnded, isSequence, enclosedIf]

theorem Command.Printable.of_item {c : Command} (hc : c.isSequence = false)
    (h : ∀ level, ∃ D : CommandDerivation .item,
      D.Prints c (c.layout false level) (c.nesting false) ∧ D.openEnded = c.isOpenEnded) :
    c.Printable := by
  have hitem : ∀ followed level, ∃ D : CommandDerivation .item,
      D.Prints c (enclosedIf (followed && c.isOpenEnded) (c.layout false) level)
          (c.nesting false + (followed && c.isOpenEnded).toNat) ∧
        D.openEnded = (!followed && c.isOpenEnded) := by
    intro followed level
    cases henclosed : followed && c.isOpenEnded with
    | true =>
      obtain ⟨D, hD, -⟩ := h (level + 1)
      have hsingle : (CommandDerivation.single D).Prints c (c.layout false (level + 1))
          (c.nesting false) := ⟨hD.yield, hD.tree, hD.innermost, hD.depth⟩
      refine ⟨.block (.single D), hsingle.block, ?_⟩
      simp_all [CommandDerivation.openEnded]
    | false =>
      obtain ⟨D, hD, hopen⟩ := h level
      refine ⟨D, hD, ?_⟩
      cases followed <;> simp_all
  refine ⟨fun followed level => ?_, fun followed level => ?_⟩
  · obtain ⟨D, hD, hopen⟩ := hitem followed level
    rw [layout_of_not_sequence hc, nesting_of_not_sequence hc]
    refine ⟨.single D, ⟨hD.yield, hD.tree, hD.innermost, hD.depth⟩, ?_⟩
    rintro rfl
    exact hopen
  · rw [hc, Bool.false_or]
    exact hitem followed level

theorem Command.Printable.branch {c : Command} (h : c.Printable) (level : Nat) :
    ∃ D : CommandDerivation .item, D.Prints c (enclosedIf c.isSequence (c.layout false) level)
        (c.nesting false + c.isSequence.toNat) ∧
      D.openEnded = c.isOpenEnded := by
  simpa using h.item false level

theorem Command.Printable.seq {front last : Command} (hf : front.Printable) (hl : last.Printable) :
    (Command.seq default front last).Printable := by
  have hchain : ∀ followed level, ∃ D : CommandDerivation .chain,
      D.Prints (.seq default front last) ((Command.seq default front last).layout followed level)
          ((Command.seq default front last).nesting followed) ∧
        (followed = true → D.openEnded = false) := by
    intro followed level
    obtain ⟨F, hF, hclosed⟩ := hf.chain true level
    obtain ⟨L, hL, hopen⟩ := hl.item followed level
    refine ⟨.seq F L, ⟨?_, ?_, ⟨hclosed rfl, hF.innermost, hL.innermost⟩, ?_⟩, ?_⟩
    · simp [CommandDerivation.yield, layout, hF.yield, hL.yield]
    · rw [CommandDerivation.tree, hF.tree, hL.tree]
    · rw [CommandDerivation.depth, hF.depth, hL.depth, nesting]
    · rintro rfl
      exact hopen
  refine ⟨hchain, fun followed level => ?_⟩
  obtain ⟨D, hD, -⟩ := hchain false (level + 1)
  exact ⟨.block D, hD.block, by simp [CommandDerivation.openEnded, isOpenEnded]⟩

theorem CommandDerivation.printable {x : Extent} (D : CommandDerivation x) : D.tree.Printable := by
  induction D with
  | assign target value =>
    refine .of_item rfl fun level => ?_
    obtain ⟨V, hV⟩ := value.printable.chain
    refine ⟨.assign target V, ⟨?_, by rw [tree, hV.tree, tree], trivial, by rw [depth, hV.depth]; rfl⟩,
      rfl⟩
    simp [yield, tree, Command.layout, hV.yield, Terminal.ofSpelling]
  | call callee param =>
    refine .of_item rfl fun level => ?_
    obtain ⟨P, hP, hP', hdepth⟩ := param.printable
    refine ⟨.call callee P, ⟨?_, by rw [tree, hP', tree], trivial, by rw [depth, hdepth]; rfl⟩, rfl⟩
    simp [yield, tree, Command.layout, hP, Terminal.ofSpelling]
  | block inner ih => exact ih
  | letIn decl body rest ihb ihr =>
    refine .of_item rfl fun level => ?_
    obtain ⟨D, hD, hD', hdepth⟩ := decl.printable (level + 1)
    obtain ⟨B, hB, -⟩ := ihb.branch (level + 1)
    obtain ⟨R, hR, -⟩ := ihr.chain false level
    refine ⟨.letIn D B R, ⟨?_, by rw [tree, hD', hB.tree, hR.tree, tree],
      ⟨hB.innermost, hR.innermost⟩, by rw [depth, hdepth, hB.depth, hR.depth]; rfl⟩, rfl⟩
    simp [yield, tree, Command.layout, enclosedIf, hD, hB.yield, hR.yield]
  | cond c thenBranch elseBranch iht ihe =>
    refine .of_item rfl fun level => ?_
    obtain ⟨C, hC⟩ := c.printable.chain
    obtain ⟨T, hT, -⟩ := iht.branch (level + 1)
    obtain ⟨E, hE, hopen⟩ := ihe.branch (level + 1)
    refine ⟨.cond C T E, ⟨?_, by rw [tree, hC.tree, hT.tree, hE.tree, tree],
      ⟨hT.innermost, hE.innermost⟩, by rw [depth, hC.depth, hT.depth, hE.depth]; rfl⟩, hopen⟩
    simp [yield, tree, Command.layout, enclosedIf, hC.yield, hT.yield, hE.yield]
  | whileDo c body rest ihb ihr =>
    refine .of_item rfl fun level => ?_
    obtain ⟨C, hC⟩ := c.printable.chain
    obtain ⟨B, hB, -⟩ := ihb.chain false (level + 1)
    obtain ⟨R, hR, -⟩ := ihr.chain false level
    refine ⟨.whileDo C B R, ⟨?_, by rw [tree, hC.tree, hB.tree, hR.tree, tree],
      ⟨hB.innermost, hR.innermost⟩, by rw [depth, hC.depth, hB.depth, hR.depth]; rfl⟩, rfl⟩
    simp [yield, tree, Command.layout, enclosedIf, hC.yield, hB.yield, hR.yield]
  | doWhile body c ih =>
    refine .of_item rfl fun level => ?_
    obtain ⟨B, hB, -⟩ := ih.branch (level + 1)
    obtain ⟨C, hC⟩ := c.printable.chain
    refine ⟨.doWhile B C, ⟨?_, by rw [tree, hB.tree, hC.tree, tree], hB.innermost,
      by rw [depth, hB.depth, hC.depth]; rfl⟩, rfl⟩
    simp [yield, tree, Command.layout, hB.yield, hC.yield]
  | pass => exact .of_item rfl fun level => ⟨.pass, ⟨rfl, rfl, trivial, rfl⟩, rfl⟩
  | empty => exact .of_item rfl fun level => ⟨.pass, ⟨rfl, rfl, trivial, rfl⟩, rfl⟩
  | single first ih => exact ih
  | seq front last ihf ihl => exact ihf.seq ihl

end TriLang
