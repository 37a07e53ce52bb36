import TriLang.Proofs.Parsing.Grammar
import TriLang.Syntax.Layout

/-! # How deep a printed program nests

`nesting` counts the single commands and primary expressions that stand inside one another in the layout of a
tree, the blocks and brackets that the layout adds among them. It may exceed the depth of the source. A
conditional that ends in an open list is put in a block as a whole where a `;` follows, while in the source
the block may stand inside its last branch; what else is in the conditional then moves one level down.

`lifts` counts such conditionals inside one another. Printing nests at most that many levels deeper than the
source (`nesting_tree_le`), and each of them takes up two levels of the source (`lifts_tree_le`). -/
namespace TriLang
set_option autoImplicit false

/-! ## Levels of the layout -/

def Expr.nesting : Expr → Nat
  | binary _ _ lhs rhs => max lhs.nesting (rhs.nesting + rhs.isBinary.toNat)
  | unary _ _ operand => operand.nesting + operand.isBinary.toNat + 1
  | int _ _ => 1
  | char _ _ => 1
  | name _ _ => 1
  | error _ => 1

def Param.nesting : Param → Nat
  | value _ expr => expr.nesting
  | reference _ _ => 0
  | blank _ => 0
  | error _ => 0

def Decl.nesting : Decl → Nat
  | const _ _ value => value.nesting
  | var _ _ _ => 0
  | seq _ first second => max first.nesting second.nesting
  | error _ => 0

/-- How deep the lines of a command nest, given whether a `;` follows. -/
def Command.nesting : Command → Bool → Nat
  | assign _ _ value, _ => value.nesting + 1
  | call _ _ param, _ => param.nesting + 1
  | cond _ c thenBranch elseBranch, followed =>
    max c.nesting (max (thenBranch.nesting false + thenBranch.isSequence.toNat)
      (elseBranch.nesting false + elseBranch.isSequence.toNat)) + 1 +
      (followed && elseBranch.isOpenEnded).toNat
  | whileDo _ c body rest, followed =>
    max c.nesting (max (body.nesting false) (rest.nesting false)) + 1 + followed.toNat
  | doWhile _ body c, _ => max (body.nesting false + body.isSequence.toNat) c.nesting + 1
  | letIn _ decl body rest, followed =>
    max decl.nesting (max (body.nesting false + body.isSequence.toNat) (rest.nesting false)) + 1 +
      followed.toNat
  | seq _ first second, followed =>
    max (first.nesting true) (second.nesting false +
      (second.isSequence || (followed && second.isOpenEnded)).toNat)
  | blank _, _ => 1
  | error _, _ => 1

theorem Command.nesting_of_not_sequence {c : Command} (hc : c.isSequence = false) (followed : Bool) :
    c.nesting followed = c.nesting false + (followed && c.isOpenEnded).toNat := by
  cases c <;> simp_all [nesting, isOpenEnded, isSequence]

theorem Command.nesting_true_le (c : Command) : c.nesting true ≤ c.nesting false + 1 := by
  cases hc : c.isSequence with
  | false =>
    have hopen := Bool.toNat_le (true && c.isOpenEnded)
    rw [c.nesting_of_not_sequence hc]
    omega
  | true =>
    cases c with
    | seq m first second =>
      have hblock := Bool.toNat_le (second.isSequence || (true && second.isOpenEnded))
      simp only [nesting]
      omega
    | _ => simp [isSequence] at hc

/-! ## Lifted conditionals -/

/-- How many of the conditionals that are put in a block stand inside one another, given whether a `;`
follows. -/
def Command.lifts : Command → Bool → Nat
  | cond _ _ thenBranch elseBranch, followed =>
    max (thenBranch.lifts false) (elseBranch.lifts false) +
      (followed && elseBranch.isOpenEnded).toNat
  | whileDo _ _ body rest, _ => max (body.lifts false) (rest.lifts false)
  | doWhile _ body _, _ => body.lifts false
  | letIn _ _ body rest, _ => max (body.lifts false) (rest.lifts false)
  | seq _ first second, followed =>
    max (first.lifts true) (second.lifts (followed && !second.isSequence))
  | assign _ _ _, _ => 0
  | call _ _ _, _ => 0
  | blank _, _ => 0
  | error _, _ => 0

theorem Command.lifts_false_le (c : Command) (followed : Bool) :
    c.lifts false ≤ c.lifts followed := by
  induction c generalizing followed with
  | cond m c thenBranch elseBranch _ _ => simp [lifts]
  | seq m first second _ ihs =>
    have hsecond := ihs (followed && !second.isSequence)
    simp only [lifts, Bool.false_and]
    omega
  | _ => exact Nat.le_refl _

theorem Command.lifts_le_true (c : Command) (followed : Bool) : c.lifts followed ≤ c.lifts true := by
  cases followed with
  | false => exact c.lifts_false_le true
  | true => exact Nat.le_refl _

/-- Two levels of the source go with each lifted conditional: its own, and that of the block around the list
it stands in. -/
theorem CommandDerivation.lifts_tree_le {x : Extent} (D : CommandDerivation x) :
    2 * D.tree.lifts true ≤ D.depth ∧ (x = .item → 2 * D.tree.lifts false + 1 ≤ D.depth) := by
  have hmono := fun c : Command => c.lifts_false_le true
  induction D with
  | assign target value => simp [tree, Command.lifts, depth]
  | call callee param => simp [tree, Command.lifts, depth]
  | block inner ih =>
    have hinner := hmono inner.tree
    simp only [tree, depth]
    omega
  | letIn decl body rest ihb ihr =>
    have hbody := ihb.2 rfl
    have hrest := hmono rest.tree
    simp only [tree, Command.lifts, depth]
    omega
  | cond c thenBranch elseBranch iht ihe =>
    have hthen := iht.2 rfl
    have helse := ihe.2 rfl
    have hopen := Bool.toNat_le (true && elseBranch.tree.isOpenEnded)
    simp only [tree, Command.lifts, depth, Bool.false_and, Bool.toNat_false]
    omega
  | whileDo c body rest ihb ihr =>
    have hbody := hmono body.tree
    have hrest := hmono rest.tree
    simp only [tree, Command.lifts, depth]
    omega
  | doWhile body c ih =>
    have hbody := ih.2 rfl
    simp only [tree, Command.lifts, depth]
    omega
  | pass => simp [tree, Command.lifts, depth]
  | empty => simp [tree, Command.lifts, depth]
  | single first ih => exact ⟨ih.1, by simp⟩
  | seq front last ihf ihl =>
    have hlast := last.tree.lifts_le_true (true && !last.tree.isSequence)
    refine ⟨?_, by simp⟩
    simp only [tree, Command.lifts, depth]
    omega

/-! ## The depth of the source -/

theorem ExprDerivation.nesting_tree_le {x : Extent} (D : ExprDerivation x) :
    D.tree.nesting ≤ D.depth ∧ (x = .item → D.tree.nesting + D.tree.isBinary.toNat ≤ D.depth) := by
  induction D with
  | int spelling => simp [tree, Expr.nesting, Expr.isBinary, depth]
  | char value => simp [tree, Expr.nesting, Expr.isBinary, depth]
  | name spelling => simp [tree, Expr.nesting, Expr.isBinary, depth]
  | unary op operand ih =>
    have hoperand := Nat.succ_le_succ (ih.2 rfl)
    exact ⟨hoperand, fun _ => hoperand⟩
  | brackets inner ih =>
    have hbracket := Bool.toNat_le inner.tree.isBinary
    simp only [tree, depth]
    omega
  | single first ih => exact ⟨ih.1, by simp⟩
  | binary lhs op rhs ihl ihr =>
    have hrhs := ihr.2 rfl
    refine ⟨?_, by simp⟩
    simp only [tree, Expr.nesting, depth]
    omega

theorem ParamDerivation.nesting_tree_le (D : ParamDerivation) : D.tree.nesting ≤ D.depth := by
  cases D with
  | value expr => exact expr.nesting_tree_le.1
  | reference name => exact Nat.le_refl _
  | empty => exact Nat.le_refl _

theorem DeclDerivation.nesting_tree_le {x : Extent} (D : DeclDerivation x) :
    D.tree.nesting ≤ D.depth := by
  induction D with
  | const name value => exact value.nesting_tree_le.1
  | var name type => exact Nat.le_refl _
  | single first ih => exact ih
  | seq front last ihf ihl =>
    simp only [tree, Decl.nesting, depth]
    omega

/-- Printing nests deeper than the source by no more levels than there are lifted conditionals. A `;` may
follow only where the source leaves no list open; there the source has a block of its own wherever the layout
has one, but around a lifted conditional. -/
theorem CommandDerivation.nesting_tree_le {x : Extent} (D : CommandDerivation x) (h : D.Innermost) :
    D.tree.nesting false ≤ D.depth + D.tree.lifts false ∧
      (x = .item →
        D.tree.nesting false + D.tree.isSequence.toNat ≤ D.depth + D.tree.lifts false) ∧
      (D.openEnded = false → D.tree.nesting true ≤ D.depth + D.tree.lifts true) := by
  induction D with
  | assign target value =>
    have hvalue := Nat.succ_le_succ value.nesting_tree_le.1
    exact ⟨hvalue, fun _ => hvalue, fun _ => hvalue⟩
  | call callee param =>
    have hparam := Nat.succ_le_succ param.nesting_tree_le
    exact ⟨hparam, fun _ => hparam, fun _ => hparam⟩
  | block inner ih =>
    have hinner := (ih h).1
    have hsequence := Bool.toNat_le inner.tree.isSequence
    have htrue := inner.tree.nesting_true_le
    have hlifts := inner.tree.lifts_false_le true
    simp only [tree, depth]
    omega
  | letIn decl body rest ihb ihr =>
    have hdecl := decl.nesting_tree_le
    have hbody := (ihb h.1).2.1 rfl
    have hrest := (ihr h.2).1
    have hnesting : (Command.letIn default decl.tree body.tree rest.tree).nesting false ≤
        (letIn decl body rest).depth + (letIn decl body rest).tree.lifts false := by
      simp only [Command.nesting, tree, Command.lifts, depth, Bool.toNat_false]
      omega
    exact ⟨hnesting, fun _ => hnesting, by simp [openEnded]⟩
  | cond c thenBranch elseBranch iht ihe =>
    have hc := c.nesting_tree_le.1
    have hthen := (iht h.1).2.1 rfl
    have helse := (ihe h.2).2.1 rfl
    have hnesting : ∀ followed, (cond c thenBranch elseBranch).tree.nesting followed ≤
        (cond c thenBranch elseBranch).depth +
          (cond c thenBranch elseBranch).tree.lifts followed := by
      intro followed
      simp only [Command.nesting, tree, Command.lifts, depth]
      omega
    exact ⟨hnesting false, fun _ => hnesting false, fun _ => hnesting true⟩
  | whileDo c body rest ihb ihr =>
    have hc := c.nesting_tree_le.1
    have hbody := (ihb h.1).1
    have hrest := (ihr h.2).1
    have hnesting : (whileDo c body rest).tree.nesting false ≤
        (whileDo c body rest).depth + (whileDo c body rest).tree.lifts false := by
      simp only [Command.nesting, tree, Command.lifts, depth, Bool.toNat_false]
      omega
    exact ⟨hnesting, fun _ => hnesting, by simp [openEnded]⟩
  | doWhile body c ih =>
    have hbody := (ih h).2.1 rfl
    have hc := c.nesting_tree_le.1
    have hnesting : (doWhile body c).tree.nesting false ≤
        (doWhile body c).depth + (doWhile body c).tree.lifts false := by
      simp only [Command.nesting, tree, Command.lifts, depth]
      omega
    exact ⟨hnesting, fun _ => hnesting, fun _ => hnesting⟩
  | pass => exact ⟨Nat.le_refl _, fun _ => Nat.le_refl _, fun _ => Nat.le_refl _⟩
  | empty => exact ⟨Nat.le_refl _, fun _ => Nat.le_refl _, fun _ => Nat.le_refl _⟩
  | single first ih => exact ⟨(ih h).1, by simp, (ih h).2.2⟩
  | seq front last ihf ihl =>
    have hfront := (ihf h.2.1).2.2 h.1
    have hlast := (ihl h.2.2).2.1 rfl
    refine ⟨?_, by simp, fun hclosed => ?_⟩
    · simp only [tree, Command.nesting, Command.lifts, depth, Bool.false_and, Bool.or_false]
      omega
    · have htrue := (ihl h.2.2).2.2 hclosed
      simp only [tree, Command.nesting, Command.lifts, depth, Bool.true_and]
      cases hsequence : last.tree.isSequence with
      | true =>
        rw [hsequence] at hlast
        simp only [Bool.true_or, Bool.not_true]
        omega
      | false =>
        rw [last.tree.nesting_of_not_sequence hsequence] at htrue
        simp only [Bool.false_or, Bool.not_false, Bool.true_and] at htrue ⊢
        omega

end TriLang
