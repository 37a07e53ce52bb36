import TriLang.Proofs.Syntax.Marks

/-! # The nodes of a tree

A `Node` is a part of a tree, of whatever class, with all that stands below it. Its `children` are listed
in the order in which they stand in the source, which is also the order in which they are finished. What is
to hold of a node and of everything below it holds `Throughout`. -/
namespace TriLang
set_option autoImplicit false

inductive Node where
  | command (c : Command)
  | decl (d : Decl)
  | type (d : TypeDenoter)
  | param (p : Param)
  | expr (e : Expr)
  | ident (i : Ident)
  | operator (o : Operator)

/-! ## Children -/

def Expr.children : Expr → List Node
  | binary _ op lhs rhs => [.expr lhs, .operator op, .expr rhs]
  | unary _ op operand => [.operator op, .expr operand]
  | int _ _ => []
  | char _ _ => []
  | name _ ident => [.ident ident]
  | error _ => []

def Param.children : Param → List Node
  | value _ expr => [.expr expr]
  | reference _ ident => [.ident ident]
  | blank _ => []
  | error _ => []

def Decl.children : Decl → List Node
  | const _ name value => [.ident name, .expr value]
  | var _ name type => [.ident name, .type type]
  | seq _ first second => [.decl first, .decl second]
  | error _ => []

def Command.children : Command → List Node
  | assign _ target value => [.ident target, .expr value]
  | call _ callee param => [.ident callee, .param param]
  | cond _ c thenBranch elseBranch => [.expr c, .command thenBranch, .command elseBranch]
  | whileDo _ c body rest => [.expr c, .command body, .command rest]
  | doWhile _ body c => [.command body, .expr c]
  | letIn _ decl body rest => [.decl decl, .command body, .command rest]
  | seq _ first second => [.command first, .command second]
  | blank _ => []
  | error _ => []

namespace Node

/-- The nodes immediately below a node, from the left to the right. -/
def children : Node → List Node
  | command c => c.children
  | decl d => d.children
  | type d => [.ident d.name]
  | param p => p.children
  | expr e => e.children
  | ident _ => []
  | operator _ => []

/-! ## Marks and spellings -/

def mark : Node → Mark
  | command c => c.mark
  | decl d => d.mark
  | type d => d.toMark
  | param p => p.mark
  | expr e => e.mark
  | ident i => i.toMark
  | operator o => o.toMark

def id (n : Node) : Nat := n.mark.id

def span (n : Node) : Span := n.mark.span

def marks : Node → List Mark
  | command c => c.marks
  | decl d => d.marks
  | type d => d.marks
  | param p => p.marks
  | expr e => e.marks
  | ident i => [i.toMark]
  | operator o => [o.toMark]

/-- The numbers of a node and of all nodes below it. -/
def ids (n : Node) : List Nat := n.marks.map Mark.id

/-- How a node that was read from a single token is spelled. -/
def spelling? : Node → Option String
  | ident i => some i.name
  | operator o => some o.spelling
  | expr (.int _ spelling) => some spelling
  | expr (.char _ value) => some (String.ofList ['\'', value, '\''])
  | _ => none

/-- How many levels a node adds to what stands below it. -/
def level : Node → Nat
  | command (.seq _ _ _) => 0
  | command (.error _) => 0
  | command _ => 1
  | expr (.binary _ _ _ _) => 0
  | expr (.error _) => 0
  | expr _ => 1
  | _ => 0

/-- A node comes behind all that stands below it. -/
theorem marks_eq (n : Node) : n.marks = n.children.flatMap marks ++ [n.mark] := by
  cases n with
  | command c => cases c <;> simp [marks, children, Command.children, mark, Command.mark]
  | decl d => cases d <;> simp [marks, children, Decl.children, mark, Decl.mark]
  | type d => rfl
  | param p => cases p <;> simp [marks, Param.marks, children, Param.children, mark, Param.mark]
  | expr e => cases e <;> simp [marks, children, Expr.children, mark, Expr.mark]
  | ident i => rfl
  | operator o => rfl

theorem ids_eq (n : Node) : n.ids = n.children.flatMap ids ++ [n.id] := by
  rw [ids, marks_eq, List.map_append, List.map_flatMap]
  rfl

/-! ## What holds throughout a tree -/

/-- The property holds of the node and of every node below it. -/
inductive Throughout (P : Node → Prop) : Node → Prop where
  | node {n : Node} (here : P n) (below : ∀ c ∈ n.children, Throughout P c) : Throughout P n

/-- No path from the node down to a leaf has more than so many levels. -/
inductive Within : Nat → Node → Prop where
  | node {levels inner : Nat} {n : Node} (here : inner + n.level ≤ levels)
    (below : ∀ c ∈ n.children, Within inner c) : Within levels n

/-- The nodes on a way from a node down to a leaf, both included. -/
inductive Path : Node → List Node → Prop where
  | leaf {n : Node} (h : n.children = []) : Path n [n]
  | child {n c : Node} {path : List Node} (hc : c ∈ n.children) (h : Path c path) : Path n (n :: path)

/-- How many levels nodes add together. -/
def levels : List Node → Nat
  | [] => 0
  | n :: rest => n.level + levels rest

theorem Within.levels_le {most : Nat} {n : Node} (h : n.Within most) {path : List Node}
    (hpath : n.Path path) : levels path ≤ most := by
  induction hpath generalizing most with
  | leaf =>
    cases h with
    | node here _ =>
      rw [levels, levels]
      omega
  | child hc _ ih =>
    cases h with
    | node here below =>
      have hrest := ih (below _ hc)
      rw [levels]
      omega

end Node

end TriLang
