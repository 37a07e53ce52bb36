import TriLang.Syntax.Tree

/-!
# Trees as outlines

An outline lists the nodes of a tree in the order in which they are met from the root down, parents
before children, each with its depth. It shows all that a tree holds and hides how its types are cut.

Main definitions: `Outline.Row`, `Command.outline`, `Program.outline`.
-/
namespace TriLang
set_option autoImplicit false

inductive Outline.Form where
  | program
  | assign | call | cond | whileDo | doWhile | letIn | sequential | blank | errorCommand
  | const | var | typeDenoter | sequentialDecl | errorDecl
  | paramExpr | paramVar | paramBlank | paramError
  | binary | unary | int | char | identExpr | errorExpr
  | ident | operator
deriving DecidableEq

structure Outline.Row where
  depth : Nat
  form : Outline.Form
  /-- The number of the node; the program as a whole has none. -/
  id? : Option Nat
  span : Span
  /-- The name, spelling, digits or character that the node holds itself. -/
  text? : Option String
deriving DecidableEq

namespace Outline

def plain (depth : Nat) (form : Form) (mark : Mark) : Row := ⟨depth, form, some mark.id, mark.span, none⟩

def leaf (depth : Nat) (form : Form) (mark : Mark) (text : String) : Row :=
  ⟨depth, form, some mark.id, mark.span, some text⟩

end Outline

open Outline

def Ident.row (depth : Nat) (i : Ident) : Row := leaf depth .ident i.toMark i.name

def Operator.row (depth : Nat) (o : Operator) : Row := leaf depth .operator o.toMark o.spelling

def Expr.outline (depth : Nat) : Expr → List Row
  | binary m op lhs rhs =>
    plain depth .binary m :: op.row (depth + 1) ::
      (lhs.outline (depth + 1) ++ rhs.outline (depth + 1))
  | unary m op operand =>
    plain depth .unary m :: op.row (depth + 1) :: operand.outline (depth + 1)
  | int m spelling => [leaf depth .int m spelling]
  | char m value => [leaf depth .char m value.toString]
  | name m ident => [plain depth .identExpr m, ident.row (depth + 1)]
  | error m => [plain depth .errorExpr m]

def Param.outline (depth : Nat) : Param → List Row
  | value m expr => plain depth .paramExpr m :: expr.outline (depth + 1)
  | reference m ident => [plain depth .paramVar m, ident.row (depth + 1)]
  | blank m => [plain depth .paramBlank m]
  | error m => [plain depth .paramError m]

def Decl.outline (depth : Nat) : Decl → List Row
  | const m name value =>
    plain depth .const m :: name.row (depth + 1) :: value.outline (depth + 1)
  | var m name type =>
    [plain depth .var m, name.row (depth + 1), plain (depth + 1) .typeDenoter type.toMark,
      type.name.row (depth + 2)]
  | seq m first second =>
    plain depth .sequentialDecl m :: (first.outline (depth + 1) ++ second.outline (depth + 1))
  | error m => [plain depth .errorDecl m]

def Command.outline (depth : Nat) : Command → List Row
  | assign m target value =>
    plain depth .assign m :: target.row (depth + 1) :: value.outline (depth + 1)
  | call m callee param =>
    plain depth .call m :: callee.row (depth + 1) :: param.outline (depth + 1)
  | cond m c thenBranch elseBranch =>
    plain depth .cond m :: (c.outline (depth + 1) ++ thenBranch.outline (depth + 1) ++
      elseBranch.outline (depth + 1))
  | whileDo m c body rest =>
    plain depth .whileDo m ::
      (c.outline (depth + 1) ++ body.outline (depth + 1) ++ rest.outline (depth + 1))
  | doWhile m body c => plain depth .doWhile m :: (body.outline (depth + 1) ++ c.outline (depth + 1))
  | letIn m decl body rest =>
    plain depth .letIn m ::
      (decl.outline (depth + 1) ++ body.outline (depth + 1) ++ rest.outline (depth + 1))
  | seq m first second =>
    plain depth .sequential m :: (first.outline (depth + 1) ++ second.outline (depth + 1))
  | blank m => [plain depth .blank m]
  | error m => [plain depth .errorCommand m]

/-- The outline of a program, whose command lies one level down. -/
def Program.outline (p : Program) : List Row :=
  ⟨0, .program, none, p.span, none⟩ :: p.command.outline 1

end TriLang
