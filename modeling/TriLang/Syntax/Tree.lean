import TriLang.Source.Span

/-!
# Syntax trees

A program is one command. Every node carries a `Mark`: a number that identifies it within its tree, by
which later analyses refer to it, and the span of source it was read from. Where the source could not be
read, an `error` node stands.

Main definitions: `Expr`, `Param`, `Decl`, `Command`, `Program`.
-/
namespace TriLang
set_option autoImplicit false

/-- What every node carries: its number and its place in the source. -/
structure Mark where
  id : Nat
  span : Span
deriving DecidableEq, Inhabited

/-! ## Leaves -/

/-- An occurrence of a name, declaring or applied. -/
structure Ident extends Mark where
  name : String
deriving DecidableEq

/-- An occurrence of an operator. -/
structure Operator extends Mark where
  spelling : String
deriving DecidableEq

/-- A denoter of a type, which is always a name. -/
structure TypeDenoter extends Mark where
  name : Ident
deriving DecidableEq

/-! ## Expressions and parameters -/

inductive Expr where
  | binary (mark : Mark) (op : Operator) (lhs rhs : Expr)
  | unary (mark : Mark) (op : Operator) (operand : Expr)
  /-- An integer literal as it is spelled. -/
  | int (mark : Mark) (spelling : String)
  /-- A character literal, without its quotes. -/
  | char (mark : Mark) (value : Char)
  | name (mark : Mark) (ident : Ident)
  | error (mark : Mark)
deriving DecidableEq

/-- What stands between the brackets of a procedure call. -/
inductive Param where
  /-- An expression, passed by value. -/
  | value (mark : Mark) (expr : Expr)
  /-- `var x`, passed by reference. -/
  | reference (mark : Mark) (ident : Ident)
  | blank (mark : Mark)
  | error (mark : Mark)
deriving DecidableEq

/-! ## Declarations and commands -/

/-- A declaration, or several joined by `;`. -/
inductive Decl where
  /-- `const name ~ value` -/
  | const (mark : Mark) (name : Ident) (value : Expr)
  /-- `var name Type` -/
  | var (mark : Mark) (name : Ident) (type : TypeDenoter)
  /-- `first ; second` -/
  | seq (mark : Mark) (first second : Decl)
  | error (mark : Mark)
deriving DecidableEq

/-- A command, or several joined by `;`. -/
inductive Command where
  /-- `target = value` -/
  | assign (mark : Mark) (target : Ident) (value : Expr)
  /-- `callee(param)` -/
  | call (mark : Mark) (callee : Ident) (param : Param)
  /-- `if cond then thenBranch else elseBranch` -/
  | cond (mark : Mark) (cond : Expr) (thenBranch elseBranch : Command)
  /-- `while cond do body wend rest` -/
  | whileDo (mark : Mark) (cond : Expr) (body rest : Command)
  /-- `do body wendwhile cond` -/
  | doWhile (mark : Mark) (body : Command) (cond : Expr)
  /-- `let decl in body endlet rest` -/
  | letIn (mark : Mark) (decl : Decl) (body rest : Command)
  /-- `first ; second` -/
  | seq (mark : Mark) (first second : Command)
  /-- `pass`, or nothing at all. -/
  | blank (mark : Mark)
  | error (mark : Mark)
deriving DecidableEq

/-- A whole program, with the span of the source it takes up. -/
structure Program where
  command : Command
  span : Span
deriving DecidableEq

/-! ## Marks -/

def Expr.mark : Expr → Mark
  | binary m _ _ _ | unary m _ _ | int m _ | char m _ | name m _ | error m => m

def Expr.span (e : Expr) : Span := e.mark.span

def Param.mark : Param → Mark
  | value m _ | reference m _ | blank m | error m => m

def Param.span (p : Param) : Span := p.mark.span

def Decl.mark : Decl → Mark
  | const m _ _ | var m _ _ | seq m _ _ | error m => m

def Command.mark : Command → Mark
  | assign m _ _ | call m _ _ | cond m _ _ _ | whileDo m _ _ _ | doWhile m _ _ | letIn m _ _ _
  | seq m _ _ | blank m | error m => m

end TriLang
