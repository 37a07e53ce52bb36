import TriLang.Syntax.Tree
import TriLang.Scope.Symbol
import TriLang.Scope.Stack
import Std.Data.TreeMap

/-!
# Resolution of names

Resolution binds every applied occurrence of a name or an operator to the symbol it stands for. The
outermost scope holds the standard environment. A `let` opens a scope for its declarations and its body
and closes it before the command behind `endlet`; a `while` opens one for its condition, its body and the
command behind `wend`. A constant is declared before its value is resolved, a variable only after its
type.

An occurrence that no scope knows is reported and bound to the unknown symbol. A declaration whose name
its own scope holds already gets a symbol, but no binding, and is reported.

Main definitions: `Resolution`, `Command.resolve`, `resolve`.
-/
namespace TriLang
set_option autoImplicit false

/-! ## Errors -/

/-- What is wrong with a name. -/
inductive ResolveError.Cause where
  | undefined (name : String)
  /-- The name is declared twice in one scope; `previous` is where it was declared first. -/
  | duplicate (name : String) (previous : Span)
deriving DecidableEq

/-- An occurrence of a name, and what is wrong with it. -/
structure ResolveError where
  cause : ResolveError.Cause
  span : Span
deriving DecidableEq

def ResolveError.Cause.message : ResolveError.Cause → String
  | undefined name => "undefined symbol: " ++ name
  | duplicate name previous =>
    "duplicate declaration: " ++ name ++ " (previously declared at Span \x7b start: " ++
      toString previous.start ++ ", end: " ++ toString previous.stop ++ " \x7d)"

/-! ## Tables -/

/-- What resolution finds out about a program. -/
structure Resolution where
  symbols : SymbolTable
  /-- The symbol of each applied name and operator, by node. -/
  resolutions : Std.TreeMap Nat Nat
  /-- The symbol of each declaration, by node. -/
  declarations : Std.TreeMap Nat Nat
  /-- The errors in the order in which they were found. -/
  errors : List ResolveError

/-- The symbol that an applied occurrence is bound to. -/
def Resolution.symbolOf? (r : Resolution) (node : Nat) : Option Symbol :=
  r.resolutions[node]?.bind r.symbols.get?

def Resolution.kindOf? (r : Resolution) (node : Nat) : Option Symbol.Kind :=
  (r.symbolOf? node).map Symbol.kind

/-- The open scopes and the tables filled so far. -/
structure Resolving where
  scopes : ScopeStack
  tables : Resolution

namespace Resolving

def openScope (s : Resolving) : Resolving := { s with scopes := s.scopes.openScope }

def closeScope (s : Resolving) : Resolving :=
  { s with scopes := s.scopes.closeScope.2 }

def report (s : Resolving) (cause : ResolveError.Cause) (span : Span) : Resolving :=
  { s with tables := { s.tables with errors := s.tables.errors ++ [⟨cause, span⟩] } }

/-- Binds the occurrence of a name at a node to a symbol. -/
def bind (s : Resolving) (node symbol : Nat) : Resolving :=
  { s with
    tables := { s.tables with resolutions := s.tables.resolutions.insert node symbol } }

/-- Resolves the occurrence of a name at a node. -/
def apply (s : Resolving) (node : Mark) (name : String) : Resolving :=
  match s.scopes.retrieve? name with
  | some symbol => s.bind node.id symbol
  | none => (s.report (.undefined name) node.span).bind node.id SymbolTable.unknown

def applyIdent (s : Resolving) (i : Ident) : Resolving := s.apply i.toMark i.name

def applyOperator (s : Resolving) (o : Operator) : Resolving := s.apply o.toMark o.spelling

def declaredAt (s : Resolving) (symbol : Nat) : Span :=
  ((s.tables.symbols.get? symbol).bind Symbol.span?).getD default

/-- Gives a declaration its symbol, without binding the name. -/
def introduce (s : Resolving) (decl : Nat) (name : Ident) (kind : Symbol.Kind) : Resolving :=
  { s with
    tables :=
      { s.tables with
        symbols := s.tables.symbols.insert name.name kind (some name.span) (some decl)
        declarations := s.tables.declarations.insert decl s.tables.symbols.size } }

def declare (s : Resolving) (decl : Nat) (name : Ident) (kind : Symbol.Kind) : Resolving :=
  let introduced := s.introduce decl name kind
  match s.scopes.retrieveLocal? name.name with
  | some previous =>
    introduced.report (.duplicate name.name (s.declaredAt previous)) name.span
  | none =>
    { introduced with
      scopes := (s.scopes.enter name.name s.tables.symbols.size).2 }

/-- Adds a name of the standard environment to the innermost scope. -/
def addBuiltin (s : Resolving) (name : String) (kind : Symbol.Kind) : Resolving :=
  { scopes := (s.scopes.enter name s.tables.symbols.size).2
    tables := { s.tables with symbols := s.tables.symbols.insert name kind none none } }

/-- The state before a program is looked at: one open scope, with the standard environment. -/
def initial : Resolving :=
  standardEnvironment.foldl (fun s (name, entity) => s.addBuiltin name entity.kind)
    ⟨ScopeStack.empty.openScope, ⟨.initial, ∅, ∅, []⟩⟩

end Resolving

/-! ## Walking the tree -/

/-- Resolves the names of an expression from left to right. -/
def Expr.resolve : Expr → Resolving → Resolving
  | binary _ op lhs rhs, s => rhs.resolve ((lhs.resolve s).applyOperator op)
  | unary _ op operand, s => operand.resolve (s.applyOperator op)
  | name _ ident, s => s.applyIdent ident
  | int _ _, s => s
  | char _ _, s => s
  | error _, s => s

def Param.resolve : Param → Resolving → Resolving
  | value _ expr, s => expr.resolve s
  | reference _ ident, s => s.applyIdent ident
  | blank _, s => s
  | error _, s => s

/-- Resolves the names of a declaration and declares those it introduces. -/
def Decl.resolve : Decl → Resolving → Resolving
  | const m name value, s => value.resolve (s.declare m.id name (.const none))
  | var m name type, s => (s.applyIdent type.name).declare m.id name .var
  | seq _ first second, s => second.resolve (first.resolve s)
  | error _, s => s

def Command.resolve : Command → Resolving → Resolving
  | assign _ target value, s => value.resolve (s.applyIdent target)
  | call _ callee param, s => param.resolve (s.applyIdent callee)
  | cond _ c thenBranch elseBranch, s => elseBranch.resolve (thenBranch.resolve (c.resolve s))
  | whileDo _ c body rest, s =>
    (rest.resolve (body.resolve (c.resolve s.openScope))).closeScope
  | doWhile _ body c, s => c.resolve (body.resolve s)
  | letIn _ decl body rest, s =>
    rest.resolve (body.resolve (decl.resolve s.openScope)).closeScope
  | seq _ first second, s => second.resolve (first.resolve s)
  | blank _, s => s
  | error _, s => s

def resolve (p : Program) : Resolution := (p.command.resolve Resolving.initial).tables

end TriLang
