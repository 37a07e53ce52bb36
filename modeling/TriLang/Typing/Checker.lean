import TriLang.Typing.Error
import TriLang.Scope.Resolution

/-!
# Type checking

The checker gives every expression a type, and every constant and variable that the program declares. It
looks names up in the tables of a resolution, and takes a name that is missing there, or bound to the
unknown symbol, to be reported already: it has type `error`, and whatever depends on an `error` type is
not reported again. The type of a symbol is written once.

Main definitions: `Typing`, `Expr.check`, `Command.check`, `typecheck`.
-/
namespace TriLang
set_option autoImplicit false

/-- What type checking finds out about a program. -/
structure Typing where
  /-- The type of each expression, by node. -/
  nodeTypes : Std.TreeMap Nat Ty
  /-- The type of each constant and variable, by symbol. -/
  symbolTypes : Std.TreeMap Nat Ty
  /-- The errors in the order in which they were found. -/
  errors : List TypeError

/-- A type and the state after finding it. -/
structure Judged where
  type : Ty
  after : Typing

namespace Typing

/-! ## Recording -/

def report (t : Typing) (cause : TypeError.Cause) (span : Span) : Typing :=
  { t with errors := t.errors ++ [⟨cause, span⟩] }

/-- Records an error, and answers with the type of what is wrong. -/
def reject (t : Typing) (cause : TypeError.Cause) (span : Span) : Judged :=
  ⟨.error, t.report cause span⟩

def recordNode (t : Typing) (node : Nat) (type : Ty) : Typing :=
  { t with nodeTypes := t.nodeTypes.insert node type }

/-- Records the type of a symbol, unless it has one. -/
def recordSymbol (t : Typing) (symbol : Nat) (type : Ty) : Typing :=
  { t with symbolTypes := t.symbolTypes.insertIfNew symbol type }

/-- Records the type of the symbol that a declaration introduces. -/
def recordDeclared (t : Typing) (r : Resolution) (decl : Nat) (type : Ty) : Typing :=
  match r.declarations[decl]? with
  | some symbol => t.recordSymbol symbol type
  | none => t

/-- Asks for a type. A type that is wrong already is not reported again. -/
def expect (t : Typing) (expected found : Ty) (span : Span) : Typing :=
  if expected = .error ∨ found = .error ∨ expected = found then t
  else t.report (.mismatch expected found) span

end Typing

/-! ## Literals -/

/-- The number that a row of digits stands for. -/
def digitsValue? (digits : List Char) : Option Nat :=
  if !digits.isEmpty && digits.all Char.isDigit then
    some (digits.foldl (fun n c => 10 * n + (c.toNat - '0'.toNat)) 0)
  else none

/-- The greatest number of 64 bits with a sign. -/
def maxLong : Int := 9223372036854775807

def minLong : Int := -9223372036854775808

/-- The number that a literal stands for: digits, which a sign may precede. A number that does not fit into
64 bits is none. -/
def literalValue? (spelling : String) : Option Int :=
  let value? : Option Int := match spelling.toList with
    | '+' :: digits => (digitsValue? digits).map fun n => n
    | '-' :: digits => (digitsValue? digits).map fun n => -n
    | digits => (digitsValue? digits).map fun n => n
  value?.filter fun value => minLong ≤ value ∧ value ≤ maxLong

def checkInt (spelling : String) (span : Span) (t : Typing) : Judged :=
  match literalValue? spelling with
  | some value =>
    if minInt ≤ value ∧ value ≤ maxInt then ⟨.integer, t⟩
    else t.reject (.literalOutOfRange spelling) span
  | none => t.reject (.literalOutOfRange spelling) span

def checkChar (value : Char) (span : Span) (t : Typing) : Judged :=
  if (value.toNat : Int) ≤ maxInt then ⟨.char, t⟩
  else t.reject (.literalOutOfRange (String.ofList ['\'', value, '\''])) span

/-! ## Names and operators -/

/-- Checks a name that is used as a value. A constant or variable without a type can only be a constant
that occurs in its own value. -/
def checkValue (r : Resolution) (ident : Ident) (t : Typing) : Judged :=
  match r.resolutions[ident.id]? with
  | none => ⟨.error, t⟩
  | some symbol =>
    match r.kindOf? ident.id with
    | some (.const _) | some .var =>
      match t.symbolTypes[symbol]? with
      | some type => ⟨type, t⟩
      | none => t.reject (.recursiveConstant ident.name) ident.span
    | none | some .unknown => ⟨.error, t⟩
    | some kind => t.reject (.notAValue ident.name kind) ident.span

/-- The type of a name that has to denote a variable, if it does. -/
def checkVariable (r : Resolution) (ident : Ident) (t : Typing) : Option Ty × Typing :=
  match r.resolutions[ident.id]? with
  | none => (none, t)
  | some symbol =>
    match r.kindOf? ident.id with
    | some .var => (some ((t.symbolTypes[symbol]?).getD .error), t)
    | none | some .unknown => (none, t)
    | some _ => (none, t.report (.notAVariable ident.name) ident.span)

/-- Checks the use of an operator between two operands. -/
def checkBinary (r : Resolution) (op : Operator) (lhs rhs : Ty) (lhsSpan rhsSpan : Span)
    (t : Typing) : Judged :=
  match r.kindOf? op.id with
  | some (.operator (.binary .any _ result)) =>
    if lhs = .error ∨ rhs = .error ∨ lhs = rhs then ⟨result, t⟩
    else ⟨result, t.report (.operandMismatch op.spelling lhs rhs) (lhsSpan.join rhsSpan)⟩
  | some (.operator (.binary lhsParam rhsParam result)) =>
    ⟨result, (t.expect lhsParam lhs lhsSpan).expect rhsParam rhs rhsSpan⟩
  | none | some .unknown => ⟨.error, t⟩
  | some _ => t.reject (.notAnOperator op.spelling 2) op.span

/-- Checks the use of an operator before one operand. -/
def checkUnary (r : Resolution) (op : Operator) (operand : Ty) (operandSpan : Span)
    (t : Typing) : Judged :=
  match r.kindOf? op.id with
  | some (.operator (.unary param result)) =>
    ⟨result, if param = .any then t else t.expect param operand operandSpan⟩
  | none | some .unknown => ⟨.error, t⟩
  | some _ => t.reject (.notAnOperator op.spelling 1) op.span

/-! ## Expressions -/

/-- Records the type of an expression that has been judged. -/
def Judged.record (j : Judged) (node : Nat) : Judged := ⟨j.type, j.after.recordNode node j.type⟩

/-- Checks an expression: finds its type and records it, operands first. -/
def Expr.check (r : Resolution) : Expr → Typing → Judged
  | binary m op lhs rhs, t =>
    let left := lhs.check r t
    let right := rhs.check r left.after
    (checkBinary r op left.type right.type lhs.span rhs.span right.after).record m.id
  | unary m op operand, t =>
    let inner := operand.check r t
    (checkUnary r op inner.type operand.span inner.after).record m.id
  | int m spelling, t => (checkInt spelling m.span t).record m.id
  | char m value, t => (checkChar value m.span t).record m.id
  | name m ident, t => (checkValue r ident t).record m.id
  | error m, t => (Judged.mk .error t).record m.id

/-- Checks a condition. -/
def Expr.checkCondition (r : Resolution) (e : Expr) (t : Typing) : Typing :=
  let judged := e.check r t
  judged.after.expect .boolean judged.type e.span

/-! ## Declarations -/

def TypeDenoter.check (r : Resolution) (d : TypeDenoter) (t : Typing) : Judged :=
  match r.kindOf? d.name.id with
  | some (.type type) => ⟨type, t⟩
  | none | some .unknown => ⟨.error, t⟩
  | some _ => t.reject (.notAType d.name.name) d.span

/-- Checks a declaration and gives the symbol it introduces its type. -/
def Decl.check (r : Resolution) : Decl → Typing → Typing
  | const m _ value, t =>
    let judged := value.check r t
    judged.after.recordDeclared r m.id judged.type
  | var m _ type, t =>
    let judged := type.check r t
    judged.after.recordDeclared r m.id judged.type
  | seq _ first second, t => second.check r (first.check r t)
  | error _, t => t

/-! ## Calls -/

/-- Checks a parameter that there is nothing to compare with. -/
def Param.checkAlone (r : Resolution) : Param → Typing → Typing
  | value _ expr, t => (expr.check r t).after
  | _, t => t

/-- How many parameters are supplied; a parameter that could not be read counts as neither. -/
def Param.supplied? : Param → Option Nat
  | value _ _ => some 1
  | reference _ _ => some 1
  | blank _ => some 0
  | error _ => none

/-- Checks a parameter against what the procedure asks for. -/
def Param.check (r : Resolution) (callee : Ident) (formal : FormalParam) (p : Param)
    (t : Typing) : Typing :=
  match formal.mode, p with
  | .value, value _ expr =>
    let judged := expr.check r t
    judged.after.expect formal.type judged.type expr.span
  | .reference, reference _ ident =>
    match checkVariable r ident t with
    | (some type, after) => after.expect formal.type type ident.span
    | (none, after) => after
  | mode, _ => p.checkAlone r (t.report (.parameterMode callee.name mode) p.span)

/-- Checks a call of a procedure with the given formal parameters. -/
def checkArguments (r : Resolution) (callee : Ident) (params : List FormalParam) (p : Param)
    (t : Typing) : Typing :=
  match p.supplied? with
  | none => t
  | some supplied =>
    match params, supplied with
    | [formal], 1 => p.check r callee formal t
    | _, _ =>
      if supplied = params.length then t
      else
        p.checkAlone r (t.report (.arityMismatch callee.name params.length supplied) p.span)

def checkCall (r : Resolution) (callee : Ident) (p : Param) (t : Typing) : Typing :=
  match r.kindOf? callee.id with
  | some (.procedure params) => checkArguments r callee params p t
  | none | some .unknown => p.checkAlone r t
  | some _ => p.checkAlone r (t.report (.notAProcedure callee.name) callee.span)

/-! ## Commands -/

def checkAssign (r : Resolution) (target : Ident) (value : Expr) (t : Typing) : Typing :=
  let variableType := checkVariable r target t
  let judged := value.check r variableType.2
  match variableType.1 with
  | some type => judged.after.expect type judged.type value.span
  | none => judged.after

def Command.check (r : Resolution) : Command → Typing → Typing
  | assign _ target value, t => checkAssign r target value t
  | call _ callee param, t => checkCall r callee param t
  | cond _ c thenBranch elseBranch, t =>
    elseBranch.check r (thenBranch.check r (c.checkCondition r t))
  | whileDo _ c body rest, t => rest.check r (body.check r (c.checkCondition r t))
  | doWhile _ body c, t => c.checkCondition r (body.check r t)
  | letIn _ decl body rest, t => rest.check r (body.check r (decl.check r t))
  | seq _ first second, t => second.check r (first.check r t)
  | blank _, t => t
  | error _, t => t

/-- The types of the constants of the standard environment. -/
def builtinTypes (symbols : SymbolTable) : Std.TreeMap Nat Ty :=
  symbols.toList.foldl
    (fun types symbol =>
      match symbol.kind with
      | .const (some type) => types.insert symbol.id type
      | _ => types) ∅

/-- Checks a program against a resolution of its names. -/
def typecheck (r : Resolution) (p : Program) : Typing :=
  p.command.check r ⟨∅, builtinTypes r.symbols, []⟩

end TriLang
