import Mathlib.Data.List.Nodup
import TriLang.Proofs.Syntax.Marks
import TriLang.Typing.Checker

/-! # The rules of typing

The rules speak about a program whose names are resolved. `HasType r decls e type` says that the expression
`e` has the type, where `decls` are the declarations of the whole program:

  * a literal is of type Integer or Char: a number from `minInt` to `maxInt`, or a character whose code is at
    most `maxInt`;
  * a name that is used as a value is a constant or a variable, and has the type of its declaration: that of
    the value of a constant, or that which the denoter of a variable names;
  * an operator has as many operands as it asks for, of the types it asks for, or, if it takes any type, of
    equal types.

`Command.WellTyped` says that every rule is kept throughout a command. A constant must not occur in its own
value. -/
namespace TriLang
set_option autoImplicit false

/-! ## The declarations and expressions of a program -/

/-- The single declarations in a declaration. -/
def Decl.singles : Decl → List Decl
  | const m name value => [const m name value]
  | var m name type => [var m name type]
  | seq _ first second => first.singles ++ second.singles
  | error _ => []

/-- The single declarations in a command. -/
def Command.declarations : Command → List Decl
  | assign _ _ _ => []
  | call _ _ _ => []
  | cond _ _ thenBranch elseBranch => thenBranch.declarations ++ elseBranch.declarations
  | whileDo _ _ body rest => body.declarations ++ rest.declarations
  | doWhile _ body _ => body.declarations
  | letIn _ decl body rest => decl.singles ++ (body.declarations ++ rest.declarations)
  | seq _ first second => first.declarations ++ second.declarations
  | blank _ => []
  | error _ => []

/-- The expressions in an expression, itself included. -/
def Expr.expressions : Expr → List Expr
  | binary m op lhs rhs => lhs.expressions ++ (rhs.expressions ++ [binary m op lhs rhs])
  | unary m op operand => operand.expressions ++ [unary m op operand]
  | int m spelling => [int m spelling]
  | char m value => [char m value]
  | name m ident => [name m ident]
  | error m => [error m]

def Param.expressions : Param → List Expr
  | value _ expr => expr.expressions
  | reference _ _ => []
  | blank _ => []
  | error _ => []

def Decl.expressions : Decl → List Expr
  | const _ _ value => value.expressions
  | var _ _ _ => []
  | seq _ first second => first.expressions ++ second.expressions
  | error _ => []

def Command.expressions : Command → List Expr
  | assign _ _ value => value.expressions
  | call _ _ param => param.expressions
  | cond _ c thenBranch elseBranch =>
    c.expressions ++ (thenBranch.expressions ++ elseBranch.expressions)
  | whileDo _ c body rest => c.expressions ++ (body.expressions ++ rest.expressions)
  | doWhile _ body c => body.expressions ++ c.expressions
  | letIn _ decl body rest => decl.expressions ++ (body.expressions ++ rest.expressions)
  | seq _ first second => first.expressions ++ second.expressions
  | blank _ => []
  | error _ => []

/-! ## Rules -/

/-- The name is one of a declared variable whose denoter names the type. -/
inductive VariableType (r : Resolution) (decls : List Decl) (ident : Ident) (type : Ty) : Prop where
  | declared {symbol : Symbol} {m : Mark} {name : Ident} {denoter : TypeDenoter}
    (hsymbol : r.symbolOf? ident.id = some symbol) (hkind : symbol.kind = .var)
    (hdecl : symbol.decl? = some m.id) (hmem : Decl.var m name denoter ∈ decls)
    (htype : r.kindOf? denoter.name.id = some (.type type))

/-- The expression has the type. -/
inductive HasType (r : Resolution) (decls : List Decl) : Expr → Ty → Prop where
  | int {m : Mark} {spelling : String} {value : Int} (hvalue : literalValue? spelling = some value)
    (hmin : minInt ≤ value) (hmax : value ≤ maxInt) : HasType r decls (.int m spelling) .integer
  | char {m : Mark} {value : Char} (hmax : (value.toNat : Int) ≤ maxInt) :
    HasType r decls (.char m value) .char
  /-- A constant of the standard environment. -/
  | builtin {m : Mark} {ident : Ident} {type : Ty}
    (hkind : r.kindOf? ident.id = some (.const (some type))) :
    HasType r decls (.name m ident) type
  /-- A declared constant has the type of its value. -/
  | const {m dm : Mark} {ident name : Ident} {symbol : Symbol} {value : Expr} {type : Ty}
    (hsymbol : r.symbolOf? ident.id = some symbol) (hkind : symbol.kind = .const none)
    (hdecl : symbol.decl? = some dm.id) (hmem : Decl.const dm name value ∈ decls)
    (hvalue : HasType r decls value type) : HasType r decls (.name m ident) type
  | var {m : Mark} {ident : Ident} {type : Ty} (h : VariableType r decls ident type) :
    HasType r decls (.name m ident) type
  | unary {m : Mark} {op : Operator} {operand : Expr} {param type result : Ty}
    (hop : r.kindOf? op.id = some (.operator (.unary param result)))
    (hoperand : HasType r decls operand type) (hparam : param = .any ∨ param = type) :
    HasType r decls (.unary m op operand) result
  | binary {m : Mark} {op : Operator} {lhs rhs : Expr} {lhsType rhsType result : Ty}
    (hop : r.kindOf? op.id = some (.operator (.binary lhsType rhsType result)))
    (hany : lhsType ≠ .any) (hlhs : HasType r decls lhs lhsType)
    (hrhs : HasType r decls rhs rhsType) : HasType r decls (.binary m op lhs rhs) result
  /-- An operator that takes operands of any type, so long as they agree. -/
  | agreeing {m : Mark} {op : Operator} {lhs rhs : Expr} {param type result : Ty}
    (hop : r.kindOf? op.id = some (.operator (.binary .any param result)))
    (hlhs : HasType r decls lhs type) (hrhs : HasType r decls rhs type) :
    HasType r decls (.binary m op lhs rhs) result

/-- A name in the expression is resolved to what the node declares. -/
def Expr.Mentions (r : Resolution) (node : Nat) : Expr → Prop
  | binary _ _ lhs rhs => lhs.Mentions r node ∨ rhs.Mentions r node
  | unary _ _ operand => operand.Mentions r node
  | name _ ident => ∃ symbol, r.symbolOf? ident.id = some symbol ∧ symbol.decl? = some node
  | int _ _ => False
  | char _ _ => False
  | error _ => False

section
variable (r : Resolution) (decls : List Decl)

/-- The parameter is what a procedure with these formal parameters asks for. -/
def Param.WellTyped (params : List FormalParam) : Param → Prop
  | value _ expr => ∃ type, params = [⟨.value, type⟩] ∧ HasType r decls expr type
  | reference _ ident => ∃ type, params = [⟨.reference, type⟩] ∧ VariableType r decls ident type
  | blank _ => params = []
  | error _ => False

/-- The value of a constant has a type and does not mention the constant; the denoter of a variable names
a type. -/
def Decl.WellTyped : Decl → Prop
  | const m _ value => (∃ type, HasType r decls value type) ∧ ¬ value.Mentions r m.id
  | var _ _ denoter => ∃ type, r.kindOf? denoter.name.id = some (.type type)
  | seq _ first second => first.WellTyped ∧ second.WellTyped
  | error _ => False

/-- Every rule is kept throughout the command. -/
def Command.WellTyped : Command → Prop
  | assign _ target value => ∃ type, VariableType r decls target type ∧ HasType r decls value type
  | call _ callee param =>
    ∃ params, r.kindOf? callee.id = some (.procedure params) ∧ param.WellTyped r decls params
  | cond _ c thenBranch elseBranch =>
    HasType r decls c .boolean ∧ thenBranch.WellTyped ∧ elseBranch.WellTyped
  | whileDo _ c body rest => HasType r decls c .boolean ∧ body.WellTyped ∧ rest.WellTyped
  | doWhile _ body c => body.WellTyped ∧ HasType r decls c .boolean
  | letIn _ decl body rest => decl.WellTyped r decls ∧ body.WellTyped ∧ rest.WellTyped
  | seq _ first second => first.WellTyped ∧ second.WellTyped
  | blank _ => True
  | error _ => False

end

/-! ## An expression has one type -/

/-- No two declarations are at the same node. -/
def Apart (decls : List Decl) : Prop :=
  ∀ x ∈ decls, ∀ y ∈ decls, x.mark.id = y.mark.id → x = y

theorem Resolution.kindOf?_eq {r : Resolution} {node : Nat} {symbol : Symbol}
    (h : r.symbolOf? node = some symbol) : r.kindOf? node = some symbol.kind := by
  rw [kindOf?, h]
  rfl

variable {r : Resolution} {decls : List Decl}

theorem VariableType.unique (hdecls : Apart decls) {ident : Ident} {type type' : Ty}
    (h : VariableType r decls ident type) (h' : VariableType r decls ident type') : type = type' := by
  obtain ⟨hsymbol, -, hdecl, hmem, htype⟩ := h
  obtain ⟨hsymbol', -, hdecl', hmem', htype'⟩ := h'
  obtain rfl := Option.some.inj (hsymbol.symm.trans hsymbol')
  have hsame := hdecls _ hmem _ hmem' (Option.some.inj (hdecl.symm.trans hdecl'))
  obtain ⟨-, -, rfl⟩ := Decl.var.inj hsame
  simpa [htype] using htype'

theorem HasType.unique (hdecls : Apart decls) {e : Expr} {type type' : Ty}
    (h : HasType r decls e type) (h' : HasType r decls e type') : type = type' := by
  induction h generalizing type' with
  | int => cases h'; rfl
  | char => cases h'; rfl
  | builtin hkind =>
    cases h' with
    | builtin hkind' => simpa [hkind] using hkind'
    | const hsymbol hkind' => simp [Resolution.kindOf?_eq hsymbol, hkind'] at hkind
    | var h' =>
      obtain ⟨hsymbol, hkind', -⟩ := h'
      simp [Resolution.kindOf?_eq hsymbol, hkind'] at hkind
  | const hsymbol hkind hdecl hmem _ ih =>
    cases h' with
    | builtin hkind' => simp [Resolution.kindOf?_eq hsymbol, hkind] at hkind'
    | const hsymbol' _ hdecl' hmem' hvalue' =>
      obtain rfl := Option.some.inj (hsymbol.symm.trans hsymbol')
      have hsame := hdecls _ hmem _ hmem' (Option.some.inj (hdecl.symm.trans hdecl'))
      obtain ⟨-, -, rfl⟩ := Decl.const.inj hsame
      exact ih hvalue'
    | var h' =>
      obtain ⟨hsymbol', hkind', -⟩ := h'
      obtain rfl := Option.some.inj (hsymbol.symm.trans hsymbol')
      simp [hkind] at hkind'
  | var h =>
    cases h' with
    | builtin hkind' =>
      obtain ⟨hsymbol, hkind, -⟩ := h
      simp [Resolution.kindOf?_eq hsymbol, hkind] at hkind'
    | const hsymbol' hkind' =>
      obtain ⟨hsymbol, hkind, -⟩ := h
      obtain rfl := Option.some.inj (hsymbol.symm.trans hsymbol')
      simp [hkind] at hkind'
    | var h' => exact h.unique hdecls h'
  | unary hop _ _ _ =>
    cases h' with
    | unary hop' => simp_all
  | binary hop hany _ _ _ _ =>
    cases h' with
    | binary hop' => simp_all
    | agreeing hop' => simp_all
  | agreeing hop _ _ _ _ =>
    cases h' with
    | binary hop' hany' => simp_all
    | agreeing hop' => simp_all

/-! ## The declarations of a tree are apart -/

theorem Decl.sublist_ids (d : Decl) : (d.singles.map (·.mark.id)).Sublist d.ids := by
  induction d with
  | const m name value => simp [singles, mark]
  | var m name type => simp [singles, mark]
  | seq m first second ihf ihs =>
    rw [singles, List.map_append, ids_seq]
    exact ihf.append (ihs.trans (List.sublist_append_left _ _))
  | error m => simp [singles]

theorem Command.sublist_ids (c : Command) : (c.declarations.map (·.mark.id)).Sublist c.ids := by
  induction c with
  | cond m c thenBranch elseBranch iht ihe =>
    rw [declarations, List.map_append, ids_cond]
    have hbranches := iht.append (ihe.trans (List.sublist_append_left _ [m.id]))
    exact hbranches.trans (List.sublist_append_right _ _)
  | whileDo m c body rest ihb ihr =>
    rw [declarations, List.map_append, ids_whileDo]
    have hparts := ihb.append (ihr.trans (List.sublist_append_left _ [m.id]))
    exact hparts.trans (List.sublist_append_right _ _)
  | doWhile m body c ih =>
    rw [declarations, ids_doWhile]
    exact ih.trans (List.sublist_append_left _ _)
  | letIn m decl body rest ihb ihr =>
    rw [declarations, List.map_append, List.map_append, ids_letIn]
    exact decl.sublist_ids.append (ihb.append (ihr.trans (List.sublist_append_left _ [m.id])))
  | seq m first second ihf ihs =>
    rw [declarations, List.map_append, ids_seq]
    exact ihf.append (ihs.trans (List.sublist_append_left _ _))
  | _ => simp [declarations]

theorem Command.apart_declarations {c : Command} (h : c.ids.Nodup) : Apart c.declarations :=
  fun _ hx _ hy hid => List.inj_on_of_nodup_map (h.sublist c.sublist_ids) hx hy hid

end TriLang
