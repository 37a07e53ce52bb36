import TriLang.Proofs.Syntax.Marks
import TriLang.Scope.Resolution

/-! # Static scoping

An environment lists, let by let from the innermost one outwards, the declarations that are visible at a
place of a program. `Command.occurrences` lists the applied occurrences of names and operators in a
command, each with the environment at its place:

  * the names of a `let` are visible in its body and in the later declarations of its list, the name of a
    constant in its own value too, and no name in the command behind `endlet`;
  * a `while` declares nothing, so it adds nothing to the environment.

`Denotes` says which symbol a name stands for in an environment: that of the first declaration of the name
in the innermost `let` that has one, or else that of the standard environment, or else the unknown one. -/
namespace TriLang
set_option autoImplicit false

/-! ## Environments -/

/-- What a single declaration introduces: a name, at a node of the tree, and what kind of thing it is. -/
structure Declared where
  node : Nat
  name : Ident
  kind : Symbol.Kind

/-- What a declaration introduces, in the order of the source. -/
def Decl.declared : Decl → List Declared
  | const m name _ => [⟨m.id, name, .const none⟩]
  | var m name _ => [⟨m.id, name, .var⟩]
  | seq _ first second => first.declared ++ second.declared
  | error _ => []

/-- The visible declarations of the enclosing lets, innermost first. -/
abbrev Env := List (List Declared)

/-- The first declaration of a name in a list. -/
def declaration? (frame : List Declared) (name : String) : Option Declared :=
  frame.find? (·.name.name = name)

/-- The declaration that a name refers to. -/
def Env.find? (env : Env) (name : String) : Option Declared := env.findSome? (declaration? · name)

def Env.Visible (env : Env) (d : Declared) : Prop := ∃ frame ∈ env, d ∈ frame

theorem declaration?_mem {frame : List Declared} {name : String} {d : Declared}
    (h : declaration? frame name = some d) : d ∈ frame ∧ d.name.name = name :=
  ⟨List.mem_of_find?_eq_some h, by simpa using List.find?_some h⟩

theorem Env.find?_visible {env : Env} {name : String} {d : Declared} (h : env.find? name = some d) :
    env.Visible d ∧ d.name.name = name := by
  obtain ⟨frame, hframe, hd⟩ := List.exists_of_findSome?_eq_some h
  exact ⟨⟨frame, hframe, (declaration?_mem hd).1⟩, (declaration?_mem hd).2⟩

theorem Env.visible_cons {frame : List Declared} {env : Env} {d : Declared} :
    Env.Visible (frame :: env) d ↔ d ∈ frame ∨ env.Visible d := by
  simp [Visible]

/-- What is visible in a list of declarations after some more of them. -/
theorem Env.visible_append {before more : List Declared} {outer : Env} {x : Declared} :
    Env.Visible ((before ++ more) :: outer) x ↔ x ∈ more ∨ Env.Visible (before :: outer) x := by
  rw [Env.visible_cons, Env.visible_cons, List.mem_append, or_comm (a := x ∈ before), or_assoc]

theorem Decl.node_mem_of_declared {d : Decl} {x : Declared} (h : x ∈ d.declared) :
    x.node ∈ d.ids := by
  induction d with
  | const m name value => simp_all [declared]
  | var m name type => simp_all [declared]
  | seq m first second ihf ihs =>
    rcases List.mem_append.1 h with h | h
    · simp [ihf h]
    · simp [ihs h]
  | error m => simp [declared] at h

theorem Decl.kind_of_declared {d : Decl} {x : Declared} (h : x ∈ d.declared) :
    x.kind = .const none ∨ x.kind = .var := by
  induction d with
  | const m name value =>
    obtain rfl := List.mem_singleton.1 h
    exact .inl rfl
  | var m name type =>
    obtain rfl := List.mem_singleton.1 h
    exact .inr rfl
  | seq m first second ihf ihs => exact (List.mem_append.1 h).elim ihf ihs
  | error m => simp [declared] at h

/-! ## Applied occurrences -/

/-- An applied occurrence of a name or an operator, and what is visible at its place. -/
structure Occurrence where
  mark : Mark
  name : String
  env : Env

/-- The occurrences in an expression, from left to right. -/
def Expr.occurrences (env : Env) : Expr → List Occurrence
  | binary _ op lhs rhs =>
    lhs.occurrences env ++ ⟨op.toMark, op.spelling, env⟩ :: rhs.occurrences env
  | unary _ op operand => ⟨op.toMark, op.spelling, env⟩ :: operand.occurrences env
  | name _ ident => [⟨ident.toMark, ident.name, env⟩]
  | int _ _ => []
  | char _ _ => []
  | error _ => []

def Param.occurrences (env : Env) : Param → List Occurrence
  | value _ expr => expr.occurrences env
  | reference _ ident => [⟨ident.toMark, ident.name, env⟩]
  | blank _ => []
  | error _ => []

/-- The occurrences in a declaration, given what is visible around its `let` and what the declarations in
front of it in its list introduce. -/
def Decl.occurrences (outer : Env) (before : List Declared) : Decl → List Occurrence
  | const m name value => value.occurrences ((before ++ [⟨m.id, name, .const none⟩]) :: outer)
  | var _ _ type => [⟨type.name.toMark, type.name.name, before :: outer⟩]
  | seq _ first second =>
    first.occurrences outer before ++ second.occurrences outer (before ++ first.declared)
  | error _ => []

def Command.occurrences (env : Env) : Command → List Occurrence
  | assign _ target value => ⟨target.toMark, target.name, env⟩ :: value.occurrences env
  | call _ callee param => ⟨callee.toMark, callee.name, env⟩ :: param.occurrences env
  | cond _ c thenBranch elseBranch =>
    c.occurrences env ++ (thenBranch.occurrences env ++ elseBranch.occurrences env)
  | whileDo _ c body rest => c.occurrences env ++ (body.occurrences env ++ rest.occurrences env)
  | doWhile _ body c => body.occurrences env ++ c.occurrences env
  | letIn _ decl body rest =>
    decl.occurrences env [] ++ (body.occurrences (decl.declared :: env) ++ rest.occurrences env)
  | seq _ first second => first.occurrences env ++ second.occurrences env
  | blank _ => []
  | error _ => []

/-! ## What a name denotes -/

/-- The symbol that a name has in an environment by a declaration or by the standard environment. -/
inductive Known (tables : Resolution) (env : Env) (name : String) : Nat → Prop where
  /-- The symbol of the declaration that the name refers to. -/
  | declared {d : Declared} {symbol : Nat} (hd : env.find? name = some d)
    (hsymbol : tables.declarations[d.node]? = some symbol)
    (hentry : tables.symbols.get? symbol =
      some ⟨symbol, name, d.kind, some d.name.span, some d.node⟩) : Known tables env name symbol
  /-- The symbol of the standard environment, if no declaration is visible. -/
  | standard {entity : StandardEntity} {symbol : Nat} (hd : env.find? name = none)
    (he : standardEnvironment.lookup name = some entity)
    (hentry : tables.symbols.get? symbol = some ⟨symbol, name, entity.kind, none, none⟩) :
    Known tables env name symbol

/-- The symbol that a name stands for in an environment. -/
inductive Denotes (tables : Resolution) (env : Env) (name : String) : Nat → Prop where
  | known {symbol : Nat} (h : Known tables env name symbol) : Denotes tables env name symbol
  | unknown (hd : env.find? name = none) (he : standardEnvironment.lookup name = none) :
    Denotes tables env name SymbolTable.unknown

end TriLang
