import TriLang.Syntax.Tree

/-! # Trees up to their marks

What a tree says does not depend on its marks. `mapMarks` changes all marks of a tree; `unspanned` is the
tree with its numbers but without spans, and `bare` is its shape alone. `marks` lists the marks in the
order in which nodes are finished: a leaf when it is met, any other node after its children. A tree is
`ErrorFree` if no node of it stands in for something that could not be read. -/
namespace TriLang
set_option autoImplicit false

def Mark.unspanned (m : Mark) : Mark := ⟨m.id, default⟩

def Mark.bare (_ : Mark) : Mark := default

/-! ## Changing all marks -/

def Ident.mapMarks (f : Mark → Mark) (i : Ident) : Ident := ⟨f i.toMark, i.name⟩

def Operator.mapMarks (f : Mark → Mark) (o : Operator) : Operator := ⟨f o.toMark, o.spelling⟩

def TypeDenoter.mapMarks (f : Mark → Mark) (d : TypeDenoter) : TypeDenoter :=
  ⟨f d.toMark, d.name.mapMarks f⟩

/-- The expression with every mark changed. -/
@[simp] def Expr.mapMarks (f : Mark → Mark) : Expr → Expr
  | binary m op lhs rhs => binary (f m) (op.mapMarks f) (lhs.mapMarks f) (rhs.mapMarks f)
  | unary m op operand => unary (f m) (op.mapMarks f) (operand.mapMarks f)
  | int m spelling => int (f m) spelling
  | char m value => char (f m) value
  | name m ident => name (f m) (ident.mapMarks f)
  | error m => error (f m)

def Param.mapMarks (f : Mark → Mark) : Param → Param
  | value m expr => value (f m) (expr.mapMarks f)
  | reference m ident => reference (f m) (ident.mapMarks f)
  | blank m => blank (f m)
  | error m => error (f m)

@[simp] def Decl.mapMarks (f : Mark → Mark) : Decl → Decl
  | const m name value => const (f m) (name.mapMarks f) (value.mapMarks f)
  | var m name type => var (f m) (name.mapMarks f) (type.mapMarks f)
  | seq m first second => seq (f m) (first.mapMarks f) (second.mapMarks f)
  | error m => error (f m)

@[simp] def Command.mapMarks (f : Mark → Mark) : Command → Command
  | assign m target value => assign (f m) (target.mapMarks f) (value.mapMarks f)
  | call m callee param => call (f m) (callee.mapMarks f) (param.mapMarks f)
  | cond m c thenBranch elseBranch =>
    cond (f m) (c.mapMarks f) (thenBranch.mapMarks f) (elseBranch.mapMarks f)
  | whileDo m c body rest => whileDo (f m) (c.mapMarks f) (body.mapMarks f) (rest.mapMarks f)
  | doWhile m body c => doWhile (f m) (body.mapMarks f) (c.mapMarks f)
  | letIn m decl body rest => letIn (f m) (decl.mapMarks f) (body.mapMarks f) (rest.mapMarks f)
  | seq m first second => seq (f m) (first.mapMarks f) (second.mapMarks f)
  | blank m => blank (f m)
  | error m => error (f m)

section Composition
variable (f g : Mark → Mark)

theorem Ident.mapMarks_mapMarks (i : Ident) :
    (i.mapMarks g).mapMarks f = i.mapMarks fun m => f (g m) := rfl

theorem Operator.mapMarks_mapMarks (o : Operator) :
    (o.mapMarks g).mapMarks f = o.mapMarks fun m => f (g m) := rfl

theorem TypeDenoter.mapMarks_mapMarks (d : TypeDenoter) :
    (d.mapMarks g).mapMarks f = d.mapMarks fun m => f (g m) := rfl

theorem Expr.mapMarks_mapMarks (e : Expr) :
    (e.mapMarks g).mapMarks f = e.mapMarks fun m => f (g m) := by
  induction e with
  | binary m op lhs rhs ihl ihr => simp only [mapMarks, ihl, ihr, Operator.mapMarks_mapMarks]
  | unary m op operand ih => simp only [mapMarks, ih, Operator.mapMarks_mapMarks]
  | int m spelling => rfl
  | char m value => rfl
  | name m ident => rfl
  | error m => rfl

theorem Param.mapMarks_mapMarks (p : Param) :
    (p.mapMarks g).mapMarks f = p.mapMarks fun m => f (g m) := by
  cases p with
  | value m expr => simp only [mapMarks, Expr.mapMarks_mapMarks]
  | reference m ident => rfl
  | blank m => rfl
  | error m => rfl

theorem Decl.mapMarks_mapMarks (d : Decl) :
    (d.mapMarks g).mapMarks f = d.mapMarks fun m => f (g m) := by
  induction d with
  | const m name value => simp only [mapMarks, Expr.mapMarks_mapMarks, Ident.mapMarks_mapMarks]
  | var m name type => rfl
  | seq m first second ih1 ih2 => simp only [mapMarks, ih1, ih2]
  | error m => rfl

theorem Command.mapMarks_mapMarks (c : Command) :
    (c.mapMarks g).mapMarks f = c.mapMarks fun m => f (g m) := by
  induction c with
  | assign m target value => simp only [mapMarks, Expr.mapMarks_mapMarks, Ident.mapMarks_mapMarks]
  | call m callee param => simp only [mapMarks, Param.mapMarks_mapMarks, Ident.mapMarks_mapMarks]
  | cond m c t e iht ihe => simp only [mapMarks, Expr.mapMarks_mapMarks, iht, ihe]
  | whileDo m c body rest ihb ihr => simp only [mapMarks, Expr.mapMarks_mapMarks, ihb, ihr]
  | doWhile m body c ih => simp only [mapMarks, Expr.mapMarks_mapMarks, ih]
  | letIn m decl body rest ihb ihr => simp only [mapMarks, Decl.mapMarks_mapMarks, ihb, ihr]
  | seq m first second ih1 ih2 => simp only [mapMarks, ih1, ih2]
  | blank m => rfl
  | error m => rfl

end Composition

theorem Expr.mapMarks_id (e : Expr) : e.mapMarks id = e := by
  induction e with
  | binary m op lhs rhs ihl ihr => simp only [mapMarks, ihl, ihr]; rfl
  | unary m op operand ih => simp only [mapMarks, ih]; rfl
  | int m spelling => rfl
  | char m value => rfl
  | name m ident => rfl
  | error m => rfl

theorem Param.mapMarks_id (p : Param) : p.mapMarks id = p := by
  cases p with
  | value m expr => simp only [mapMarks, Expr.mapMarks_id]; rfl
  | reference m ident => rfl
  | blank m => rfl
  | error m => rfl

theorem Decl.mapMarks_id (d : Decl) : d.mapMarks id = d := by
  induction d with
  | const m name value => simp only [mapMarks, Expr.mapMarks_id]; rfl
  | var m name type => rfl
  | seq m first second ih1 ih2 => simp only [mapMarks, ih1, ih2]; rfl
  | error m => rfl

theorem Command.mapMarks_id (c : Command) : c.mapMarks id = c := by
  induction c with
  | assign m target value => simp only [mapMarks, Expr.mapMarks_id]; rfl
  | call m callee param => simp only [mapMarks, Param.mapMarks_id]; rfl
  | cond m c t e iht ihe => simp only [mapMarks, Expr.mapMarks_id, iht, ihe]; rfl
  | whileDo m c body rest ihb ihr => simp only [mapMarks, Expr.mapMarks_id, ihb, ihr]; rfl
  | doWhile m body c ih => simp only [mapMarks, Expr.mapMarks_id, ih]; rfl
  | letIn m decl body rest ihb ihr => simp only [mapMarks, Decl.mapMarks_id, ihb, ihr]; rfl
  | seq m first second ih1 ih2 => simp only [mapMarks, ih1, ih2]; rfl
  | blank m => rfl
  | error m => rfl

def Command.unspanned (c : Command) : Command := c.mapMarks Mark.unspanned

def Program.unspanned (p : Program) : Program := ⟨p.command.unspanned, default⟩

def Command.bare (c : Command) : Command := c.mapMarks Mark.bare

theorem Command.bare_unspanned (c : Command) : c.unspanned.bare = c.bare := by
  simp only [unspanned, bare, mapMarks_mapMarks]
  rfl

/-! ## The marks of a tree -/

def TypeDenoter.marks (d : TypeDenoter) : List Mark := [d.name.toMark, d.toMark]

/-- The marks of an expression, in the order in which its nodes are finished. -/
@[simp] def Expr.marks : Expr → List Mark
  | binary m op lhs rhs => lhs.marks ++ op.toMark :: (rhs.marks ++ [m])
  | unary m op operand => op.toMark :: (operand.marks ++ [m])
  | int m _ => [m]
  | char m _ => [m]
  | name m ident => [ident.toMark, m]
  | error m => [m]

def Param.marks : Param → List Mark
  | value m expr => expr.marks ++ [m]
  | reference m ident => [ident.toMark, m]
  | blank m => [m]
  | error m => [m]

@[simp] def Decl.marks : Decl → List Mark
  | const m name value => name.toMark :: (value.marks ++ [m])
  | var m name type => name.toMark :: (type.marks ++ [m])
  | seq m first second => first.marks ++ (second.marks ++ [m])
  | error m => [m]

@[simp] def Command.marks : Command → List Mark
  | assign m target value => target.toMark :: (value.marks ++ [m])
  | call m callee param => callee.toMark :: (param.marks ++ [m])
  | cond m c thenBranch elseBranch =>
    c.marks ++ (thenBranch.marks ++ (elseBranch.marks ++ [m]))
  | whileDo m c body rest => c.marks ++ (body.marks ++ (rest.marks ++ [m]))
  | doWhile m body c => body.marks ++ (c.marks ++ [m])
  | letIn m decl body rest => decl.marks ++ (body.marks ++ (rest.marks ++ [m]))
  | seq m first second => first.marks ++ (second.marks ++ [m])
  | blank m => [m]
  | error m => [m]

def Expr.ids (e : Expr) : List Nat := e.marks.map Mark.id

def Param.ids (p : Param) : List Nat := p.marks.map Mark.id

def Decl.ids (d : Decl) : List Nat := d.marks.map Mark.id

/-- The numbers of the nodes of a command. -/
def Command.ids (c : Command) : List Nat := c.marks.map Mark.id

section Numbers
variable (m : Mark)

@[simp] theorem Expr.ids_binary (op : Operator) (lhs rhs : Expr) :
    (binary m op lhs rhs).ids = lhs.ids ++ op.id :: (rhs.ids ++ [m.id]) := by simp [ids]

@[simp] theorem Expr.ids_unary (op : Operator) (operand : Expr) :
    (unary m op operand).ids = op.id :: (operand.ids ++ [m.id]) := by simp [ids]

@[simp] theorem Expr.ids_name (ident : Ident) : (name m ident).ids = [ident.id, m.id] := rfl

@[simp] theorem Param.ids_value (expr : Expr) : (value m expr).ids = expr.ids ++ [m.id] := by
  simp [ids, marks, Expr.ids]

@[simp] theorem Param.ids_reference (ident : Ident) :
    (reference m ident).ids = [ident.id, m.id] := rfl

@[simp] theorem Decl.ids_const (name : Ident) (value : Expr) :
    (const m name value).ids = name.id :: (value.ids ++ [m.id]) := by simp [ids, Expr.ids]

@[simp] theorem Decl.ids_var (name : Ident) (type : TypeDenoter) :
    (var m name type).ids = [name.id, type.name.id, type.id, m.id] := rfl

@[simp] theorem Decl.ids_seq (first second : Decl) :
    (seq m first second).ids = first.ids ++ (second.ids ++ [m.id]) := by simp [ids]

@[simp] theorem Command.ids_assign (target : Ident) (value : Expr) :
    (assign m target value).ids = target.id :: (value.ids ++ [m.id]) := by simp [ids, Expr.ids]

@[simp] theorem Command.ids_call (callee : Ident) (param : Param) :
    (call m callee param).ids = callee.id :: (param.ids ++ [m.id]) := by simp [ids, Param.ids]

@[simp] theorem Command.ids_cond (c : Expr) (thenBranch elseBranch : Command) :
    (cond m c thenBranch elseBranch).ids =
      c.ids ++ (thenBranch.ids ++ (elseBranch.ids ++ [m.id])) := by simp [ids, Expr.ids]

@[simp] theorem Command.ids_whileDo (c : Expr) (body rest : Command) :
    (whileDo m c body rest).ids = c.ids ++ (body.ids ++ (rest.ids ++ [m.id])) := by
  simp [ids, Expr.ids]

@[simp] theorem Command.ids_doWhile (body : Command) (c : Expr) :
    (doWhile m body c).ids = body.ids ++ (c.ids ++ [m.id]) := by simp [ids, Expr.ids]

@[simp] theorem Command.ids_letIn (decl : Decl) (body rest : Command) :
    (letIn m decl body rest).ids = decl.ids ++ (body.ids ++ (rest.ids ++ [m.id])) := by
  simp [ids, Decl.ids]

@[simp] theorem Command.ids_seq (first second : Command) :
    (seq m first second).ids = first.ids ++ (second.ids ++ [m.id]) := by simp [ids]

end Numbers

section Marks
variable (f : Mark → Mark)

theorem Expr.marks_mapMarks (e : Expr) : (e.mapMarks f).marks = e.marks.map f := by
  induction e with
  | binary m op lhs rhs ihl ihr => simp [ihl, ihr, Operator.mapMarks]
  | unary m op operand ih => simp [ih, Operator.mapMarks]
  | int m spelling => rfl
  | char m value => rfl
  | name m ident => rfl
  | error m => rfl

theorem Param.marks_mapMarks (p : Param) : (p.mapMarks f).marks = p.marks.map f := by
  cases p with
  | value m expr => simp [mapMarks, marks, Expr.marks_mapMarks]
  | reference m ident => rfl
  | blank m => rfl
  | error m => rfl

theorem Decl.marks_mapMarks (d : Decl) : (d.mapMarks f).marks = d.marks.map f := by
  induction d with
  | const m name value => simp [Expr.marks_mapMarks, Ident.mapMarks]
  | var m name type => rfl
  | seq m first second ih1 ih2 => simp [ih1, ih2]
  | error m => rfl

theorem Command.marks_mapMarks (c : Command) : (c.mapMarks f).marks = c.marks.map f := by
  induction c with
  | assign m target value => simp [Expr.marks_mapMarks, Ident.mapMarks]
  | call m callee param => simp [Param.marks_mapMarks, Ident.mapMarks]
  | cond m c t e iht ihe => simp [Expr.marks_mapMarks, iht, ihe]
  | whileDo m c body rest ihb ihr => simp [Expr.marks_mapMarks, ihb, ihr]
  | doWhile m body c ih => simp [Expr.marks_mapMarks, ih]
  | letIn m decl body rest ihb ihr => simp [Decl.marks_mapMarks, ihb, ihr]
  | seq m first second ih1 ih2 => simp [ih1, ih2]
  | blank m => rfl
  | error m => rfl

end Marks

theorem Command.ids_unspanned (c : Command) : c.unspanned.ids = c.ids := by
  simp only [ids, unspanned, marks_mapMarks, List.map_map]
  rfl

/-! ## Trees without error nodes -/

/-- No node of the expression is an error node. -/
def Expr.ErrorFree : Expr → Prop
  | binary _ _ lhs rhs => lhs.ErrorFree ∧ rhs.ErrorFree
  | unary _ _ operand => operand.ErrorFree
  | int _ _ => True
  | char _ _ => True
  | name _ _ => True
  | error _ => False

def Param.ErrorFree : Param → Prop
  | value _ expr => expr.ErrorFree
  | reference _ _ => True
  | blank _ => True
  | error _ => False

def Decl.ErrorFree : Decl → Prop
  | const _ _ value => value.ErrorFree
  | var _ _ _ => True
  | seq _ first second => first.ErrorFree ∧ second.ErrorFree
  | error _ => False

def Command.ErrorFree : Command → Prop
  | assign _ _ value => value.ErrorFree
  | call _ _ param => param.ErrorFree
  | cond _ c thenBranch elseBranch => c.ErrorFree ∧ thenBranch.ErrorFree ∧ elseBranch.ErrorFree
  | whileDo _ c body rest => c.ErrorFree ∧ body.ErrorFree ∧ rest.ErrorFree
  | doWhile _ body c => body.ErrorFree ∧ c.ErrorFree
  | letIn _ decl body rest => decl.ErrorFree ∧ body.ErrorFree ∧ rest.ErrorFree
  | seq _ first second => first.ErrorFree ∧ second.ErrorFree
  | blank _ => True
  | error _ => False

section ErrorFree
variable (f : Mark → Mark)

theorem Expr.errorFree_mapMarks (e : Expr) : (e.mapMarks f).ErrorFree ↔ e.ErrorFree := by
  induction e with
  | binary m op lhs rhs ihl ihr => simp only [mapMarks, ErrorFree, ihl, ihr]
  | unary m op operand ih => simp only [mapMarks, ErrorFree, ih]
  | int m spelling => rfl
  | char m value => rfl
  | name m ident => rfl
  | error m => rfl

theorem Param.errorFree_mapMarks (p : Param) : (p.mapMarks f).ErrorFree ↔ p.ErrorFree := by
  cases p with
  | value m expr => simp only [mapMarks, ErrorFree, Expr.errorFree_mapMarks]
  | reference m ident => rfl
  | blank m => rfl
  | error m => rfl

theorem Decl.errorFree_mapMarks (d : Decl) : (d.mapMarks f).ErrorFree ↔ d.ErrorFree := by
  induction d with
  | const m name value => simp only [mapMarks, ErrorFree, Expr.errorFree_mapMarks]
  | var m name type => rfl
  | seq m first second ih1 ih2 => simp only [mapMarks, ErrorFree, ih1, ih2]
  | error m => rfl

theorem Command.errorFree_mapMarks (c : Command) : (c.mapMarks f).ErrorFree ↔ c.ErrorFree := by
  induction c with
  | assign m target value => simp only [mapMarks, ErrorFree, Expr.errorFree_mapMarks]
  | call m callee param => simp only [mapMarks, ErrorFree, Param.errorFree_mapMarks]
  | cond m c t e iht ihe => simp only [mapMarks, ErrorFree, Expr.errorFree_mapMarks, iht, ihe]
  | whileDo m c body rest ihb ihr =>
    simp only [mapMarks, ErrorFree, Expr.errorFree_mapMarks, ihb, ihr]
  | doWhile m body c ih => simp only [mapMarks, ErrorFree, Expr.errorFree_mapMarks, ih]
  | letIn m decl body rest ihb ihr =>
    simp only [mapMarks, ErrorFree, Decl.errorFree_mapMarks, ihb, ihr]
  | seq m first second ih1 ih2 => simp only [mapMarks, ErrorFree, ih1, ih2]
  | blank m => rfl
  | error m => rfl

end ErrorFree

end TriLang
