import TriLang.Proofs.Syntax.Marks

/-! # The numbering of the nodes of a tree

`numbered n` gives the nodes of a tree the numbers from `n` on, in the order in which they are finished.
It looks at the shape of the tree only, and the numbers it gives are exactly `n, n + 1, …`, as many as
there are nodes (`ids_numbered`). -/
namespace TriLang
set_option autoImplicit false

/-! ## Numbering -/

/-- The number of nodes of an expression. -/
def Expr.nodes : Expr → Nat
  | binary _ _ lhs rhs => lhs.nodes + 1 + rhs.nodes + 1
  | unary _ _ operand => 1 + operand.nodes + 1
  | int _ _ => 1
  | char _ _ => 1
  | name _ _ => 2
  | error _ => 1

def Param.nodes : Param → Nat
  | value _ expr => expr.nodes + 1
  | reference _ _ => 2
  | blank _ => 1
  | error _ => 1

def Decl.nodes : Decl → Nat
  | const _ _ value => 1 + value.nodes + 1
  | var _ _ _ => 4
  | seq _ first second => first.nodes + second.nodes + 1
  | error _ => 1

def Command.nodes : Command → Nat
  | assign _ _ value => 1 + value.nodes + 1
  | call _ _ param => 1 + param.nodes + 1
  | cond _ c thenBranch elseBranch => c.nodes + thenBranch.nodes + elseBranch.nodes + 1
  | whileDo _ c body rest => c.nodes + body.nodes + rest.nodes + 1
  | doWhile _ body c => body.nodes + c.nodes + 1
  | letIn _ decl body rest => decl.nodes + body.nodes + rest.nodes + 1
  | seq _ first second => first.nodes + second.nodes + 1
  | blank _ => 1
  | error _ => 1

def Mark.numbered (n : Nat) : Mark := ⟨n, default⟩

def Ident.numbered (n : Nat) (i : Ident) : Ident := ⟨.numbered n, i.name⟩

def Operator.numbered (n : Nat) (o : Operator) : Operator := ⟨.numbered n, o.spelling⟩

def TypeDenoter.numbered (n : Nat) (d : TypeDenoter) : TypeDenoter :=
  ⟨.numbered (n + 1), d.name.numbered n⟩

/-- The expression with its nodes numbered from `n` on. -/
def Expr.numbered (n : Nat) : Expr → Expr
  | binary _ op lhs rhs =>
    binary (.numbered (n + lhs.nodes + 1 + rhs.nodes)) (op.numbered (n + lhs.nodes))
      (lhs.numbered n) (rhs.numbered (n + lhs.nodes + 1))
  | unary _ op operand =>
    unary (.numbered (n + 1 + operand.nodes)) (op.numbered n) (operand.numbered (n + 1))
  | int _ spelling => int (.numbered n) spelling
  | char _ value => char (.numbered n) value
  | name _ ident => name (.numbered (n + 1)) (ident.numbered n)
  | error _ => error (.numbered n)

def Param.numbered (n : Nat) : Param → Param
  | value _ expr => value (.numbered (n + expr.nodes)) (expr.numbered n)
  | reference _ ident => reference (.numbered (n + 1)) (ident.numbered n)
  | blank _ => blank (.numbered n)
  | error _ => error (.numbered n)

def Decl.numbered (n : Nat) : Decl → Decl
  | const _ name value =>
    const (.numbered (n + 1 + value.nodes)) (name.numbered n) (value.numbered (n + 1))
  | var _ name type => var (.numbered (n + 3)) (name.numbered n) (type.numbered (n + 1))
  | seq _ first second =>
    seq (.numbered (n + first.nodes + second.nodes)) (first.numbered n)
      (second.numbered (n + first.nodes))
  | error _ => error (.numbered n)

def Command.numbered (n : Nat) : Command → Command
  | assign _ target value =>
    assign (.numbered (n + 1 + value.nodes)) (target.numbered n) (value.numbered (n + 1))
  | call _ callee param =>
    call (.numbered (n + 1 + param.nodes)) (callee.numbered n) (param.numbered (n + 1))
  | cond _ c thenBranch elseBranch =>
    cond (.numbered (n + c.nodes + thenBranch.nodes + elseBranch.nodes)) (c.numbered n)
      (thenBranch.numbered (n + c.nodes))
      (elseBranch.numbered (n + c.nodes + thenBranch.nodes))
  | whileDo _ c body rest =>
    whileDo (.numbered (n + c.nodes + body.nodes + rest.nodes)) (c.numbered n)
      (body.numbered (n + c.nodes)) (rest.numbered (n + c.nodes + body.nodes))
  | doWhile _ body c =>
    doWhile (.numbered (n + body.nodes + c.nodes)) (body.numbered n) (c.numbered (n + body.nodes))
  | letIn _ decl body rest =>
    letIn (.numbered (n + decl.nodes + body.nodes + rest.nodes)) (decl.numbered n)
      (body.numbered (n + decl.nodes)) (rest.numbered (n + decl.nodes + body.nodes))
  | seq _ first second =>
    seq (.numbered (n + first.nodes + second.nodes)) (first.numbered n)
      (second.numbered (n + first.nodes))
  | blank _ => blank (.numbered n)
  | error _ => error (.numbered n)

/-! ## The numbers of a numbered tree -/

section Consecutive
variable (n a b c : Nat)

theorem range'_two : List.range' n a ++ (List.range' (n + a) b ++ [n + a + b]) =
    List.range' n (a + b + 1) := by
  rw [← List.range'_1_concat, List.range'_append_1, Nat.add_assoc a b 1]

theorem range'_three :
    List.range' n a ++ (List.range' (n + a) b ++ (List.range' (n + a + b) c ++ [n + a + b + c])) =
      List.range' n (a + b + c + 1) := by
  rw [range'_two, List.range'_append_1, Nat.add_assoc a b c, Nat.add_assoc a (b + c) 1]

/-- A leaf comes first, and its parent behind the rest. -/
theorem range'_leaf : n :: (List.range' (n + 1) a ++ [n + 1 + a]) = List.range' n (1 + a + 1) :=
  range'_two n 1 a

end Consecutive

theorem Expr.ids_numbered (e : Expr) (n : Nat) : (e.numbered n).ids = List.range' n e.nodes := by
  induction e generalizing n with
  | binary m op lhs rhs ihl ihr =>
    rw [numbered, ids_binary, ihl, ihr]
    exact range'_three n lhs.nodes 1 rhs.nodes
  | unary m op operand ih =>
    rw [numbered, ids_unary, ih]
    exact range'_leaf n operand.nodes
  | int m spelling => rfl
  | char m value => rfl
  | name m ident => rfl
  | error m => rfl

theorem Param.ids_numbered (p : Param) (n : Nat) : (p.numbered n).ids = List.range' n p.nodes := by
  cases p with
  | value m expr =>
    rw [numbered, ids_value, Expr.ids_numbered]
    exact List.range'_1_concat.symm
  | reference m ident => rfl
  | blank m => rfl
  | error m => rfl

theorem Decl.ids_numbered (d : Decl) (n : Nat) : (d.numbered n).ids = List.range' n d.nodes := by
  induction d generalizing n with
  | const m name value =>
    rw [numbered, ids_const, Expr.ids_numbered]
    exact range'_leaf n value.nodes
  | var m name type => rfl
  | seq m first second ihf ihs =>
    rw [numbered, ids_seq, ihf, ihs]
    exact range'_two n first.nodes second.nodes
  | error m => rfl

theorem Command.ids_numbered (c : Command) (n : Nat) :
    (c.numbered n).ids = List.range' n c.nodes := by
  induction c generalizing n with
  | assign m target value =>
    rw [numbered, ids_assign, Expr.ids_numbered]
    exact range'_leaf n value.nodes
  | call m callee param =>
    rw [numbered, ids_call, Param.ids_numbered]
    exact range'_leaf n param.nodes
  | cond m c thenBranch elseBranch iht ihe =>
    rw [numbered, ids_cond, Expr.ids_numbered, iht, ihe]
    exact range'_three n c.nodes thenBranch.nodes elseBranch.nodes
  | whileDo m c body rest ihb ihr =>
    rw [numbered, ids_whileDo, Expr.ids_numbered, ihb, ihr]
    exact range'_three n c.nodes body.nodes rest.nodes
  | doWhile m body c ih =>
    rw [numbered, ids_doWhile, ih, Expr.ids_numbered]
    exact range'_two n body.nodes c.nodes
  | letIn m decl body rest ihb ihr =>
    rw [numbered, ids_letIn, Decl.ids_numbered, ihb, ihr]
    exact range'_three n decl.nodes body.nodes rest.nodes
  | seq m first second ihf ihs =>
    rw [numbered, ids_seq, ihf, ihs]
    exact range'_two n first.nodes second.nodes
  | blank m => rfl
  | error m => rfl

/-- No two nodes of a numbered command have the same number. -/
theorem Command.nodup_ids_of_unspanned {c d : Command} {n : Nat}
    (h : c.unspanned = d.numbered n) : c.ids.Nodup := by
  rw [← ids_unspanned, h, ids_numbered]
  exact List.nodup_range'

/-! ## The shape of a numbered tree -/

theorem Expr.bare_numbered (e : Expr) (n : Nat) :
    (e.numbered n).mapMarks .bare = e.mapMarks .bare := by
  induction e generalizing n with
  | binary m op lhs rhs ihl ihr => simp only [numbered, mapMarks, ihl, ihr]; rfl
  | unary m op operand ih => simp only [numbered, mapMarks, ih]; rfl
  | int m spelling => rfl
  | char m value => rfl
  | name m ident => rfl
  | error m => rfl

theorem Param.bare_numbered (p : Param) (n : Nat) :
    (p.numbered n).mapMarks .bare = p.mapMarks .bare := by
  cases p with
  | value m expr => simp only [numbered, mapMarks, Expr.bare_numbered]; rfl
  | reference m ident => rfl
  | blank m => rfl
  | error m => rfl

theorem Decl.bare_numbered (d : Decl) (n : Nat) :
    (d.numbered n).mapMarks .bare = d.mapMarks .bare := by
  induction d generalizing n with
  | const m name value => simp only [numbered, mapMarks, Expr.bare_numbered]; rfl
  | var m name type => rfl
  | seq m first second ih1 ih2 => simp only [numbered, mapMarks, ih1, ih2]; rfl
  | error m => rfl

theorem Command.bare_numbered (c : Command) (n : Nat) : (c.numbered n).bare = c.bare := by
  unfold bare
  induction c generalizing n with
  | assign m target value => simp only [numbered, mapMarks, Expr.bare_numbered]; rfl
  | call m callee param => simp only [numbered, mapMarks, Param.bare_numbered]; rfl
  | cond m c t e iht ihe => simp only [numbered, mapMarks, Expr.bare_numbered, iht, ihe]; rfl
  | whileDo m c body rest ihb ihr =>
    simp only [numbered, mapMarks, Expr.bare_numbered, ihb, ihr]; rfl
  | doWhile m body c ih => simp only [numbered, mapMarks, Expr.bare_numbered, ih]; rfl
  | letIn m decl body rest ihb ihr =>
    simp only [numbered, mapMarks, Decl.bare_numbered, ihb, ihr]; rfl
  | seq m first second ih1 ih2 => simp only [numbered, mapMarks, ih1, ih2]; rfl
  | blank m => rfl
  | error m => rfl

end TriLang
