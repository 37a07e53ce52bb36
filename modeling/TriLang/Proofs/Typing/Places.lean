import TriLang.Proofs.Syntax.Parts
import TriLang.Proofs.Typing.Walks

/-! # Where type errors are

A type error is reported at a part of the tree, or across the two operands of an operator. Each function of
the checker adds errors of that kind only (`Typing.ReportsIn`), and so this is what all of them are
(`typecheck_places`). -/
namespace TriLang
open Typing
set_option autoImplicit false

/-- The error is one at a part of the tree, or across the two operands of an operator of the tree. -/
inductive TypeError.In (root : Node) : TypeError → Prop where
  | part {n : Node} (h : root.Contains n) (cause : TypeError.Cause) : In root ⟨cause, n.span⟩
  | operands {m : Mark} {op : Operator} {lhs rhs : Expr}
    (h : root.Contains (.expr (.binary m op lhs rhs))) (cause : TypeError.Cause) :
    In root ⟨cause, lhs.span.join rhs.span⟩

/-- Between the two states no errors are added but some in the tree. -/
def Typing.ReportsIn (root : Node) (t u : Typing) : Prop :=
  ∀ e ∈ u.errors, e ∈ t.errors ∨ e.In root

namespace Typing.ReportsIn
variable {root : Node} {t u v : Typing}

theorem refl (t : Typing) : ReportsIn root t t := fun _ he => .inl he

theorem trans (h : ReportsIn root t u) (h' : ReportsIn root u v) : ReportsIn root t v := by
  intro e he
  rcases h' e he with he | hin
  · exact h e he
  · exact .inr hin

theorem of_adds (h : Adds (TypeError.In root) t u) : ReportsIn root t u := by
  obtain ⟨more, hmore, hall⟩ := h.errors
  intro e he
  rcases List.mem_append.1 (hmore ▸ he) with he | he
  · exact .inl he
  · exact .inr (hall e he)

theorem record {j : Judged} (h : ReportsIn root t j.after) (node : Nat) :
    ReportsIn root t (j.record node).after := h

theorem recordDeclared (h : ReportsIn root t u) (r : Resolution) (decl : Nat) (type : Ty) :
    ReportsIn root t (u.recordDeclared r decl type) := by
  rw [ReportsIn, errors_recordDeclared]
  exact h

end Typing.ReportsIn

section
variable {root : Node} (r : Resolution)

/-! ## Expressions and declarations -/

theorem Expr.check_places (e : Expr) (h : root.Contains (.expr e)) (t : Typing) :
    ReportsIn root t (e.check r t).after := by
  induction e generalizing t with
  | binary m op lhs rhs ihl ihr =>
    have hlhs : root.Contains (.expr lhs) := h.child (by simp [Node.children, children])
    have hrhs : root.Contains (.expr rhs) := h.child (by simp [Node.children, children])
    have hop : root.Contains (.operator op) := h.child (by simp [Node.children, children])
    have huse := adds_checkBinary r (P := TypeError.In root) (rhs.check r (lhs.check r t).after).after
      (.operands h (.operandMismatch op.spelling (lhs.check r t).type
        (rhs.check r (lhs.check r t).after).type))
      (fun _ => .part hlhs _) (fun _ => .part hrhs _) (.part hop _)
    exact (ihl hlhs t).trans ((ihr hrhs _).trans ((ReportsIn.of_adds huse).record m.id))
  | unary m op operand ih =>
    have hoperand : root.Contains (.expr operand) := h.child (by simp [Node.children, children])
    have hop : root.Contains (.operator op) := h.child (by simp [Node.children, children])
    have huse := adds_checkUnary r (P := TypeError.In root) (operand.check r t).after
      (fun expected => .part hoperand (.mismatch expected (operand.check r t).type)) (.part hop _)
    exact (ih hoperand t).trans ((ReportsIn.of_adds huse).record m.id)
  | int m spelling => exact (ReportsIn.of_adds (adds_checkInt t (.part h _))).record m.id
  | char m value => exact (ReportsIn.of_adds (adds_checkChar t (.part h _))).record m.id
  | name m ident =>
    have hident : root.Contains (.ident ident) := h.child (by simp [Node.children, children])
    have huse := adds_checkValue r (P := TypeError.In root) t (fun _ _ _ => .part hident _)
      fun _ => .part hident _
    exact (ReportsIn.of_adds huse).record m.id
  | error m => exact .refl t

theorem Expr.checkCondition_places (e : Expr) (h : root.Contains (.expr e)) (t : Typing) :
    ReportsIn root t (e.checkCondition r t) :=
  (e.check_places r h t).trans (.of_adds (adds_expect _ (.part h _)))

theorem Decl.check_places (d : Decl) (h : root.Contains (.decl d)) (t : Typing) :
    ReportsIn root t (d.check r t) := by
  induction d generalizing t with
  | const m name value =>
    have hvalue : root.Contains (.expr value) := h.child (by simp [Node.children, children])
    exact (value.check_places r hvalue t).recordDeclared r _ _
  | var m name type =>
    have htype : root.Contains (.type type) := h.child (by simp [Node.children, children])
    exact (ReportsIn.of_adds (type.adds_check r t (.part htype _))).recordDeclared r _ _
  | seq m first second ihf ihs =>
    have hfirst : root.Contains (.decl first) := h.child (by simp [Node.children, children])
    have hsecond : root.Contains (.decl second) := h.child (by simp [Node.children, children])
    exact (ihf hfirst t).trans (ihs hsecond _)
  | error m => exact .refl t

/-! ## Commands -/

/-- What is wrong with a call is so at the name that is called, at the parameter or in it. -/
theorem CallError.in_tree {callee : Ident} {p : Param} {e : TypeError} (h : CallError callee p e)
    (hcallee : root.Contains (.ident callee)) (hp : root.Contains (.param p)) : e.In root := by
  cases h with
  | callee => exact .part hcallee _
  | arity => exact .part hp _
  | mode => exact .part hp _
  | value m e => exact .part (hp.child (c := .expr e) (by simp [Node.children, Param.children])) _
  | «variable» m ident =>
    exact .part (hp.child (c := .ident ident) (by simp [Node.children, Param.children])) _
  | reference m ident =>
    exact .part (hp.child (c := .ident ident) (by simp [Node.children, Param.children])) _

theorem checkCall_places {callee : Ident} {p : Param} (hcallee : root.Contains (.ident callee))
    (hp : root.Contains (.param p)) (t : Typing) : ReportsIn root t (checkCall r callee p t) := by
  have hcall : ∀ e, CallError callee p e → e.In root := fun _ he => he.in_tree hcallee hp
  cases p with
  | value m e =>
    have he : root.Contains (.expr e) := hp.child (by simp [Node.children, Param.children])
    have hargument := (adds_argumentState (r := r) callee (.value m e) t).mono hcall
    have hbehind := (adds_checkCall_value (r := r) callee m e t).mono hcall
    exact (ReportsIn.of_adds hargument).trans ((e.check_places r he _).trans (.of_adds hbehind))
  | _ => exact .of_adds ((adds_checkCall callee (by simp) t).mono hcall)

theorem checkAssign_places {target : Ident} {value : Expr} (htarget : root.Contains (.ident target))
    (hvalue : root.Contains (.expr value)) (t : Typing) :
    ReportsIn root t (checkAssign r target value t) := by
  have hvariable : ReportsIn root t (checkVariable r target t).2 :=
    .of_adds (adds_checkVariable r t target (.part htarget _))
  unfold checkAssign
  dsimp only
  split
  · exact hvariable.trans ((value.check_places r hvalue _).trans
      (.of_adds (adds_expect _ (.part hvalue _))))
  · exact hvariable.trans (value.check_places r hvalue _)

theorem Command.check_places (c : Command) (h : root.Contains (.command c)) (t : Typing) :
    ReportsIn root t (c.check r t) := by
  induction c generalizing t with
  | assign m target value =>
    exact checkAssign_places r (h.child (by simp [Node.children, children]))
      (h.child (by simp [Node.children, children])) t
  | call m callee param =>
    exact checkCall_places r (h.child (by simp [Node.children, children]))
      (h.child (by simp [Node.children, children])) t
  | cond m c thenBranch elseBranch iht ihe =>
    have hc : root.Contains (.expr c) := h.child (by simp [Node.children, children])
    have hthen := iht (h.child (by simp [Node.children, children])) (c.checkCondition r t)
    exact (c.checkCondition_places r hc t).trans
      (hthen.trans (ihe (h.child (by simp [Node.children, children])) _))
  | whileDo m c body rest ihb ihr =>
    have hc : root.Contains (.expr c) := h.child (by simp [Node.children, children])
    have hbody := ihb (h.child (by simp [Node.children, children])) (c.checkCondition r t)
    exact (c.checkCondition_places r hc t).trans
      (hbody.trans (ihr (h.child (by simp [Node.children, children])) _))
  | doWhile m body c ih =>
    have hc : root.Contains (.expr c) := h.child (by simp [Node.children, children])
    exact (ih (h.child (by simp [Node.children, children])) t).trans (c.checkCondition_places r hc _)
  | letIn m decl body rest ihb ihr =>
    have hdecl : root.Contains (.decl decl) := h.child (by simp [Node.children, children])
    have hbody := ihb (h.child (by simp [Node.children, children])) (decl.check r t)
    exact (decl.check_places r hdecl t).trans
      (hbody.trans (ihr (h.child (by simp [Node.children, children])) _))
  | seq m first second ihf ihs =>
    exact (ihf (h.child (by simp [Node.children, children])) t).trans
      (ihs (h.child (by simp [Node.children, children])) _)
  | blank m => exact .refl t
  | error m => exact .refl t

end

/-- Whatever the tables of names say, type errors are errors in the tree. -/
theorem typecheck_places (r : Resolution) (p : Program) :
    ∀ e ∈ (typecheck r p).errors, e.In (.command p.command) := by
  intro e he
  rcases p.command.check_places r (.here _) _ e he with hnone | hin
  · simp at hnone
  · exact hin

end TriLang
