import TriLang.Proofs.Typing.Commands

/-! # The checker as a walk

Whatever the tables of names say, the checker goes through every expression and every declaration of a tree,
on each way that a command can be wrong, and writes one entry for each (`Command.check_walks`).
`Command.states` lists the states that it comes by, one behind each entry. -/
namespace TriLang
set_option autoImplicit false

variable (r : Resolution)

/-! ## States -/

def Expr.states : Expr → Typing → List Typing
  | binary m op lhs rhs, t =>
    lhs.states t ++ (rhs.states (lhs.check r t).after ++ [((binary m op lhs rhs).check r t).after])
  | unary m op operand, t => operand.states t ++ [((unary m op operand).check r t).after]
  | e, t => [(e.check r t).after]

/-- The state in which the argument of a call is checked that is passed by value. -/
def argumentState (callee : Ident) (p : Param) (t : Typing) : Typing :=
  match r.kindOf? callee.id with
  | some (.procedure [formal]) =>
    if formal.mode = .value then t
    else t.report (.parameterMode callee.name formal.mode) p.span
  | some (.procedure params) => t.report (.arityMismatch callee.name params.length 1) p.span
  | none | some .unknown => t
  | some _ => t.report (.notAProcedure callee.name) callee.span

def callStates (callee : Ident) (p : Param) (t : Typing) : List Typing :=
  match p with
  | .value _ expr => expr.states r (argumentState r callee p t)
  | _ => []

def Decl.states : Decl → Typing → List Typing
  | const m name value, t => value.states r t ++ [(const m name value).check r t]
  | var m name type, t => [(var m name type).check r t]
  | seq _ first second, t => first.states t ++ second.states (first.check r t)
  | error _, _ => []

/-- The states that the checker comes by in a command, one behind each entry that it writes. -/
def Command.states : Command → Typing → List Typing
  | assign _ target value, t => value.states r (checkVariable r target t).2
  | call _ callee param, t => callStates r callee param t
  | cond _ c thenBranch elseBranch, t =>
    c.states r t ++ (thenBranch.states (c.checkCondition r t) ++
      elseBranch.states (thenBranch.check r (c.checkCondition r t)))
  | whileDo _ c body rest, t =>
    c.states r t ++ (body.states (c.checkCondition r t) ++
      rest.states (body.check r (c.checkCondition r t)))
  | doWhile _ body c, t => body.states t ++ c.states r (body.check r t)
  | letIn _ decl body rest, t =>
    decl.states r t ++ (body.states (decl.check r t) ++
      rest.states (body.check r (decl.check r t)))
  | seq _ first second, t => first.states t ++ second.states (first.check r t)
  | blank _, _ => []
  | error _, _ => []

/-! ## Walks -/

/-- The type that a denoter names, or else `error`. -/
def Resolution.typeOf (d : TypeDenoter) : Ty :=
  match r.kindOf? d.name.id with
  | some (.type type) => type
  | _ => .error

/-- Between two states the checker comes by the states that are listed, and gives types to the expressions
and the declarations, one after the other. -/
inductive Typing.Walks : List Expr → List Decl → Typing → List Typing → Typing → Prop where
  | silent {t u : Typing} (h : Reports t u) : Walks [] [] t [] u
  | append {es es' : List Expr} {ds ds' : List Decl} {ss ss' : List Typing} {t u v : Typing}
    (h : Walks es ds t ss u) (h' : Walks es' ds' u ss' v) :
    Walks (es ++ es') (ds ++ ds') t (ss ++ ss') v
  | expr (e : Expr) (type : Ty) (t : Typing) :
    Walks [e] [] t [t.recordNode e.mark.id type] (t.recordNode e.mark.id type)
  | const (m : Mark) (name : Ident) {value : Expr} {type : Ty} {t : Typing}
    (h : t.nodeTypes[value.mark.id]? = some type) :
    Walks [] [.const m name value] t [t.recordDeclared r m.id type] (t.recordDeclared r m.id type)
  | var (m : Mark) (name : Ident) (denoter : TypeDenoter) (t : Typing) :
    Walks [] [.var m name denoter] t [t.recordDeclared r m.id (r.typeOf denoter)]
      (t.recordDeclared r m.id (r.typeOf denoter))

open Typing

variable {r}

namespace Typing.Walks
variable {es : List Expr} {ds : List Decl} {ss : List Typing} {t u v : Typing}

theorem andSilent (h : Walks r es ds t ss u) (h' : Reports u v) : Walks r es ds t ss v := by
  have hboth := h.append (.silent h')
  rwa [List.append_nil, List.append_nil, List.append_nil] at hboth

theorem silentAnd (h : Reports t u) (h' : Walks r es ds u ss v) : Walks r es ds t ss v :=
  append (.silent h) h'

/-- Finding the type of a node only reports; then the type is recorded. -/
theorem record {j : Judged} (h : Reports t j.after) (e : Expr) :
    Walks r [e] [] t [(j.record e.mark.id).after] (j.record e.mark.id).after :=
  silentAnd h (.expr e j.type j.after)

end Typing.Walks

/-! ## The checker walks through the tree -/

theorem Expr.check_walks (e : Expr) (t : Typing) :
    Walks r e.expressions [] t (e.states r t) (e.check r t).after := by
  induction e generalizing t with
  | binary m op lhs rhs ihl ihr =>
    have hop := reports_checkBinary r op (lhs.check r t).type (rhs.check r (lhs.check r t).after).type
      lhs.span rhs.span (rhs.check r (lhs.check r t).after).after
    exact (ihl t).append ((ihr _).append (.record hop (binary m op lhs rhs)))
  | unary m op operand ih =>
    have hop := reports_checkUnary r op (operand.check r t).type operand.span
      (operand.check r t).after
    exact (ih t).append (.record hop (unary m op operand))
  | int m spelling => exact .record (reports_checkInt spelling m.span t) (int m spelling)
  | char m value => exact .record (reports_checkChar value m.span t) (char m value)
  | name m ident => exact .record (reports_checkValue r ident t) (name m ident)
  | error m => exact .expr (error m) .error t

theorem Expr.check_recorded (e : Expr) (t : Typing) :
    (e.check r t).after.nodeTypes[e.mark.id]? = some (e.check r t).type := by
  cases e <;> exact Std.TreeMap.getElem?_insert_self

theorem Expr.checkCondition_walks (e : Expr) (t : Typing) :
    Walks r e.expressions [] t (e.states r t) (e.checkCondition r t) :=
  (e.check_walks t).andSilent (reports_expect _ _ _ _)

theorem TypeDenoter.check_type (d : TypeDenoter) (t : Typing) : (d.check r t).type = r.typeOf d := by
  unfold check Resolution.typeOf
  cases r.kindOf? d.name.id with
  | none => rfl
  | some kind => cases kind <;> rfl

theorem Decl.check_walks (d : Decl) (t : Typing) :
    Walks r d.expressions d.singles t (d.states r t) (d.check r t) := by
  induction d generalizing t with
  | const m name value =>
    have hall := (value.check_walks t).append (.const m name (value.check_recorded (r := r) t))
    rwa [List.append_nil] at hall
  | var m name type =>
    have hrecord := Walks.var m name type (type.check r t).after (r := r)
    rw [← type.check_type t] at hrecord
    exact .silentAnd (type.reports_check r t) hrecord
  | seq m first second ihf ihs => exact (ihf t).append (ihs _)
  | error m => exact .silent (.refl t)

/-! ## Calls -/

/-- What can be wrong with a call, apart from what is wrong within an argument that is passed by value. -/
inductive CallError (callee : Ident) : Param → TypeError → Prop where
  | callee (p : Param) : CallError callee p ⟨.notAProcedure callee.name, callee.span⟩
  | arity (p : Param) (expected found : Nat) :
    CallError callee p ⟨.arityMismatch callee.name expected found, p.span⟩
  | mode (p : Param) (expected : ParamMode) :
    CallError callee p ⟨.parameterMode callee.name expected, p.span⟩
  | value (m : Mark) (e : Expr) (expected found : Ty) :
    CallError callee (.value m e) ⟨.mismatch expected found, e.span⟩
  | variable (m : Mark) (ident : Ident) :
    CallError callee (.reference m ident) ⟨.notAVariable ident.name, ident.span⟩
  | reference (m : Mark) (ident : Ident) (expected found : Ty) :
    CallError callee (.reference m ident) ⟨.mismatch expected found, ident.span⟩

section
variable (callee : Ident)

theorem adds_argumentState (p : Param) (t : Typing) :
    Adds (CallError callee p) t (argumentState r callee p t) := by
  unfold argumentState
  split
  · split
    · exact .refl t
    · exact t.adds_report (.mode p _)
  · exact t.adds_report (.arity p _ _)
  · exact .refl t
  · exact .refl t
  · exact t.adds_report (.callee p)

/-- Nothing is recorded behind the argument of a call, however the call is wrong. -/
theorem adds_checkCall_value (m : Mark) (e : Expr) (t : Typing) :
    Adds (CallError callee (.value m e)) (e.check r (argumentState r callee (.value m e) t)).after
      (checkCall r callee (.value m e) t) := by
  unfold checkCall argumentState
  cases r.kindOf? callee.id with
  | none => exact .refl _
  | some kind =>
    cases kind with
    | procedure params =>
      match params with
      | [] => exact .refl _
      | [⟨.value, type⟩] => exact adds_expect _ (.value m e _ _)
      | [⟨.reference, type⟩] => exact .refl _
      | _ :: _ :: _ =>
        dsimp only
        rw [checkArguments_mismatch callee rfl (by simp)]
        exact .refl _
    | _ => exact .refl _

theorem adds_checkReference (formal : FormalParam) (m : Mark) (ident : Ident) (t : Typing) :
    Adds (CallError callee (.reference m ident)) t
      ((Param.reference m ident).check r callee formal t) := by
  obtain ⟨mode, type⟩ := formal
  cases mode with
  | value => exact t.adds_report (.mode (.reference m ident) _)
  | reference =>
    have hvariable : Adds (CallError callee (.reference m ident)) t _ :=
      adds_checkVariable r t ident (.variable m ident)
    unfold Param.check
    dsimp only
    split
    · next found after hcheck =>
      rw [hcheck] at hvariable
      exact hvariable.trans (adds_expect _ (.reference m ident _ _))
    · next after hcheck => rwa [hcheck] at hvariable

theorem Param.adds_check {p : Param} (hp : ∀ m e, p ≠ .value m e) (formal : FormalParam)
    (t : Typing) : Adds (CallError callee p) t (p.check r callee formal t) := by
  cases p with
  | value m e => exact absurd rfl (hp m e)
  | reference m ident => exact adds_checkReference callee formal m ident t
  | blank m =>
    obtain ⟨mode, type⟩ := formal
    cases mode <;> exact t.adds_report (.mode (.blank m) _)
  | error m =>
    obtain ⟨mode, type⟩ := formal
    cases mode <;> exact t.adds_report (.mode (.error m) _)

/-- A parameter that is not passed by value leads to reports only. -/
theorem adds_checkCall {p : Param} (hp : ∀ m e, p ≠ .value m e) (t : Typing) :
    Adds (CallError callee p) t (checkCall r callee p t) := by
  have halone : ∀ u, p.checkAlone r u = u := by
    intro u
    cases p with
    | value m e => exact absurd rfl (hp m e)
    | _ => rfl
  unfold checkCall checkArguments
  split
  · split
    · exact .refl t
    · split
      · exact p.adds_check callee hp _ t
      · split
        · exact .refl t
        · rw [halone]
          exact t.adds_report (.arity p _ _)
  · rw [halone]
    exact .refl t
  · rw [halone]
    exact .refl t
  · rw [halone]
    exact t.adds_report (.callee p)

end

theorem checkCall_walks (callee : Ident) (p : Param) (t : Typing) :
    Walks r p.expressions [] t (callStates r callee p t) (checkCall r callee p t) := by
  cases p with
  | value m e =>
    have hargument := e.check_walks (r := r) (argumentState r callee (.value m e) t)
    exact .silentAnd (adds_argumentState callee _ t).reports
      (hargument.andSilent (adds_checkCall_value callee m e t).reports)
  | _ => exact .silent (adds_checkCall callee (by simp) t).reports

/-! ## Commands -/

theorem checkAssign_walks (target : Ident) (value : Expr) (t : Typing) :
    Walks r value.expressions [] t (value.states r (checkVariable r target t).2)
      (checkAssign r target value t) := by
  refine .silentAnd (reports_checkVariable r target t) ?_
  unfold checkAssign
  dsimp only
  split
  · exact (value.check_walks _).andSilent (reports_expect _ _ _ _)
  · exact value.check_walks _

theorem Command.check_walks (c : Command) (t : Typing) :
    Walks r c.expressions c.declarations t (c.states r t) (c.check r t) := by
  induction c generalizing t with
  | assign m target value => exact checkAssign_walks target value t
  | call m callee param => exact checkCall_walks callee param t
  | cond m c thenBranch elseBranch iht ihe =>
    exact (c.checkCondition_walks t).append ((iht _).append (ihe _))
  | whileDo m c body rest ihb ihr =>
    exact (c.checkCondition_walks t).append ((ihb _).append (ihr _))
  | doWhile m body c ih =>
    have hall := (ih t).append (c.checkCondition_walks (body.check r t))
    rwa [List.append_nil] at hall
  | letIn m decl body rest ihb ihr => exact (decl.check_walks t).append ((ihb _).append (ihr _))
  | seq m first second ihf ihs => exact (ihf t).append (ihs _)
  | blank m => exact .silent (.refl t)
  | error m => exact .silent (.refl t)

end TriLang
