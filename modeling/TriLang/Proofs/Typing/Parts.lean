import Mathlib.Data.List.Flatten
import TriLang.Proofs.Syntax.Parts
import TriLang.Proofs.Typing.Rules

/-! # Expressions and declarations as parts of a tree

The expressions that are listed in a tree are those among its parts (`Node.mem_expressions`), and so are the
single declarations (`Node.mem_declarations`). -/
namespace TriLang
set_option autoImplicit false

namespace Node

/-! ## Expressions -/

def expressions : Node → List Expr
  | command c => c.expressions
  | decl d => d.expressions
  | param p => p.expressions
  | expr e => e.expressions
  | _ => []

def expr? : Node → Option Expr
  | expr e => some e
  | _ => none

theorem expressions_eq (n : Node) :
    n.expressions = n.children.flatMap expressions ++ n.expr?.toList := by
  cases n with
  | command c =>
    cases c <;> simp [expressions, expr?, children, Command.children, Command.expressions]
  | decl d => cases d <;> simp [expressions, expr?, children, Decl.children, Decl.expressions]
  | type d => rfl
  | param p => cases p <;> simp [expressions, expr?, children, Param.children, Param.expressions]
  | expr e => cases e <;> simp [expressions, expr?, children, Expr.children, Expr.expressions]
  | ident i => rfl
  | operator o => rfl

theorem expr?_eq_some {n : Node} {e : Expr} : n.expr? = some e ↔ n = expr e := by
  cases n <;> simp [expr?]

theorem mem_expressions {n : Node} {e : Expr} : e ∈ n.expressions ↔ n.Contains (.expr e) := by
  have hstep : ∀ n : Node,
      e ∈ n.expressions ↔ n.expr? = some e ∨ ∃ c ∈ n.children, e ∈ c.expressions := by
    intro n
    rw [expressions_eq, List.mem_append, List.mem_flatMap, Option.mem_toList, or_comm]
  rw [iff_exists_part hstep n]
  constructor
  · rintro ⟨m, hm, he⟩
    exact expr?_eq_some.1 he ▸ hm
  · exact fun h => ⟨_, h, rfl⟩

/-- No expression is listed twice where no number stands twice. -/
theorem sublist_expressions (n : Node) : (n.expressions.map (·.mark.id)).Sublist n.ids := by
  induction n using child_induction with
  | step n ih =>
    rw [expressions_eq, ids_eq, List.map_append, List.map_flatMap]
    refine (List.Sublist.flatMap_right _ ih).append ?_
    cases hself : n.expr? with
    | none => exact List.nil_sublist _
    | some e =>
      rw [expr?_eq_some.1 hself]
      exact List.Sublist.refl _

/-! ## Declarations -/

def declarations : Node → List Decl
  | command c => c.declarations
  | decl d => d.singles
  | _ => []

/-- The node as a declaration, if it is a single one. -/
def single? : Node → Option Decl
  | decl (.const m name value) => some (.const m name value)
  | decl (.var m name denoter) => some (.var m name denoter)
  | _ => none

theorem mem_declarations_step (n : Node) (d : Decl) : d ∈ n.declarations ↔
    n.single? = some d ∨ ∃ c ∈ n.children, d ∈ c.declarations := by
  cases n with
  | command c =>
    cases c <;> simp [declarations, single?, children, Command.children, Command.declarations]
  | decl d =>
    cases d <;> simp [declarations, single?, children, Decl.children, Decl.singles, eq_comm]
  | type d => simp [declarations, single?, children]
  | param p => cases p <;> simp [declarations, single?, children, Param.children]
  | expr e => cases e <;> simp [declarations, single?, children, Expr.children]
  | ident i => simp [declarations, single?, children]
  | operator o => simp [declarations, single?, children]

theorem mem_declarations {n : Node} {d : Decl} :
    d ∈ n.declarations ↔ ∃ m, n.Contains m ∧ m.single? = some d :=
  iff_exists_part (fun n => mem_declarations_step n d) n

end Node

end TriLang
