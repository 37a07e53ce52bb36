import Mathlib.Data.List.Flatten
import TriLang.Proofs.Scoping.Runs

/-! # Resolution as a walk

`Command.walk` lists what resolution does in a command, and resolving the command is running through that
list (`Command.resolve_eq_run`). The list declares what the command declares, in the same order; it applies
the applied occurrences of the tree (`Node.mem_leaves_walk`), and no leaf twice (`Command.sublist_leaves`). -/
namespace TriLang
set_option autoImplicit false

open Resolving

/-! ## The events of a tree -/

def Expr.walk : Expr → List Event
  | binary _ op lhs rhs => lhs.walk ++ .apply op.toLeaf :: rhs.walk
  | unary _ op operand => .apply op.toLeaf :: operand.walk
  | name _ ident => [.apply ident.toLeaf]
  | int _ _ => []
  | char _ _ => []
  | error _ => []

def Param.walk : Param → List Event
  | value _ expr => expr.walk
  | reference _ ident => [.apply ident.toLeaf]
  | blank _ => []
  | error _ => []

def Decl.walk : Decl → List Event
  | const m name value => .declare ⟨m.id, name, .const none⟩ :: value.walk
  | var m name type => [.apply type.name.toLeaf, .declare ⟨m.id, name, .var⟩]
  | seq _ first second => first.walk ++ second.walk
  | error _ => []

def Command.walk : Command → List Event
  | assign _ target value => .apply target.toLeaf :: value.walk
  | call _ callee param => .apply callee.toLeaf :: param.walk
  | cond _ c thenBranch elseBranch => c.walk ++ (thenBranch.walk ++ elseBranch.walk)
  | whileDo _ c body rest => .openScope :: (c.walk ++ (body.walk ++ (rest.walk ++ [.closeScope])))
  | doWhile _ body c => body.walk ++ c.walk
  | letIn _ decl body rest => .openScope :: (decl.walk ++ (body.walk ++ .closeScope :: rest.walk))
  | seq _ first second => first.walk ++ second.walk
  | blank _ => []
  | error _ => []

theorem Expr.resolve_eq_run (e : Expr) (s : Resolving) : e.resolve s = s.run e.walk := by
  induction e generalizing s with
  | binary m op lhs rhs ihl ihr =>
    rw [resolve, walk, run_append, run_cons, ihr, ihl]
    rfl
  | unary m op operand ih =>
    rw [resolve, walk, run_cons, ih]
    rfl
  | _ => rfl

theorem Param.resolve_eq_run (p : Param) (s : Resolving) : p.resolve s = s.run p.walk := by
  cases p with
  | value m expr => exact expr.resolve_eq_run s
  | _ => rfl

theorem Decl.resolve_eq_run (d : Decl) (s : Resolving) : d.resolve s = s.run d.walk := by
  induction d generalizing s with
  | const m name value => exact value.resolve_eq_run _
  | seq m first second ihf ihs => rw [resolve, walk, run_append, ihf, ihs]
  | _ => rfl

theorem Command.resolve_eq_run (c : Command) (s : Resolving) : c.resolve s = s.run c.walk := by
  induction c generalizing s with
  | assign m target value => exact value.resolve_eq_run _
  | call m callee param => exact param.resolve_eq_run _
  | cond m c thenBranch elseBranch iht ihe =>
    rw [resolve, walk, run_append, run_append, ihe, iht, c.resolve_eq_run]
  | whileDo m c body rest ihb ihr =>
    rw [resolve, walk, run_cons, run_append, run_append, run_append, ihr, ihb, c.resolve_eq_run]
    rfl
  | doWhile m body c ih => rw [resolve, walk, run_append, c.resolve_eq_run, ih]
  | letIn m decl body rest ihb ihr =>
    rw [resolve, walk, run_cons, run_append, run_append, run_cons, ihr, ihb, decl.resolve_eq_run]
    rfl
  | seq m first second ihf ihs => rw [resolve, walk, run_append, ihs, ihf]
  | _ => rfl

/-! ## Leaves and declarations -/

theorem Expr.declarations_walk (e : Expr) : declarations e.walk = [] := by
  induction e with
  | _ => simp_all [walk]

theorem Param.declarations_walk (p : Param) : declarations p.walk = [] := by
  cases p with
  | value m expr => exact expr.declarations_walk
  | _ => rfl

theorem Decl.declarations_walk (d : Decl) : declarations d.walk = d.declared := by
  induction d with
  | const m name value => simp [walk, declared, value.declarations_walk]
  | _ => simp_all [walk, declared]

theorem Command.declarations_walk (c : Command) : declarations c.walk = c.declared := by
  induction c with
  | assign m target value => exact value.declarations_walk
  | call m callee param => exact param.declarations_walk
  | letIn m decl body rest ihb ihr => simp [walk, declared, decl.declarations_walk, ihb, ihr]
  | _ => simp_all [walk, declared, Expr.declarations_walk]

namespace Node

def walk : Node → List Event
  | command c => c.walk
  | decl d => d.walk
  | type d => [.apply d.name.toLeaf]
  | param p => p.walk
  | expr e => e.walk
  | ident _ => []
  | operator _ => []

theorem mem_leaves_walk_step (n : Node) (leaf : Leaf) :
    leaf ∈ leaves n.walk ↔ leaf ∈ n.uses ∨ ∃ c ∈ n.children, leaf ∈ leaves c.walk := by
  cases n with
  | command c =>
    cases c <;> simp [walk, Command.walk, uses, children, Command.children, leaf?]
  | decl d => cases d <;> simp [walk, Decl.walk, uses, children, Decl.children]
  | type d => simp [walk, uses, children, leaf?]
  | param p => cases p <;> simp [walk, Param.walk, uses, children, Param.children, leaf?]
  | expr e =>
    cases e <;>
      simp [walk, Expr.walk, uses, children, Expr.children, leaf?, or_left_comm, eq_comm (a := leaf)]
  | ident i => simp [walk, uses, children]
  | operator o => simp [walk, uses, children]

/-- The leaves that a walk applies are the applied occurrences of the tree. -/
theorem mem_leaves_walk {n : Node} {leaf : Leaf} : leaf ∈ leaves n.walk ↔ n.Applies leaf :=
  iff_exists_part (fun n => mem_leaves_walk_step n leaf) n

end Node

/-! ## No leaf comes twice -/

namespace Node

/-- What a walk through a node applies at one of its children, or below it. -/
def leavesAt (n c : Node) : List Leaf :=
  match n with
  | decl _ => leaves c.walk
  | _ => c.leaf?.toList ++ leaves c.walk

theorem leaves_walk_eq (n : Node) : leaves n.walk = n.children.flatMap n.leavesAt := by
  cases n with
  | command c =>
    cases c <;> simp [walk, Command.walk, children, Command.children, leavesAt, leaf?]
  | decl d => cases d <;> simp [walk, Decl.walk, children, Decl.children, leavesAt]
  | type d => rfl
  | param p => cases p <;> simp [walk, Param.walk, children, Param.children, leavesAt, leaf?]
  | expr e => cases e <;> simp [walk, Expr.walk, children, Expr.children, leavesAt, leaf?]
  | ident i => rfl
  | operator o => rfl

theorem leavesAt_cases (n : Node) {c : Node} :
    n.leavesAt c = leaves c.walk ∨ n.leavesAt c = c.leaf?.toList ++ leaves c.walk := by
  unfold leavesAt
  split
  · exact .inl rfl
  · exact .inr rfl

/-- The leaves of a walk stand in the tree in the order in which they are applied. -/
theorem sublist_leaves (n : Node) : ((leaves n.walk).map (·.id)).Sublist n.ids := by
  induction n using child_induction with
  | step n ih =>
    rw [leaves_walk_eq, ids_eq, List.map_flatMap]
    refine (List.Sublist.flatMap_right _ fun c hc => ?_).trans (List.sublist_append_left _ _)
    rcases n.leavesAt_cases (c := c) with hbelow | hhere
    · rw [hbelow]
      exact ih c hc
    · rw [hhere]
      cases hleaf : c.leaf? with
      | none => exact ih c hc
      | some leaf =>
        -- A leaf has nothing below it.
        obtain ⟨hmark, -, hchildren⟩ := leaf?_eq_some hleaf
        rw [leaves_walk_eq, ids_eq, hchildren, Node.id, hmark]
        exact List.Sublist.refl _

end Node

theorem Command.sublist_leaves (c : Command) : ((leaves c.walk).map (·.id)).Sublist c.ids :=
  Node.sublist_leaves (.command c)

end TriLang
