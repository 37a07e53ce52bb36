import Mathlib.Data.List.Flatten
import TriLang.Proofs.Syntax.Parts
import TriLang.Proofs.Typing.Walks

/-! # The names that the checker looks up

A name is looked up for its type where it is an expression, the target of an assignment or a `var`
parameter. `Command.uses` lists these uses with the states in which the checker comes to them, and
`Command.lookups` is the same list without the states, which says which parts of the tree they are
(`Node.mem_lookups`). The constants without a type that the checker reports are those of the uses, one by
one (`Command.check_rejects`). -/
namespace TriLang
set_option autoImplicit false

/-! ## Lookups -/

/-- Whether the name has to be that of a value, or that of a variable to write to. -/
inductive Role where
  | value
  | variable
deriving DecidableEq

structure Lookup where
  role : Role
  ident : Ident

def Expr.lookups : Expr → List Lookup
  | binary _ _ lhs rhs => lhs.lookups ++ rhs.lookups
  | unary _ _ operand => operand.lookups
  | name _ ident => [⟨.value, ident⟩]
  | int _ _ => []
  | char _ _ => []
  | error _ => []

def Param.lookups : Param → List Lookup
  | value _ expr => expr.lookups
  | reference _ ident => [⟨.variable, ident⟩]
  | blank _ => []
  | error _ => []

def Decl.lookups : Decl → List Lookup
  | const _ _ value => value.lookups
  | var _ _ _ => []
  | seq _ first second => first.lookups ++ second.lookups
  | error _ => []

def Command.lookups : Command → List Lookup
  | assign _ target value => ⟨.variable, target⟩ :: value.lookups
  | call _ _ param => param.lookups
  | cond _ c thenBranch elseBranch => c.lookups ++ (thenBranch.lookups ++ elseBranch.lookups)
  | whileDo _ c body rest => c.lookups ++ (body.lookups ++ rest.lookups)
  | doWhile _ body c => body.lookups ++ c.lookups
  | letIn _ decl body rest => decl.lookups ++ (body.lookups ++ rest.lookups)
  | seq _ first second => first.lookups ++ second.lookups
  | blank _ => []
  | error _ => []

namespace Node

def lookups : Node → List Lookup
  | command c => c.lookups
  | decl d => d.lookups
  | param p => p.lookups
  | expr e => e.lookups
  | _ => []

/-- The lookup of a name that stands immediately below the node. -/
def lookup? : Node → Option Lookup
  | expr (.name _ i) => some ⟨.value, i⟩
  | command (.assign _ target _) => some ⟨.variable, target⟩
  | param (.reference _ i) => some ⟨.variable, i⟩
  | _ => none

theorem lookups_eq (n : Node) : n.lookups = n.lookup?.toList ++ n.children.flatMap lookups := by
  cases n with
  | command c =>
    cases c <;> simp [lookups, lookup?, children, Command.children, Command.lookups]
  | decl d => cases d <;> simp [lookups, lookup?, children, Decl.children, Decl.lookups]
  | type d => rfl
  | param p => cases p <;> simp [lookups, lookup?, children, Param.children, Param.lookups]
  | expr e => cases e <;> simp [lookups, lookup?, children, Expr.children, Expr.lookups]
  | ident i => rfl
  | operator o => rfl

theorem mem_lookups {n : Node} {l : Lookup} :
    l ∈ n.lookups ↔ ∃ m, n.Contains m ∧ m.lookup? = some l := by
  have hstep : ∀ n : Node,
      l ∈ n.lookups ↔ n.lookup? = some l ∨ ∃ c ∈ n.children, l ∈ c.lookups := by
    intro n
    rw [lookups_eq, List.mem_append, List.mem_flatMap, Option.mem_toList]
  exact iff_exists_part hstep n

theorem children_of_lookup? {n : Node} {l : Lookup} (h : n.lookup? = some l) :
    ∃ more, n.children = .ident l.ident :: more := by
  cases n with
  | command c =>
    cases c with
    | assign m target value =>
      obtain rfl := Option.some.inj h
      exact ⟨_, rfl⟩
    | _ => simp [lookup?] at h
  | param p =>
    cases p with
    | reference m i =>
      obtain rfl := Option.some.inj h
      exact ⟨_, rfl⟩
    | _ => simp [lookup?] at h
  | expr e =>
    cases e with
    | name m i =>
      obtain rfl := Option.some.inj h
      exact ⟨_, rfl⟩
    | _ => simp [lookup?] at h
  | _ => simp [lookup?] at h

/-- The names that are looked up stand in the tree in the order of the list. -/
theorem sublist_lookups (n : Node) : (n.lookups.map (·.ident.id)).Sublist n.ids := by
  induction n using child_induction with
  | step n ih =>
    have hbelow := List.Sublist.flatMap_right n.children ih
    rw [lookups_eq, ids_eq, List.map_append, List.map_flatMap]
    refine List.Sublist.trans ?_ (List.sublist_append_left _ _)
    cases hown : n.lookup? with
    | none => exact hbelow
    | some l =>
      -- Nothing is looked up below a name.
      obtain ⟨more, hmore⟩ := children_of_lookup? hown
      rw [hmore] at hbelow ⊢
      exact (List.Sublist.flatMap_right more fun c hc => ih c (by simp [hmore, hc])).cons_cons _

end Node

/-! ## Uses -/

/-- A lookup and the state in which the checker comes to it. -/
structure Use extends Lookup where
  state : Typing

section
variable (r : Resolution)

def Expr.uses : Expr → Typing → List Use
  | binary _ _ lhs rhs, t => lhs.uses t ++ rhs.uses (lhs.check r t).after
  | unary _ _ operand, t => operand.uses t
  | name _ ident, t => [⟨⟨.value, ident⟩, t⟩]
  | int _ _, _ => []
  | char _ _, _ => []
  | error _, _ => []

/-- A `var` parameter is looked up in the state of the call, if it is looked up at all. -/
def callUses (callee : Ident) (p : Param) (t : Typing) : List Use :=
  match p with
  | .value _ expr => expr.uses r (argumentState r callee p t)
  | .reference _ ident => [⟨⟨.variable, ident⟩, t⟩]
  | .blank _ => []
  | .error _ => []

def Decl.uses : Decl → Typing → List Use
  | const _ _ value, t => value.uses r t
  | var _ _ _, _ => []
  | seq _ first second, t => first.uses t ++ second.uses (first.check r t)
  | error _, _ => []

def Command.uses : Command → Typing → List Use
  | assign _ target value, t =>
    ⟨⟨.variable, target⟩, t⟩ :: value.uses r (checkVariable r target t).2
  | call _ callee param, t => callUses r callee param t
  | cond _ c thenBranch elseBranch, t =>
    c.uses r t ++ (thenBranch.uses (c.checkCondition r t) ++
      elseBranch.uses (thenBranch.check r (c.checkCondition r t)))
  | whileDo _ c body rest, t =>
    c.uses r t ++ (body.uses (c.checkCondition r t) ++
      rest.uses (body.check r (c.checkCondition r t)))
  | doWhile _ body c, t => body.uses t ++ c.uses r (body.check r t)
  | letIn _ decl body rest, t =>
    decl.uses r t ++ (body.uses (decl.check r t) ++ rest.uses (body.check r (decl.check r t)))
  | seq _ first second, t => first.uses t ++ second.uses (first.check r t)
  | blank _, _ => []
  | error _, _ => []

theorem Expr.map_uses (e : Expr) (t : Typing) : (e.uses r t).map Use.toLookup = e.lookups := by
  induction e generalizing t with
  | binary m op lhs rhs ihl ihr => rw [uses, List.map_append, ihl, ihr, lookups]
  | unary m op operand ih => exact ih t
  | _ => rfl

theorem map_callUses (callee : Ident) (p : Param) (t : Typing) :
    (callUses r callee p t).map Use.toLookup = p.lookups := by
  cases p with
  | value m expr => exact expr.map_uses r _
  | _ => rfl

theorem Decl.map_uses (d : Decl) (t : Typing) : (d.uses r t).map Use.toLookup = d.lookups := by
  induction d generalizing t with
  | const m name value => exact value.map_uses r t
  | seq m first second ihf ihs => rw [uses, List.map_append, ihf, ihs, lookups]
  | _ => rfl

theorem Command.map_uses (c : Command) (t : Typing) :
    (c.uses r t).map Use.toLookup = c.lookups := by
  induction c generalizing t with
  | assign m target value => exact congrArg _ (value.map_uses r _)
  | call m callee param => exact map_callUses r callee param t
  | cond m c thenBranch elseBranch iht ihe =>
    rw [uses, List.map_append, List.map_append, c.map_uses, iht, ihe, lookups]
  | whileDo m c body rest ihb ihr =>
    rw [uses, List.map_append, List.map_append, c.map_uses, ihb, ihr, lookups]
  | doWhile m body c ih => rw [uses, List.map_append, c.map_uses, ih, lookups]
  | letIn m decl body rest ihb ihr =>
    rw [uses, List.map_append, List.map_append, decl.map_uses, ihb, ihr, lookups]
  | seq m first second ihf ihs => rw [uses, List.map_append, ihf, ihs, lookups]
  | _ => rfl

/-- The uses are the names that stand where something is looked up. -/
theorem Command.mem_uses (c : Command) (t : Typing) (l : Lookup) :
    (∃ u ∈ c.uses r t, u.toLookup = l) ↔ ∃ n, (Node.command c).Contains n ∧ n.lookup? = some l := by
  rw [← Node.mem_lookups, Node.lookups, ← c.map_uses r t, List.mem_map]

theorem Command.sublist_uses (c : Command) (t : Typing) :
    ((c.uses r t).map (·.ident.id)).Sublist c.ids := by
  have hlookups := Node.sublist_lookups (.command c)
  rwa [Node.lookups, ← c.map_uses r t, List.map_map] at hlookups

/-- A name that is looked up is a part of the tree. -/
theorem Command.contains_of_uses {c : Command} {t : Typing} {u : Use} (hu : u ∈ c.uses r t) :
    (Node.command c).Contains (.ident u.ident) := by
  obtain ⟨n, hn, hlookup⟩ := (c.mem_uses r t _).1 ⟨u, hu, rfl⟩
  obtain ⟨more, hmore⟩ := Node.children_of_lookup? hlookup
  exact hn.child (by simp [hmore])

theorem Expr.mem_uses_name (e : Expr) (t : Typing) {m : Mark} {ident : Ident}
    (h : (Node.expr e).Contains (.expr (.name m ident))) :
    ∃ u ∈ e.uses r t, u.toLookup = ⟨.value, ident⟩ := by
  have hlookup : (⟨.value, ident⟩ : Lookup) ∈ (Node.expr e).lookups := Node.mem_lookups.2 ⟨_, h, rfl⟩
  rwa [Node.lookups, ← e.map_uses r t, List.mem_map] at hlookup

end

/-! ## Constants without a type -/

open Typing

/-- Whether a constant without a type is reported. -/
def TypeError.isRecursive (e : TypeError) : Bool :=
  match e.cause with
  | .recursiveConstant _ => true
  | _ => false

/-- The errors about constants without a type. -/
def Typing.recursive (t : Typing) : List TypeError := t.errors.filter TypeError.isRecursive

/-- The error about a constant that is used in its own value. -/
def Ident.rejection (ident : Ident) : TypeError := ⟨.recursiveConstant ident.name, ident.span⟩

/-- The use comes before the type of the constant or variable that it is one of. -/
def Use.IsEarly (r : Resolution) (u : Use) : Prop :=
  ∃ k ∈ r.typedSymbol? u.ident, k ∉ u.state.symbolTypes

instance (r : Resolution) (u : Use) : Decidable (u.IsEarly r) :=
  inferInstanceAs (Decidable (∃ k ∈ r.typedSymbol? u.ident, k ∉ u.state.symbolTypes))

/-- What is reported of the uses, in that order. -/
def rejections (r : Resolution) (uses : List Use) : List TypeError :=
  (uses.filter fun u => u.role = .value ∧ u.IsEarly r).map (·.ident.rejection)

/-- What is reported of constants without a type between the two states is what is reported of the uses. -/
def Typing.Rejects (r : Resolution) (t : Typing) (uses : List Use) (u : Typing) : Prop :=
  u.recursive = t.recursive ++ rejections r uses

section
variable {r : Resolution} {t u v : Typing} {front back : List Use}

namespace Typing.Rejects

theorem append (h : Rejects r t front u) (h' : Rejects r u back v) :
    Rejects r t (front ++ back) v := by
  unfold Rejects rejections at *
  rw [h', h, List.append_assoc, List.filter_append, List.map_append]

theorem of_adds (h : Adds (fun e => e.isRecursive = false) t u) : Rejects r t [] u := by
  obtain ⟨more, hmore, hall⟩ := h.errors
  have hnone : more.filter TypeError.isRecursive = [] := by simpa [List.filter_eq_nil_iff] using hall
  unfold Rejects recursive
  rw [hmore, List.filter_append, hnone]
  rfl

/-- Nothing of the kind is reported of a name that has to be a variable. -/
theorem of_variable (h : Adds (fun e => e.isRecursive = false) t u) (ident : Ident) (s : Typing) :
    Rejects r t [⟨⟨.variable, ident⟩, s⟩] u := of_adds (r := r) h

theorem andAdds (h : Rejects r t front u) (h' : Adds (fun e => e.isRecursive = false) u v) :
    Rejects r t front v := by
  have hboth := h.append (of_adds h')
  rwa [List.append_nil] at hboth

theorem record {j : Judged} (h : Rejects r t front j.after) (node : Nat) :
    Rejects r t front (j.record node).after := h

theorem recordDeclared (h : Rejects r t front u) (decl : Nat) (type : Ty) :
    Rejects r t front (u.recordDeclared r decl type) := by
  unfold Rejects recursive at *
  rw [errors_recordDeclared, h]

end Typing.Rejects

theorem rejections_value (ident : Ident) (t : Typing) : rejections r [⟨⟨.value, ident⟩, t⟩] =
    if Use.IsEarly r ⟨⟨.value, ident⟩, t⟩ then [ident.rejection] else [] := by
  unfold rejections
  split
  · next hearly => simp [hearly]
  · next hearly => simp [hearly]

theorem checkValue_rejects (ident : Ident) (t : Typing) :
    Rejects r t [⟨⟨.value, ident⟩, t⟩] (checkValue r ident t).after := by
  unfold Rejects
  rw [rejections_value]
  cases hk : r.typedSymbol? ident with
  | none =>
    -- Whatever is reported of such a name is that it is no value.
    rw [if_neg (by simp [Use.IsEarly, hk])]
    exact Rejects.of_adds (r := r)
      (adds_checkValue r t (fun k hk' => by simp [hk] at hk') fun _ => rfl)
  | some k =>
    by_cases hmem : k ∈ t.symbolTypes
    · obtain ⟨type, htype⟩ := Option.isSome_iff_exists.1 (Std.TreeMap.mem_iff_isSome_getElem?.1 hmem)
      rw [if_neg (by simp [Use.IsEarly, hk, hmem]), checkValue_typed hk htype, List.append_nil]
    · rw [if_pos (by simp [Use.IsEarly, hk, hmem]), checkValue_untyped hk (by simpa using hmem)]
      exact List.filter_append _ _

/-! ## Trees -/

theorem Expr.check_rejects (e : Expr) (t : Typing) :
    Rejects r t (e.uses r t) (e.check r t).after := by
  induction e generalizing t with
  | binary m op lhs rhs ihl ihr =>
    exact (((ihl t).append (ihr _)).andAdds
      (adds_checkBinary r _ rfl (fun _ => rfl) (fun _ => rfl) rfl)).record m.id
  | unary m op operand ih =>
    exact ((ih t).andAdds (adds_checkUnary r _ (fun _ => rfl) rfl)).record m.id
  | int m spelling => exact (Rejects.of_adds (adds_checkInt t rfl)).record m.id
  | char m value => exact (Rejects.of_adds (adds_checkChar t rfl)).record m.id
  | name m ident => exact (checkValue_rejects ident t).record m.id
  | error m => exact Rejects.record (j := ⟨.error, t⟩) (.of_adds (.refl t)) m.id

theorem Expr.checkCondition_rejects (e : Expr) (t : Typing) :
    Rejects r t (e.uses r t) (e.checkCondition r t) :=
  (e.check_rejects t).andAdds (adds_expect _ rfl)

theorem Decl.check_rejects (d : Decl) (t : Typing) : Rejects r t (d.uses r t) (d.check r t) := by
  induction d generalizing t with
  | const m name value => exact (value.check_rejects t).recordDeclared m.id _
  | var m name type => exact (Rejects.of_adds (type.adds_check r t rfl)).recordDeclared m.id _
  | seq m first second ihf ihs => exact (ihf t).append (ihs _)
  | error m => exact .of_adds (.refl t)

theorem CallError.isRecursive_eq {callee : Ident} {p : Param} :
    ∀ e, CallError callee p e → e.isRecursive = false := by
  rintro e (_ | _ | _ | _ | _ | _) <;> rfl

theorem checkCall_rejects (callee : Ident) (p : Param) (t : Typing) :
    Rejects r t (callUses r callee p t) (checkCall r callee p t) := by
  cases p with
  | value m e =>
    have hbefore := (adds_argumentState (r := r) callee (.value m e) t).mono CallError.isRecursive_eq
    exact (Rejects.of_adds hbefore).append
      ((e.check_rejects _).andAdds ((adds_checkCall_value callee m e t).mono CallError.isRecursive_eq))
  | reference m ident =>
    have hcall := (adds_checkCall (r := r) callee (p := .reference m ident) (by simp) t).mono
      CallError.isRecursive_eq
    exact .of_variable hcall ident t
  | blank m => exact .of_adds ((adds_checkCall callee (by simp) t).mono CallError.isRecursive_eq)
  | error m => exact .of_adds ((adds_checkCall callee (by simp) t).mono CallError.isRecursive_eq)

theorem checkAssign_rejects (target : Ident) (value : Expr) (t : Typing) :
    Rejects r t (⟨⟨.variable, target⟩, t⟩ :: value.uses r (checkVariable r target t).2)
      (checkAssign r target value t) := by
  refine Rejects.append (.of_variable (adds_checkVariable r t target rfl) target t) ?_
  unfold checkAssign
  dsimp only
  split
  · exact (value.check_rejects _).andAdds (adds_expect _ rfl)
  · exact value.check_rejects _

/-- What is reported of constants without a type is what is reported of the uses, in their order. -/
theorem Command.check_rejects (c : Command) (t : Typing) :
    Rejects r t (c.uses r t) (c.check r t) := by
  induction c generalizing t with
  | assign m target value => exact checkAssign_rejects target value t
  | call m callee param => exact checkCall_rejects callee param t
  | cond m c thenBranch elseBranch iht ihe =>
    exact (c.checkCondition_rejects t).append ((iht _).append (ihe _))
  | whileDo m c body rest ihb ihr =>
    exact (c.checkCondition_rejects t).append ((ihb _).append (ihr _))
  | doWhile m body c ih => exact (ih t).append (c.checkCondition_rejects _)
  | letIn m decl body rest ihb ihr => exact (decl.check_rejects t).append ((ihb _).append (ihr _))
  | seq m first second ihf ihs => exact (ihf t).append (ihs _)
  | blank m => exact .of_adds (.refl t)
  | error m => exact .of_adds (.refl t)

end

end TriLang
