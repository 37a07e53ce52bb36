import Mathlib.Logic.Equiv.Basic
import TriLang.Types
import TriLang.Proofs.Syntax.Parts

/-! # Other names for the same things

A `Renaming` gives every identifier another one, different ones to different identifiers, and lets the names
of the standard environment be. As a function on all spellings (`Renaming.apply`) it changes nothing that is
not an identifier, so it is still injective. A tree is renamed at its names; its marks, literals and operators
stay as they are. The two agree on operators if none of them is spelled like an identifier
(`Node.OperatorsApart`). -/
namespace TriLang
set_option autoImplicit false

/-! ## Identifiers -/

/-- A letter with letters and digits behind it. -/
def isIdentifier (s : String) : Bool :=
  match s.toList with
  | [] => false
  | c :: tail => c.isAlpha && tail.all Char.isAlphanum

abbrev Identifier : Type := { s : String // isIdentifier s = true }

/-- Whether a name is one of the standard environment. -/
def isStandard (name : String) : Bool := standardEnvironment.any (·.1 = name)

/-! ## Renamings -/

structure Renaming where
  map : Identifier → Identifier
  injective : Function.Injective map
  standard : ∀ name, isStandard name.1 = true → map name = name

namespace Renaming

/-- Two identifiers change places, neither of them one of the standard environment. -/
def swap (a b : Identifier) (ha : isStandard a.1 = false) (hb : isStandard b.1 = false) : Renaming where
  map := Equiv.swap a b
  injective := (Equiv.swap a b).injective
  standard name h := by
    refine Equiv.swap_apply_of_ne_of_ne ?_ ?_
    · rintro rfl
      simp [ha] at h
    · rintro rfl
      simp [hb] at h

variable (ρ : Renaming)

/-- What a spelling is changed to: an identifier to its new name, and anything else not at all. -/
def apply (spelling : String) : String :=
  if h : isIdentifier spelling = true then (ρ.map ⟨spelling, h⟩).1 else spelling

theorem apply_identifier (name : Identifier) : ρ.apply name.1 = (ρ.map name).1 := dif_pos name.2

theorem apply_other {spelling : String} (h : isIdentifier spelling = false) :
    ρ.apply spelling = spelling := dif_neg (by simp [h])

theorem isIdentifier_apply (spelling : String) :
    isIdentifier (ρ.apply spelling) = isIdentifier spelling := by
  cases h : isIdentifier spelling with
  | true =>
    rw [ρ.apply_identifier ⟨spelling, h⟩]
    exact (ρ.map ⟨spelling, h⟩).2
  | false => rw [ρ.apply_other h, h]

theorem apply_injective : Function.Injective ρ.apply := by
  intro a b hab
  have hclass : isIdentifier a = isIdentifier b := by
    rw [← ρ.isIdentifier_apply a, hab, ρ.isIdentifier_apply b]
  cases ha : isIdentifier a with
  | true =>
    have hb : isIdentifier b = true := hclass ▸ ha
    rw [ρ.apply_identifier ⟨a, ha⟩, ρ.apply_identifier ⟨b, hb⟩] at hab
    exact congrArg Subtype.val (ρ.injective (Subtype.ext hab))
  | false =>
    have hb : isIdentifier b = false := hclass ▸ ha
    rwa [ρ.apply_other ha, ρ.apply_other hb] at hab

theorem apply_standard {name : String} (h : isStandard name = true) : ρ.apply name = name := by
  cases hname : isIdentifier name with
  | true =>
    rw [ρ.apply_identifier ⟨name, hname⟩]
    exact congrArg Subtype.val (ρ.standard ⟨name, hname⟩ h)
  | false => exact ρ.apply_other hname

end Renaming

/-! ## Renamed trees -/

section Trees
variable (ρ : Renaming)

def Ident.rename (i : Ident) : Ident := ⟨i.toMark, ρ.apply i.name⟩

def TypeDenoter.rename (d : TypeDenoter) : TypeDenoter := ⟨d.toMark, d.name.rename ρ⟩

/-- The expression with every name changed. -/
@[simp] def Expr.rename : Expr → Expr
  | binary m op lhs rhs => binary m op lhs.rename rhs.rename
  | unary m op operand => unary m op operand.rename
  | int m spelling => int m spelling
  | char m value => char m value
  | name m ident => name m (ident.rename ρ)
  | error m => error m

def Param.rename : Param → Param
  | value m expr => value m (expr.rename ρ)
  | reference m ident => reference m (ident.rename ρ)
  | blank m => blank m
  | error m => error m

@[simp] def Decl.rename : Decl → Decl
  | const m name value => const m (name.rename ρ) (value.rename ρ)
  | var m name type => var m (name.rename ρ) (type.rename ρ)
  | seq m first second => seq m first.rename second.rename
  | error m => error m

@[simp] def Command.rename : Command → Command
  | assign m target value => assign m (target.rename ρ) (value.rename ρ)
  | call m callee param => call m (callee.rename ρ) (param.rename ρ)
  | cond m c thenBranch elseBranch => cond m (c.rename ρ) thenBranch.rename elseBranch.rename
  | whileDo m c body rest => whileDo m (c.rename ρ) body.rename rest.rename
  | doWhile m body c => doWhile m body.rename (c.rename ρ)
  | letIn m decl body rest => letIn m (decl.rename ρ) body.rename rest.rename
  | seq m first second => seq m first.rename second.rename
  | blank m => blank m
  | error m => error m

def Program.rename (p : Program) : Program := ⟨p.command.rename ρ, p.span⟩

theorem Expr.span_rename (e : Expr) : (e.rename ρ).span = e.span := by
  cases e <;> rfl

theorem Param.span_rename (p : Param) : (p.rename ρ).span = p.span := by
  cases p <;> rfl

end Trees

/-! ## Operators -/

namespace Node

/-- No operator of the tree is spelled like an identifier. -/
def OperatorsApart (n : Node) : Prop :=
  ∀ op, n.Contains (.operator op) → isIdentifier op.spelling = false

theorem OperatorsApart.child {n c : Node} (h : n.OperatorsApart) (hc : c ∈ n.children) :
    c.OperatorsApart := fun op hop => h op (.inside hc hop)

theorem OperatorsApart.self {op : Operator} (h : (Node.operator op).OperatorsApart) :
    isIdentifier op.spelling = false := h op (.here _)

end Node

end TriLang
