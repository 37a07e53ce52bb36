import TriLang.Proofs.Parsing.Grammar

/-! # Every derivable word has an innermost derivation

In a derivation a `;` may belong to a list although a list inside it is still open there. `attach` puts
what stands behind such a `;` at the end of the innermost open list, and `reattached` does so throughout,
from the left. The word stays the same and every `;` belongs to the innermost open list afterwards. -/
namespace TriLang.CommandDerivation
set_option autoImplicit false

/-- The derivation with `;` and one more command at its end, in the innermost list that is open there. A
single command without an open list stays as it is. -/
def attach {x : Extent} : CommandDerivation x → CommandDerivation .item → CommandDerivation x
  | letIn decl body rest, last => letIn decl body (rest.attach last)
  | whileDo c body rest, last => whileDo c body (rest.attach last)
  | cond c thenBranch elseBranch, last => cond c thenBranch (elseBranch.attach last)
  | single first, last =>
    if first.openEnded then single (first.attach last) else seq (single first) last
  | seq front prev, last =>
    if prev.openEnded then seq front (prev.attach last) else seq (seq front prev) last
  | D, _ => D

/-- The derivation of the same word in which every `;` belongs to the innermost open list. -/
def reattached {x : Extent} : CommandDerivation x → CommandDerivation x
  | assign target value => assign target value
  | call callee param => call callee param
  | block inner => block inner.reattached
  | letIn decl body rest => letIn decl body.reattached rest.reattached
  | cond c thenBranch elseBranch => cond c thenBranch.reattached elseBranch.reattached
  | whileDo c body rest => whileDo c body.reattached rest.reattached
  | doWhile body c => doWhile body.reattached c
  | pass => pass
  | empty => empty
  | single first => single first.reattached
  | seq front last => front.reattached.attach last.reattached

/-- Whether `;` and a further command can be put at the end of a derivation: that of a list always, that
of a single command if it leaves a list open. -/
def Attachable : {x : Extent} → CommandDerivation x → Prop
  | .item, D => D.openEnded = true
  | .chain, _ => True

theorem yield_attach {x : Extent} (D : CommandDerivation x) (last : CommandDerivation .item)
    (h : D.Attachable) : (D.attach last).yield = D.yield ++ .fixed .semicolon :: last.yield := by
  induction D with
  | letIn decl body rest _ ih => simp [attach, yield, ih trivial]
  | whileDo c body rest _ ih => simp [attach, yield, ih trivial]
  | cond c thenBranch elseBranch _ ih => simp [attach, yield, ih h]
  | single first ih =>
    rw [attach]
    split
    · next hopen => exact ih hopen
    · rfl
  | seq front prev _ ih =>
    rw [attach]
    split
    · next hopen => simp [yield, ih hopen]
    · rfl
  | _ => simp [Attachable, openEnded] at h

theorem innermost_attach {x : Extent} (D : CommandDerivation x) (last : CommandDerivation .item)
    (hD : D.Innermost) (hlast : last.Innermost) : (D.attach last).Innermost := by
  induction D with
  | letIn decl body rest _ ih => exact ⟨hD.1, ih hD.2⟩
  | whileDo c body rest _ ih => exact ⟨hD.1, ih hD.2⟩
  | cond c thenBranch elseBranch _ ih => exact ⟨hD.1, ih hD.2⟩
  | single first ih =>
    rw [attach]
    split
    · exact ih hD
    · next hopen => exact ⟨by simpa [openEnded] using hopen, hD, hlast⟩
  | seq front prev _ ih =>
    rw [attach]
    split
    · exact ⟨hD.1, hD.2.1, ih hD.2.2⟩
    · next hopen => exact ⟨by simpa [openEnded] using hopen, hD, hlast⟩
  | _ => exact hD

theorem yield_reattached {x : Extent} (D : CommandDerivation x) : D.reattached.yield = D.yield := by
  induction D with
  | assign target value => rfl
  | call callee param => rfl
  | block inner ih => simp [reattached, yield, ih]
  | letIn decl body rest ihb ihr => simp [reattached, yield, ihb, ihr]
  | cond c thenBranch elseBranch iht ihe => simp [reattached, yield, iht, ihe]
  | whileDo c body rest ihb ihr => simp [reattached, yield, ihb, ihr]
  | doWhile body c ih => simp [reattached, yield, ih]
  | pass => rfl
  | empty => rfl
  | single first ih => exact ih
  | seq front last ihf ihl =>
    rw [reattached, yield_attach (x := .chain) _ _ trivial, ihf, ihl, yield]

theorem innermost_reattached {x : Extent} (D : CommandDerivation x) : D.reattached.Innermost := by
  induction D with
  | assign target value => trivial
  | call callee param => trivial
  | block inner ih => exact ih
  | letIn decl body rest ihb ihr => exact ⟨ihb, ihr⟩
  | cond c thenBranch elseBranch iht ihe => exact ⟨iht, ihe⟩
  | whileDo c body rest ihb ihr => exact ⟨ihb, ihr⟩
  | doWhile body c ih => exact ih
  | pass => trivial
  | empty => trivial
  | single first ih => exact ih
  | seq front last ihf ihl => exact innermost_attach _ _ ihf ihl

end TriLang.CommandDerivation
