import Mathlib.Data.List.Nodup
import Mathlib.Data.List.Pairwise
import TriLang.Proofs.Syntax.Nodes

/-! # Parts of a tree

A node `Contains` itself and what its children contain. What is said about trees clause by clause is said of
one of their parts (`Node.iff_exists_part`). Where no number stands twice in a tree, a part is known by its
number (`Node.eq_of_id_eq`), and so is the node it stands immediately below (`Node.parent_eq`). -/
namespace TriLang
set_option autoImplicit false

namespace Node

/-- The node is the tree itself or stands somewhere below its root. -/
inductive Contains : Node → Node → Prop where
  | here (n : Node) : Contains n n
  | inside {n c m : Node} (hc : c ∈ n.children) (h : Contains c m) : Contains n m

/-! ## Induction -/

theorem length_marks_lt {n c : Node} (hc : c ∈ n.children) : c.marks.length < n.marks.length := by
  obtain ⟨front, back, hsplit⟩ := List.append_of_mem hc
  rw [marks_eq n, hsplit]
  simp only [List.flatMap_append, List.flatMap_cons, List.length_append, List.length_singleton]
  omega

/-- What passes from the children of a node to the node holds of every node. -/
theorem child_induction {P : Node → Prop} (step : ∀ n, (∀ c ∈ n.children, P c) → P n) (n : Node) :
    P n := by
  induction hsize : n.marks.length using Nat.strongRecOn generalizing n with
  | ind size ih => exact step n fun c hc => ih _ (hsize ▸ length_marks_lt hc) c rfl

theorem contains_iff {n m : Node} : n.Contains m ↔ m = n ∨ ∃ c ∈ n.children, c.Contains m := by
  constructor
  · intro h
    cases h with
    | here => exact .inl rfl
    | inside hc h => exact .inr ⟨_, hc, h⟩
  · rintro (rfl | ⟨c, hc, h⟩)
    · exact .here _
    · exact .inside hc h

theorem Contains.child {n m c : Node} (h : n.Contains m) (hc : c ∈ m.children) : n.Contains c := by
  induction h with
  | here n => exact .inside hc (.here c)
  | inside hd _ ih => exact .inside hd (ih hc)

theorem Contains.length_marks_le {n m : Node} (h : n.Contains m) :
    m.marks.length ≤ n.marks.length := by
  induction h with
  | here n => exact Nat.le_refl _
  | inside hc _ ih => exact Nat.le_of_lt (Nat.lt_of_le_of_lt ih (length_marks_lt hc))

/-- What holds of a tree because of its root or of one of its children holds because of a part. -/
theorem iff_exists_part {all own : Node → Prop}
    (hall : ∀ n, all n ↔ own n ∨ ∃ c ∈ n.children, all c) (n : Node) :
    all n ↔ ∃ m, n.Contains m ∧ own m := by
  induction n using child_induction with
  | step n ih =>
    rw [hall]
    constructor
    · rintro (h | ⟨c, hc, h⟩)
      · exact ⟨n, .here n, h⟩
      · obtain ⟨m, hm, hown⟩ := (ih c hc).1 h
        exact ⟨m, .inside hc hm, hown⟩
    · rintro ⟨m, hm, hown⟩
      cases hm with
      | here => exact .inl hown
      | inside hc hm => exact .inr ⟨_, hc, (ih _ hc).2 ⟨m, hm, hown⟩⟩

theorem Throughout.part {P : Node → Prop} {n m : Node} (h : n.Throughout P) (hm : n.Contains m) :
    m.Throughout P := by
  induction hm with
  | here => exact h
  | inside hc _ ih =>
    cases h with
    | node _ below => exact ih (below _ hc)

theorem Throughout.of_contains {P : Node → Prop} {n m : Node} (h : n.Throughout P)
    (hm : n.Contains m) : P m := by
  cases h.part hm with
  | node here _ => exact here

/-! ## Numbers -/

theorem Contains.id_mem {n m : Node} (h : n.Contains m) : m.id ∈ n.ids := by
  induction h with
  | here n =>
    rw [ids_eq]
    exact List.mem_append_right _ (List.mem_singleton_self _)
  | @inside n c m hc _ ih =>
    rw [ids_eq]
    exact List.mem_append_left _ (List.mem_flatMap.2 ⟨c, hc, ih⟩)

section
variable {n : Node}

theorem nodup_child (h : n.ids.Nodup) {c : Node} (hc : c ∈ n.children) : c.ids.Nodup := by
  rw [ids_eq, List.nodup_append, List.nodup_flatMap] at h
  exact h.1.1 c hc

theorem id_notMem_child (h : n.ids.Nodup) {c : Node} (hc : c ∈ n.children) : n.id ∉ c.ids := by
  rw [ids_eq, List.nodup_append] at h
  intro hid
  exact h.2.2 _ (List.mem_flatMap.2 ⟨c, hc, hid⟩) _ (List.mem_singleton_self _) rfl

/-- Different children have no numbers in common. -/
theorem child_eq (h : n.ids.Nodup) {c d : Node} (hc : c ∈ n.children) (hd : d ∈ n.children) {id : Nat}
    (hidc : id ∈ c.ids) (hidd : id ∈ d.ids) : c = d := by
  rw [ids_eq, List.nodup_append, List.nodup_flatMap] at h
  by_contra hne
  have hsymm : Std.Symm (Function.onFun List.Disjoint ids) := ⟨fun _ _ h => List.disjoint_symm h⟩
  exact h.1.2.forall hc hd hne hidc hidd

theorem eq_of_id_eq (h : n.ids.Nodup) {m m' : Node} (hm : n.Contains m) (hm' : n.Contains m')
    (hid : m.id = m'.id) : m = m' := by
  induction n using child_induction with
  | step n ih =>
    rcases contains_iff.1 hm with hroot | ⟨c, hc, hm⟩
    · rcases contains_iff.1 hm' with hroot' | ⟨c', hc', hm'⟩
      · rw [hroot, hroot']
      · rw [hroot] at hid
        exact absurd (hid ▸ hm'.id_mem) (id_notMem_child h hc')
    · rcases contains_iff.1 hm' with hroot' | ⟨c', hc', hm'⟩
      · rw [hroot'] at hid
        exact absurd (hid ▸ hm.id_mem) (id_notMem_child h hc)
      · obtain rfl := child_eq h hc hc' hm.id_mem (hid ▸ hm'.id_mem)
        exact ih c hc (nodup_child h hc) hm hm'

/-- A child of the root does not stand further below at the same time. -/
theorem notMem_children (h : n.ids.Nodup) {d m c : Node} (hd : d ∈ n.children) (hm : d.Contains m)
    (hc : c ∈ m.children) : c ∉ n.children := by
  intro hcn
  have hcd : d = c := child_eq h hd hcn (hm.child hc).id_mem (Contains.here c).id_mem
  have hlt := length_marks_lt hc
  have hle := hm.length_marks_le
  rw [hcd] at hle
  omega

/-- A part stands immediately below one node only. -/
theorem parent_eq (h : n.ids.Nodup) {m m' c c' : Node} (hm : n.Contains m) (hm' : n.Contains m')
    (hc : c ∈ m.children) (hc' : c' ∈ m'.children) (hid : c.id = c'.id) : m = m' := by
  have hsame : c = c' := eq_of_id_eq h (hm.child hc) (hm'.child hc') hid
  subst hsame
  induction n using child_induction with
  | step n ih =>
    rcases contains_iff.1 hm with rfl | ⟨d, hd, hmd⟩
    · rcases contains_iff.1 hm' with rfl | ⟨d', hd', hmd'⟩
      · rfl
      · exact absurd hc (notMem_children h hd' hmd' hc')
    · rcases contains_iff.1 hm' with rfl | ⟨d', hd', hmd'⟩
      · exact absurd hc' (notMem_children h hd hmd hc)
      · obtain rfl := child_eq h hd hd' (hmd.child hc).id_mem (hmd'.child hc').id_mem
        exact ih d hd (nodup_child h hd) hmd hmd'

end

end Node

/-! ## Leaves -/

/-- A name or an operator of a tree, by what is written. -/
structure Leaf extends Mark where
  spelling : String

def Ident.toLeaf (i : Ident) : Leaf := ⟨i.toMark, i.name⟩

def Operator.toLeaf (o : Operator) : Leaf := ⟨o.toMark, o.spelling⟩

namespace Node

def leaf? : Node → Option Leaf
  | ident i => some i.toLeaf
  | operator o => some o.toLeaf
  | _ => none

/-- The names and operators immediately below a node, unless it is a declaration and declares the name. -/
def uses : Node → List Leaf
  | decl _ => []
  | n => n.children.filterMap leaf?

/-- The leaf is an applied occurrence of a name or of an operator in the tree. -/
def Applies (root : Node) (leaf : Leaf) : Prop := ∃ n, root.Contains n ∧ leaf ∈ n.uses

theorem leaf?_eq_some {n : Node} {leaf : Leaf} (h : n.leaf? = some leaf) :
    n.mark = leaf.toMark ∧ n.spelling? = some leaf.spelling ∧ n.children = [] := by
  cases n with
  | ident i =>
    obtain rfl := Option.some.inj h
    exact ⟨rfl, rfl, rfl⟩
  | operator o =>
    obtain rfl := Option.some.inj h
    exact ⟨rfl, rfl, rfl⟩
  | _ => simp [leaf?] at h

theorem exists_child_of_uses {n : Node} {leaf : Leaf} (h : leaf ∈ n.uses) :
    (∀ d, n ≠ decl d) ∧ ∃ c ∈ n.children, c.leaf? = some leaf := by
  cases n with
  | decl d => simp [uses] at h
  | _ => exact ⟨by simp, List.mem_filterMap.1 h⟩

/-- An applied occurrence is a part of the tree. -/
theorem Applies.exists_part {root : Node} {leaf : Leaf} (h : root.Applies leaf) :
    ∃ n, root.Contains n ∧ n.leaf? = some leaf := by
  obtain ⟨n, hn, hleaf⟩ := h
  obtain ⟨-, c, hc, hleaf⟩ := exists_child_of_uses hleaf
  exact ⟨c, hn.child hc, hleaf⟩

end Node

end TriLang
