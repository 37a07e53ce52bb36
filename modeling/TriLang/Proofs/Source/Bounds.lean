import Mathlib.Algebra.Order.BigOperators.Group.List
import Mathlib.Algebra.Order.Ring.Nat
import TriLang.Proofs.Source.Lines

/-! # Look-ups stay within the tables

A look-up in a line map reads tables by index, cuts a part out of one, and counts with words of 32 bits. The
definitions of this module do so step by step and have no result where an index is out of range, a cut is out of
order, a difference falls below zero or a number is too large for a word. For every offset that leaves room for
the column, wherever it lies, they have the result of the look-up itself (`LineMap.position?_ofText`). -/
namespace TriLang
open TriLang.Text
set_option autoImplicit false

/-! ## Steps that can fail -/

/-- A difference, unless it falls below zero. -/
def minus? (a b : Nat) : Option Nat := if b ≤ a then some (a - b) else none

/-- A number, unless it is too large for a word. -/
def word? (n : Nat) : Option Nat := if n < wordSize then some n else none

/-- The part of a table between two indices, if these are in order and in range. -/
def cut? {α : Type} (table : Array α) (lo hi : Nat) : Option (Array α) :=
  if lo ≤ hi ∧ hi ≤ table.size then some (table.extract lo hi) else none

/-- Halving, where the condition can be asked at some indices only. -/
def partitionPoint? (p : Nat → Option Bool) (lo hi : Nat) : Option Nat :=
  if lo < hi then do
    if ← p ((lo + hi) / 2) then partitionPoint? p ((lo + hi) / 2 + 1) hi
    else partitionPoint? p lo ((lo + hi) / 2)
  else some lo
termination_by hi - lo
decreasing_by all_goals omega

namespace LineMap

def lineIndex? (m : LineMap) (offset : Nat) : Option Nat := do
  let behind ← partitionPoint? (fun i => m.starts[i]?.map fun start => decide (start ≤ offset)) 0
    m.starts.size
  minus? behind 1

def wideBefore? (m : LineMap) (offset : Nat) : Option Nat :=
  partitionPoint? (fun i => m.wide[i]?.map fun c => decide (c.offset < offset)) 0 m.wide.size

/-- The surplus, added up in words. -/
def surplusBetween? (m : LineMap) (start offset : Nat) : Option Nat := do
  let part ← cut? m.wide (← m.wideBefore? start) (← m.wideBefore? offset)
  part.toList.foldlM (fun total c => word? (total + c.surplus)) 0

def position? (m : LineMap) (offset : Nat) : Option Position := do
  let offset := offset % wordSize
  let line ← m.lineIndex? offset
  let start ← m.starts[line]?
  let bytes ← minus? offset start
  let surplus ← m.surplusBetween? start offset
  return ⟨← word? (line + 1), ← word? (bytes - surplus + 1)⟩

end LineMap

/-! ## Halving in bounds -/

section
variable {p q : Nat → Bool} {lo hi : Nat}

theorem partitionPoint?_eq {asked : Nat → Option Bool}
    (h : ∀ i, lo ≤ i → i < hi → asked i = some (p i)) :
    partitionPoint? asked lo hi = some (partitionPoint p lo hi) := by
  induction lo, hi using partitionPoint.induct (p := p) with
  | case1 lo hi hlt hp ih =>
    rw [partitionPoint?, partitionPoint, if_pos hlt, if_pos hlt, if_pos hp, h _ (by omega) (by omega), hp]
    exact ih fun i hlo hhi => h i (by omega) hhi
  | case2 lo hi hlt hp ih =>
    rw [partitionPoint?, partitionPoint, if_pos hlt, if_pos hlt, if_neg hp, h _ (by omega) (by omega),
      Bool.eq_false_iff.2 hp]
    exact ih fun i hlo hhi => h i hlo (by omega)
  | case3 lo hi hlt => rw [partitionPoint?, partitionPoint, if_neg hlt, if_neg hlt]

theorem partitionPoint_le (p : Nat → Bool) (h : lo ≤ hi) : partitionPoint p lo hi ≤ hi := by
  induction lo, hi using partitionPoint.induct (p := p) with
  | case1 lo hi hlt hp ih =>
    rw [partitionPoint, if_pos hlt, if_pos hp]
    exact ih (by omega)
  | case2 lo hi hlt hp ih =>
    rw [partitionPoint, if_pos hlt, if_neg hp]
    exact Nat.le_trans (ih (by omega)) (by omega)
  | case3 lo hi hlt =>
    rw [partitionPoint, if_neg hlt]
    exact h

theorem le_partitionPoint (p : Nat → Bool) (lo hi : Nat) : lo ≤ partitionPoint p lo hi := by
  induction lo, hi using partitionPoint.induct (p := p) with
  | case1 lo hi hlt hp ih =>
    rw [partitionPoint, if_pos hlt, if_pos hp]
    exact Nat.le_trans (by omega) ih
  | case2 lo hi hlt hp ih =>
    rw [partitionPoint, if_pos hlt, if_neg hp]
    exact ih
  | case3 lo hi hlt =>
    rw [partitionPoint, if_neg hlt]

/-- The condition holds just in front of the point that is found. -/
theorem of_lt_partitionPoint (h : lo < partitionPoint p lo hi) : p (partitionPoint p lo hi - 1) = true := by
  induction lo, hi using partitionPoint.induct (p := p) with
  | case1 lo hi hlt hp ih =>
    rw [partitionPoint, if_pos hlt, if_pos hp] at h ⊢
    rcases Nat.lt_or_ge ((lo + hi) / 2 + 1) (partitionPoint p ((lo + hi) / 2 + 1) hi) with hmore | hmore
    · exact ih hmore
    · rw [Nat.le_antisymm hmore (le_partitionPoint p _ _), Nat.add_sub_cancel]
      exact hp
  | case2 lo hi hlt hp ih =>
    rw [partitionPoint, if_pos hlt, if_neg hp] at h ⊢
    exact ih h
  | case3 lo hi hlt =>
    rw [partitionPoint, if_neg hlt] at h
    omega

/-- A condition that holds at first makes the point lie behind. -/
theorem lt_partitionPoint (hlt : lo < hi) (h : p lo = true) : lo < partitionPoint p lo hi := by
  induction lo, hi using partitionPoint.induct (p := p) with
  | case1 lo hi hlt' hp ih =>
    rw [partitionPoint, if_pos hlt', if_pos hp]
    exact Nat.lt_of_lt_of_le (by omega) (le_partitionPoint p _ _)
  | case2 lo hi hlt' hp ih =>
    rw [partitionPoint, if_pos hlt', if_neg hp]
    have hmid : lo ≠ (lo + hi) / 2 := fun heq => hp (heq ▸ h)
    exact ih (by omega) h
  | case3 lo hi hlt' => exact absurd hlt hlt'

/-- The weaker of two conditions holds for longer. -/
theorem partitionPoint_mono (hle : lo ≤ hi) (h : ∀ i, p i = true → q i = true) :
    partitionPoint p lo hi ≤ partitionPoint q lo hi := by
  induction lo, hi using partitionPoint.induct (p := p) with
  | case1 lo hi hlt hp ih =>
    rw [partitionPoint, partitionPoint.eq_def q, if_pos hlt, if_pos hlt, if_pos hp, if_pos (h _ hp)]
    exact ih (by omega)
  | case2 lo hi hlt hp ih =>
    rw [partitionPoint, partitionPoint.eq_def q, if_pos hlt, if_pos hlt, if_neg hp]
    split
    · have hfront : partitionPoint p lo ((lo + hi) / 2) ≤ (lo + hi) / 2 :=
        partitionPoint_le p (by omega)
      have hback := le_partitionPoint q ((lo + hi) / 2 + 1) hi
      omega
    · exact ih (by omega)
  | case3 lo hi hlt =>
    rw [partitionPoint, partitionPoint.eq_def q, if_neg hlt, if_neg hlt]

end

namespace LineMap

/-! ## Tables of a text -/

section
variable (text : List Char)

theorem starts_ofText_pos : 0 < (ofText text).starts.size := by simp [ofText]

theorem size_starts_ofText_le : (ofText text).starts.size ≤ byteLength text + 1 := by
  have hcount := count_newline_le text
  have hsize : (ofText text).starts.size = text.count '\n' + 1 := lineCount_ofText text
  omega

theorem starts_ofText_le : ∀ start ∈ (ofText text).starts, start ≤ byteLength text := by
  intro start hstart
  have hmem : start ∈ 0 :: startsFrom 0 text := by simpa [ofText] using hstart
  rcases List.mem_cons.1 hmem with rfl | hmem
  · exact Nat.zero_le _
  · have hbounds := startsFrom_bounds 0 text start hmem
    omega

theorem wide_ofText_lt : ∀ c ∈ (ofText text).wide, c.offset < byteLength text := by
  intro c hc
  have hbounds := wideFrom_bounds 0 text c (by simpa [ofText] using hc)
  omega

theorem surplus_ofText_le : ((ofText text).wide.toList.map WideChar.surplus).sum ≤ byteLength text := by
  have hsurplus := surplus_wideFrom 0 text
  rw [← List.foldr_map, ← List.sum_eq_foldr] at hsurplus
  change ((wideFrom 0 text).map WideChar.surplus).sum ≤ _
  omega

/-- Every offset lies on a line that is in the table and starts no later. -/
theorem lineIndex_ofText_lt (offset : Nat) :
    (ofText text).lineIndex offset < (ofText text).starts.size ∧
      (ofText text).lineStart ((ofText text).lineIndex offset) ≤ offset := by
  have hpos := starts_ofText_pos text
  have hfirst : (ofText text).lineStart 0 ≤ offset := Nat.zero_le _
  have hreached := lt_partitionPoint (p := fun i => (ofText text).lineStart i ≤ offset) hpos
    (decide_eq_true hfirst)
  have hle := partitionPoint_le (fun i => (ofText text).lineStart i ≤ offset) (Nat.le_of_lt hpos)
  refine ⟨by rw [lineIndex]; omega, ?_⟩
  exact of_decide_eq_true (of_lt_partitionPoint hreached)

end

/-- Later offsets have no fewer wide characters in front of them, and none has more than there are. -/
theorem wideBefore_le (m : LineMap) {start offset : Nat} (h : start ≤ offset) :
    m.wideBefore start ≤ m.wideBefore offset ∧ m.wideBefore offset ≤ m.wide.size := by
  refine ⟨partitionPoint_mono (Nat.zero_le _) fun i hi => ?_, partitionPoint_le _ (Nat.zero_le _)⟩
  have hlt : (m.wide.getD i default).offset < start := by simpa using hi
  exact decide_eq_true (Nat.lt_of_lt_of_le hlt h)

/-! ## Look-ups in bounds -/

theorem wideBefore?_eq (m : LineMap) (offset : Nat) :
    m.wideBefore? offset = some (m.wideBefore offset) := by
  refine partitionPoint?_eq fun i _ hi => ?_
  rw [Array.getElem?_eq_getElem hi, Array.getD_eq_getD_getElem?, Array.getElem?_eq_getElem hi]
  rfl

theorem lineIndex?_ofText (text : List Char) (offset : Nat) :
    (ofText text).lineIndex? offset = some ((ofText text).lineIndex offset) := by
  have hasked : partitionPoint? (fun i => (ofText text).starts[i]?.map fun start => decide (start ≤ offset))
      0 (ofText text).starts.size =
        some (partitionPoint (fun i => (ofText text).lineStart i ≤ offset) 0 (ofText text).starts.size) := by
    refine partitionPoint?_eq fun i _ hi => ?_
    rw [lineStart, Array.getD_eq_getD_getElem?, Array.getElem?_eq_getElem hi]
    rfl
  have hreached := lt_partitionPoint (p := fun i => (ofText text).lineStart i ≤ offset)
    (starts_ofText_pos text) (decide_eq_true (Nat.zero_le offset))
  rw [lineIndex?, hasked]
  exact if_pos (by omega)

/-- What fits into a word in the end fits into one at any time. -/
theorem foldlM_word {wide : List WideChar} {total : Nat}
    (h : total + (wide.map WideChar.surplus).sum < wordSize) :
    wide.foldlM (fun total c => word? (total + c.surplus)) total =
      some (wide.foldr (fun c total => c.surplus + total) 0 + total) := by
  induction wide generalizing total with
  | nil => simp
  | cons c wide ih =>
    rw [List.map_cons, List.sum_cons] at h
    rw [List.foldlM_cons, word?, if_pos (by omega), Option.bind_eq_bind, Option.bind_some,
      ih (by omega), List.foldr_cons]
    congr 1
    omega

theorem surplusBetween?_ofText {text : List Char} (hsize : byteLength text < wordSize)
    {start offset : Nat} (h : start ≤ offset) : (ofText text).surplusBetween? start offset =
      some ((ofText text).surplusBetween start offset) := by
  have hcut := (ofText text).wideBefore_le h
  have hpart : (((ofText text).wide.extract ((ofText text).wideBefore start)
      ((ofText text).wideBefore offset)).toList.map WideChar.surplus).sum ≤ byteLength text := by
    refine Nat.le_trans ?_ (surplus_ofText_le text)
    rw [Array.toList_extract, List.extract_eq_take_drop]
    exact (((List.take_sublist _ _).trans (List.drop_sublist _ _)).map _).sum_le_sum fun _ _ => Nat.zero_le _
  rw [surplusBetween?, wideBefore?_eq, wideBefore?_eq]
  simp only [Option.bind_eq_bind, Option.bind_some, cut?, if_pos hcut]
  rw [foldlM_word (by omega), Nat.add_zero, surplusBetween]

/-- A look-up in the tables of a text that words can count is in bounds throughout, whatever the offset. -/
theorem position?_ofText {text : List Char} (htext : byteLength text + 1 < wordSize) {offset : Nat}
    (hoffset : offset + 1 < wordSize) :
    (ofText text).position? offset = some ((ofText text).position offset) := by
  obtain ⟨hline, hstart⟩ := lineIndex_ofText_lt text offset
  have hsize := size_starts_ofText_le text
  have hget : (ofText text).starts[(ofText text).lineIndex offset]? =
      some ((ofText text).lineStart ((ofText text).lineIndex offset)) := by
    rw [lineStart, Array.getD_eq_getD_getElem?, Array.getElem?_eq_getElem hline]
    rfl
  rw [position?, position, Nat.mod_eq_of_lt (by omega), lineIndex?_ofText]
  simp only [Option.bind_eq_bind, Option.bind_some, hget, minus?, if_pos hstart,
    surplusBetween?_ofText (by omega : byteLength text < wordSize) hstart, word?]
  rw [if_pos (by omega), if_pos (by omega)]
  rfl

end LineMap

end TriLang
