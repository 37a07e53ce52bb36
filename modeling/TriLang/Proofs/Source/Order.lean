import Mathlib.Data.Prod.Lex
import Mathlib.Order.Monotone.Defs
import TriLang.Proofs.Source.Positions

/-! # Positions in order

Positions are ordered as they are read, by line and then by column. Each character that is passed leads to a
later position (`Position.after_lt_append`). So the boundaries of a text have positions of their own, in the
order of their offsets (`LineMap.position_boundaries`). -/
namespace TriLang
open TriLang.Text
set_option autoImplicit false

/-! ## The order of positions -/

namespace Position

/-- Line and column, to be compared one after the other. -/
def key (p : Position) : ℕ ×ₗ ℕ := toLex (p.line, p.column)

instance : LinearOrder Position := LinearOrder.lift' key fun p q h => by
  obtain ⟨hline, hcolumn⟩ := Prod.mk.inj (toLex.injective h)
  cases p
  cases q
  exact congrArg₂ Position.mk hline hcolumn

theorem lt_iff {p q : Position} :
    p < q ↔ p.line < q.line ∨ p.line = q.line ∧ p.column < q.column := Prod.Lex.toLex_lt_toLex

theorem le_iff {p q : Position} :
    p ≤ q ↔ p.line < q.line ∨ p.line = q.line ∧ p.column ≤ q.column := Prod.Lex.toLex_le_toLex

/-! ## Further on in a text -/

theorem after_lt_concat (front : List Char) (c : Char) : Position.after front < .after (front ++ [c]) := by
  rw [lt_iff, after, after, List.count_append, List.reverse_append]
  by_cases hc : c = '\n'
  · simp [hc]
  · simp [hc]

theorem after_lt_append (front : List Char) {more : List Char} (hmore : more ≠ []) :
    Position.after front < .after (front ++ more) := by
  induction more generalizing front with
  | nil => exact absurd rfl hmore
  | cons c more ih =>
    have hstep := after_lt_concat front c
    cases more with
    | nil => exact hstep
    | cons d more =>
      have hrest := ih (front ++ [c]) (by simp)
      rw [List.append_assoc] at hrest
      exact hstep.trans hrest

theorem after_le_append (front more : List Char) : Position.after front ≤ .after (front ++ more) := by
  cases more with
  | nil => rw [List.append_nil]
  | cons c more => exact (after_lt_append front (by simp)).le

end Position

/-! ## Boundaries -/

/-- Of two front parts of a text the shorter one is the front part of the other. -/
theorem Text.exists_append_of_byteLength_le {front behind front' behind' : List Char}
    (htext : front ++ behind = front' ++ behind') (hle : byteLength front ≤ byteLength front') :
    ∃ more, front' = front ++ more ∧ behind = more ++ behind' := by
  rcases List.append_eq_append_iff.1 htext with ⟨more, hfront, hbehind⟩ | ⟨more, hfront, hbehind⟩
  · exact ⟨more, hfront, hbehind⟩
  · rw [hfront, byteLength_append] at hle
    have hmore : more = [] := by
      by_contra hne
      have hpos := byteLength_pos hne
      omega
    rw [hmore] at hfront hbehind
    exact ⟨[], by rw [hfront]; simp, hbehind.symm⟩

/-- The map gives the position that is counted at every boundary of the text, and different ones at different
boundaries, in the order of the offsets. -/
theorem LineMap.position_boundaries (text : List Char) (hsize : byteLength text < wordSize - 1) :
    (∀ front behind, text = front ++ behind →
      (ofText text).position (byteLength front) =
        ⟨front.count '\n' + 1, (front.reverse.takeWhile (· ≠ '\n')).length + 1⟩) ∧
    StrictMonoOn (ofText text).position {offset | IsBoundary text offset} ∧
    Set.InjOn (ofText text).position {offset | IsBoundary text offset} := by
  have hcounted : ∀ front behind, text = front ++ behind →
      (ofText text).position (byteLength front) = .after front := by
    intro front behind htext
    rw [htext, byteLength_append] at hsize
    rw [htext]
    exact position_ofText front behind (by omega)
  have hordered : StrictMonoOn (ofText text).position {offset | IsBoundary text offset} := by
    rintro _ ⟨front, behind, htext, rfl⟩ _ ⟨front', behind', htext', rfl⟩ hlt
    obtain ⟨more, rfl, -⟩ := exists_append_of_byteLength_le (htext.symm.trans htext') hlt.le
    rw [hcounted _ _ htext, hcounted _ _ htext']
    refine Position.after_lt_append front ?_
    rintro rfl
    simp at hlt
  exact ⟨hcounted, hordered, hordered.injOn⟩

/-- Characters of one, two and three bytes, on lines of which one is empty. -/
theorem LineMap.position_boundaries_wide :
    let text := "é\n\na€b".toList
    byteLength text < wordSize - 1 ∧
    (ofText text).position 5 = ⟨3, 2⟩ ∧ (ofText text).position 8 = ⟨3, 3⟩ ∧
    StrictMonoOn (ofText text).position {offset | IsBoundary text offset} := by
  have hsize : byteLength "é\n\na€b".toList < wordSize - 1 := by decide +kernel
  obtain ⟨hcounted, hordered, -⟩ := position_boundaries "é\n\na€b".toList hsize
  exact ⟨hsize, hcounted "é\n\na".toList "€b".toList (by decide +kernel),
    hcounted "é\n\na€".toList "b".toList (by decide +kernel), hordered⟩

end TriLang
