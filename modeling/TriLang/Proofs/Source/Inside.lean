import TriLang.Proofs.Source.Order

/-! # Offsets inside a character

A map takes the whole surplus of a wide character off as soon as an offset is behind its first byte
(`LineMap.position_inside`). At the last byte that amounts to the position of the character. Before it the
column is smaller by one for each byte that is still to come, as far as the line has smaller ones. So positions
run back inside a character of three or four bytes that does not begin its line, and nowhere else
(`LineMap.position_runs_back_iff`). -/
namespace TriLang
open TriLang.Text
set_option autoImplicit false

/-! ## The character an offset falls into -/

/-- The offset is behind the first byte of a character and not behind its last one. -/
structure Text.FallsInto (offset : Nat) (front : List Char) (c : Char) : Prop where
  entered : byteLength front < offset
  unfinished : offset < byteLength front + c.utf8Size

/-- A front part of the text leads to the offset, or to the character that the offset falls into. -/
def Text.LeadsUp (front behind : List Char) (offset : Nat) : Prop :=
  offset = byteLength front ∨ ∃ c rest, behind = c :: rest ∧ FallsInto offset front c

namespace Text

theorem LeadsUp.le {front behind : List Char} {offset : Nat} (h : LeadsUp front behind offset) :
    byteLength front ≤ offset := by
  rcases h with rfl | ⟨c, rest, -, hinside⟩
  · exact Nat.le_refl _
  · exact hinside.entered.le

theorem exists_leadsUp {text : List Char} {offset : Nat} (hle : offset ≤ byteLength text) :
    ∃ front behind, text = front ++ behind ∧ LeadsUp front behind offset := by
  induction text generalizing offset with
  | nil => exact ⟨[], [], rfl, .inl (Nat.le_zero.1 hle)⟩
  | cons c text ih =>
    rw [byteLength] at hle
    by_cases hzero : offset = 0
    · exact ⟨[], c :: text, rfl, .inl hzero⟩
    · by_cases hinside : offset < c.utf8Size
      · exact ⟨[], c :: text, rfl, .inr ⟨c, text, rfl, Nat.pos_of_ne_zero hzero, by simpa [byteLength]⟩⟩
      · obtain ⟨front, behind, rfl, hreached⟩ := ih (Nat.sub_le_iff_le_add'.2 hle)
        refine ⟨c :: front, behind, rfl, ?_⟩
        rcases hreached with hfront | ⟨d, rest, rfl, hentered, hunfinished⟩
        · left
          rw [byteLength]
          omega
        · refine .inr ⟨d, rest, rfl, ?_, ?_⟩
          · rw [byteLength]
            omega
          · rw [byteLength]
            omega

/-- To a later offset leads a longer part of the text. -/
theorem LeadsUp.exists_append {front behind front' behind' : List Char} {offset offset' : Nat}
    (htext : front ++ behind = front' ++ behind') (h : LeadsUp front behind offset)
    (h' : LeadsUp front' behind' offset') (hle : offset ≤ offset') : ∃ more, front' = front ++ more := by
  rcases Nat.le_total (byteLength front) (byteLength front') with hfront | hfront
  · obtain ⟨more, hmore, -⟩ := exists_append_of_byteLength_le htext hfront
    exact ⟨more, hmore⟩
  · obtain ⟨more, rfl, rfl⟩ := exists_append_of_byteLength_le htext.symm hfront
    have hreached := h.le
    rw [byteLength_append] at hreached
    cases more with
    | nil => exact ⟨[], by simp⟩
    | cons c more =>
      have hpos := c.utf8Size_pos
      rw [byteLength] at hreached
      rcases h' with rfl | ⟨d, rest, hbehind, -, hunfinished⟩
      · omega
      · obtain rfl := (List.cons.inj hbehind).1
        omega

end Text

theorem Position.column_after_eq_one {front : List Char} :
    (Position.after front).column = 1 ↔ EndsLine front := by
  constructor
  · intro hone
    obtain ⟨closed, line, rfl, hclosed, hline⟩ := exists_lastLine front
    rw [Position.after_lastLine hclosed hline] at hone
    obtain rfl := List.length_eq_zero_iff.1 (Nat.succ.inj hone)
    rwa [List.append_nil]
  · rintro (rfl | ⟨lines, rfl⟩)
    · rfl
    · simp [Position.after]

/-! ## The position inside a character -/

namespace LineMap

theorem position_inside {front : List Char} (behind : List Char) {c : Char} {offset : Nat}
    (hsize : offset < wordSize) (hinside : FallsInto offset front c) :
    (ofText (front ++ c :: behind)).position offset = ⟨(Position.after front).line,
      (Position.after front).column + (offset - byteLength front) - c.utf8Size + 1⟩ := by
  obtain ⟨hentered, hunfinished⟩ := hinside
  obtain ⟨closed, line, rfl, hclosed, hline⟩ := exists_lastLine front
  have hnewline : c ≠ '\n' := by
    rintro rfl
    have hone : ('\n' : Char).utf8Size = 1 := rfl
    omega
  have hend : byteLength (closed ++ (line ++ [c])) = byteLength (closed ++ line) + c.utf8Size := by
    rw [← List.append_assoc, byteLength_append]
    simp [byteLength]
  have hposition := position_eq [c] behind hclosed hline hsize hentered.le
    (fun start hstart => ?_) (fun w hw => ?_) (fun w hw => ?_)
  · have htext : closed ++ line ++ c :: behind = closed ++ (line ++ [c]) ++ behind := by simp
    rw [htext, hposition, Position.after_lastLine hclosed hline]
    have hlength : (line ++ [c]).length = line.length + 1 := by simp
    have hwidth : byteLength (line ++ [c]) = byteLength line + c.utf8Size := by
      simp [byteLength_append, byteLength]
    rw [hlength, hwidth]
    rw [byteLength_append] at hentered ⊢
    refine congrArg (Position.mk _) ?_
    dsimp only
    omega
  · rw [List.singleton_append, startsFrom, if_neg hnewline] at hstart
    have hbounds := startsFrom_bounds _ _ start hstart
    omega
  · rw [← List.append_assoc, wideFrom_append, List.mem_append, Nat.zero_add] at hw
    rcases hw with hw | hw
    · have hbounds := wideFrom_bounds 0 _ w hw
      omega
    · rw [wideFrom] at hw
      split at hw
      · obtain rfl := List.mem_singleton.1 hw
        exact hentered
      · exact absurd hw List.not_mem_nil
  · have hbounds := wideFrom_bounds _ _ w hw
    omega

theorem position_inside_le {front : List Char} (behind : List Char) {c : Char} {offset : Nat}
    (hsize : offset < wordSize) (hinside : FallsInto offset front c) :
    (ofText (front ++ c :: behind)).position offset ≤ .after front := by
  have hcolumn : 1 ≤ (Position.after front).column := Nat.le_add_left 1 _
  have hentered := hinside.entered
  have hunfinished := hinside.unfinished
  rw [position_inside _ hsize hinside, Position.le_iff]
  dsimp only
  omega

/-- Only at the last byte of a character, and on the first character of a line, is the column not too small. -/
theorem after_le_position_inside {front : List Char} (behind : List Char) {c : Char} {offset : Nat}
    (hsize : offset < wordSize) (hinside : FallsInto offset front c) :
    (Position.after front).column ≤ ((ofText (front ++ c :: behind)).position offset).column ↔
      EndsLine front ∨ offset + 1 = byteLength front + c.utf8Size := by
  have hcolumn : 1 ≤ (Position.after front).column := Nat.le_add_left 1 _
  have hentered := hinside.entered
  have hunfinished := hinside.unfinished
  rw [position_inside _ hsize hinside, ← Position.column_after_eq_one]
  dsimp only
  omega

/-! ## All offsets of a text -/

/-- The offset falls into a character that does not begin its line, and bytes of it follow the one there. -/
def SetBack (text : List Char) (offset : Nat) : Prop :=
  ∃ front c behind, text = front ++ c :: behind ∧ FallsInto offset front c ∧
    ¬ EndsLine front ∧ offset + 1 < byteLength front + c.utf8Size

/-- An offset has the position of what leads up to it, or an earlier one on that line if it is set back. -/
theorem position_leadsUp {front behind : List Char} {offset : Nat} (hsize : offset < wordSize)
    (h : LeadsUp front behind offset) :
    (ofText (front ++ behind)).position offset ≤ .after front ∧
    ((ofText (front ++ behind)).position offset).line = (Position.after front).line ∧
    (¬ SetBack (front ++ behind) offset → (ofText (front ++ behind)).position offset = .after front) := by
  rcases h with rfl | ⟨c, rest, rfl, hinside⟩
  · rw [position_ofText front behind hsize]
    exact ⟨le_rfl, rfl, fun _ => rfl⟩
  · have hline : ((ofText (front ++ c :: rest)).position offset).line = (Position.after front).line := by
      rw [position_inside _ hsize hinside]
    have hle := position_inside_le rest hsize hinside
    refine ⟨hle, hline, fun hkept => le_antisymm hle ?_⟩
    rw [Position.le_iff, hline]
    refine .inr ⟨rfl, (after_le_position_inside rest hsize hinside).2 ?_⟩
    by_contra hbefore
    rw [not_or] at hbefore
    have hunfinished := hinside.unfinished
    exact hkept ⟨front, c, rest, rfl, hinside, hbefore.1, by omega⟩

theorem position_le_of_le {text : List Char} {earlier offset : Nat}
    (hsize : byteLength text < wordSize) (hle : earlier ≤ offset) (hend : offset ≤ byteLength text) :
    ((ofText text).position earlier).line ≤ ((ofText text).position offset).line ∧
    (¬ SetBack text offset → (ofText text).position earlier ≤ (ofText text).position offset) := by
  obtain ⟨front, behind, htext, hearlier⟩ := exists_leadsUp (hle.trans hend)
  obtain ⟨front', behind', htext', hoffset⟩ := exists_leadsUp hend
  obtain ⟨more, hmore⟩ := hearlier.exists_append (htext.symm.trans htext') hoffset hle
  have hafter := Position.after_le_append front more
  rw [← hmore] at hafter
  obtain ⟨hback, hline, -⟩ := position_leadsUp (by omega) hearlier
  obtain ⟨-, hline', hkept⟩ := position_leadsUp (by omega) hoffset
  rw [← htext] at hback hline
  rw [← htext'] at hline' hkept
  refine ⟨?_, fun h => ?_⟩
  · rw [hline, hline']
    rcases Position.le_iff.1 hafter with hlt | ⟨heq, -⟩
    · exact hlt.le
    · exact heq.le
  · rw [hkept h]
    exact hback.trans hafter

/-- Lines never run back. A position runs back behind an earlier one exactly at the offsets that are set back.
Inside a character the line is that of the character, and the column counts back from it by the bytes to come. -/
theorem position_runs_back_iff (text : List Char) (hsize : byteLength text < wordSize - 1) :
    (∀ earlier offset, earlier ≤ offset → offset ≤ byteLength text →
      ((ofText text).position earlier).line ≤ ((ofText text).position offset).line) ∧
    (∀ offset ≤ byteLength text,
      (∃ earlier ≤ offset, (ofText text).position offset < (ofText text).position earlier) ↔
        SetBack text offset) ∧
    ∀ front c behind offset, text = front ++ c :: behind → FallsInto offset front c →
      (ofText text).position offset = ⟨((ofText text).position (byteLength front)).line,
        ((ofText text).position (byteLength front)).column + (offset - byteLength front) - c.utf8Size + 1⟩ ∧
      (((ofText text).position (byteLength front)).column ≤ ((ofText text).position offset).column ↔
        EndsLine front ∨ offset + 1 = byteLength front + c.utf8Size) := by
  have hinner : ∀ front c behind offset, text = front ++ c :: behind → FallsInto offset front c →
      offset < wordSize ∧ (ofText text).position (byteLength front) = .after front := by
    rintro front c behind offset rfl ⟨hentered, hunfinished⟩
    rw [byteLength_append, byteLength] at hsize
    exact ⟨by omega, position_ofText front _ (by omega)⟩
  refine ⟨fun earlier offset hle hend => (position_le_of_le (by omega) hle hend).1,
    fun offset hend => ⟨?_, ?_⟩, ?_⟩
  · rintro ⟨earlier, hle, hback⟩
    by_contra hkept
    exact absurd hback (not_lt.2 ((position_le_of_le (by omega) hle hend).2 hkept))
  · rintro ⟨front, c, behind, htext, hinside, hlater, hunfinished⟩
    obtain ⟨hword, hcharacter⟩ := hinner front c behind offset htext hinside
    refine ⟨byteLength front, hinside.entered.le, ?_⟩
    have hcolumn := (not_congr (after_le_position_inside behind hword hinside)).2
      (not_or.2 ⟨hlater, hunfinished.ne⟩)
    rw [hcharacter, Position.lt_iff, htext]
    refine .inr ⟨?_, not_le.1 hcolumn⟩
    rw [position_inside behind hword hinside]
  · intro front c behind offset htext hinside
    obtain ⟨hword, hcharacter⟩ := hinner front c behind offset htext hinside
    rw [hcharacter, htext]
    exact ⟨position_inside behind hword hinside, after_le_position_inside behind hword hinside⟩

/-- The second byte of a character of three bytes is shown in the column of the character in front of it. -/
theorem position_runs_back_euro :
    let text := "ab€".toList
    byteLength text < wordSize - 1 ∧ SetBack text 3 ∧
    (∃ earlier ≤ 3, (ofText text).position 3 < (ofText text).position earlier) ∧
    (ofText text).position 2 = ⟨1, 3⟩ ∧ (ofText text).position 3 = ⟨1, 2⟩ := by
  have hsize : byteLength "ab€".toList < wordSize - 1 := by decide +kernel
  have hinside : FallsInto 3 "ab".toList '€' := ⟨by decide +kernel, by decide +kernel⟩
  have hback : SetBack "ab€".toList 3 :=
    ⟨"ab".toList, '€', [], by decide +kernel, hinside,
      fun hends => absurd (Position.column_after_eq_one.2 hends) (by decide +kernel), by decide +kernel⟩
  exact ⟨hsize, hback, ((position_runs_back_iff _ hsize).2.1 3 (by decide +kernel)).2 hback,
    by decide +kernel, by decide +kernel⟩

end LineMap
end TriLang
