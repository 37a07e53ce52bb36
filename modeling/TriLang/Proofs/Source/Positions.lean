import TriLang.Proofs.Source.Cuts
import TriLang.Source.LineMap

/-! # Lines and columns are counted

`Position.after front` counts the lines and the characters of the last line in front of a place. A line map
looks that up in its tables: up to an offset at which the text can be cut, they hold what the part in front of
it gives (`startsFrom_append`, `wideFrom_append`), and halving finds how much that is (`partitionPoint_eq`).
So a line map gives the position that is counted, in every text that is no longer than a word can tell
(`LineMap.position_ofText`). -/
namespace TriLang
open TriLang.Text
set_option autoImplicit false

/-- The position behind the front part of a text, both numbers from 1. -/
def Position.after (front : List Char) : Position :=
  ⟨front.count '\n' + 1, (front.reverse.takeWhile (· ≠ '\n')).length + 1⟩

/-! ## The last line -/

/-- The text is empty or ends with a newline, so that a new line begins behind it. -/
def Text.EndsLine (text : List Char) : Prop := text = [] ∨ ∃ lines, text = lines ++ ['\n']

theorem exists_lastLine (front : List Char) :
    ∃ closed line, front = closed ++ line ∧ EndsLine closed ∧ '\n' ∉ line := by
  refine ⟨(front.reverse.dropWhile (· ≠ '\n')).reverse, (front.reverse.takeWhile (· ≠ '\n')).reverse,
    ?_, ?_, fun hmem => ?_⟩
  · rw [← List.reverse_append, List.takeWhile_append_dropWhile, List.reverse_reverse]
  · have hhead := List.head?_dropWhile_not (fun c : Char => decide (c ≠ '\n')) front.reverse
    cases hrest : front.reverse.dropWhile (· ≠ '\n') with
    | nil => exact .inl rfl
    | cons c rest =>
      rw [hrest] at hhead
      obtain rfl : c = '\n' := by simpa using hhead
      exact .inr ⟨rest.reverse, List.reverse_cons⟩
  · simpa using List.all_eq_true.1 List.all_takeWhile _ (List.mem_reverse.1 hmem)

theorem Position.after_lastLine {closed line : List Char} (hclosed : EndsLine closed)
    (hline : '\n' ∉ line) :
    Position.after (closed ++ line) = ⟨closed.count '\n' + 1, line.length + 1⟩ := by
  have hall : ∀ c ∈ line.reverse, decide (c ≠ '\n') = true := by
    intro c hc
    exact decide_eq_true fun h => hline (h ▸ List.mem_reverse.1 hc)
  have hnone : closed.reverse.takeWhile (· ≠ '\n') = [] := by
    rcases hclosed with rfl | ⟨lines, rfl⟩
    · rfl
    · simp
  rw [after, List.count_append, List.count_eq_zero.2 hline, Nat.add_zero, List.reverse_append,
    List.takeWhile_append_of_pos hall, hnone, List.append_nil, List.length_reverse]

/-! ## Halving -/

/-- The point at which a condition stops to hold is found. -/
theorem partitionPoint_eq {p : Nat → Bool} {k : Nat} (lo hi : Nat) (hlo : lo ≤ k) (hhi : k ≤ hi)
    (h : ∀ i, lo ≤ i → i < hi → (p i = true ↔ i < k)) : partitionPoint p lo hi = k := by
  induction lo, hi using partitionPoint.induct (p := p) with
  | case1 lo hi hlt hp ih =>
    have hmid : (lo + hi) / 2 < k := (h _ (by omega) (by omega)).1 hp
    rw [partitionPoint, if_pos hlt, if_pos hp]
    exact ih (by omega) hhi fun i hi' => h i (by omega)
  | case2 lo hi hlt hp ih =>
    have hmid : ¬ (lo + hi) / 2 < k := fun hk => hp ((h _ (by omega) (by omega)).2 hk)
    rw [partitionPoint, if_pos hlt, if_neg hp]
    exact ih hlo (by omega) fun i hi' hlt' => h i hi' (by omega)
  | case3 lo hi hlt =>
    rw [partitionPoint, if_neg hlt]
    omega

/-- So many entries of a list, and no more than these, come first in it and meet a condition. -/
theorem partitionPoint_append {α : Type} (p : α → Bool) (d : α) (front back : List α)
    (hfront : ∀ a ∈ front, p a = true) (hback : ∀ a ∈ back, p a = false) :
    partitionPoint (fun i => p ((front ++ back).toArray.getD i d)) 0 (front ++ back).toArray.size =
      front.length := by
  refine partitionPoint_eq _ _ (Nat.zero_le _) (by simp) fun i _ hi => ?_
  have hlength : i < front.length + back.length := by simpa using hi
  by_cases hlt : i < front.length
  · have hget : (front ++ back).toArray.getD i d = front[i] := by
      simp [Array.getD, hlength, List.getElem_append_left hlt]
    rw [hget]
    exact ⟨fun _ => hlt, fun _ => hfront _ (List.getElem_mem hlt)⟩
  · have hback' : i - front.length < back.length := by omega
    have hget : (front ++ back).toArray.getD i d = back[i - front.length] := by
      simp [Array.getD, hlength, List.getElem_append_right (Nat.le_of_not_lt hlt)]
    rw [hget, hback _ (List.getElem_mem _)]
    simp [hlt]

namespace LineMap

/-! ## The tables of a text put together -/

theorem startsFrom_append (offset : Nat) (front back : List Char) :
    startsFrom offset (front ++ back) =
      startsFrom offset front ++ startsFrom (offset + byteLength front) back := by
  induction front generalizing offset with
  | nil => rfl
  | cons c front ih =>
    rw [List.cons_append, startsFrom, startsFrom, byteLength, ← Nat.add_assoc]
    by_cases hc : c = '\n'
    · rw [if_pos hc, if_pos hc, ih, hc]
      rfl
    · rw [if_neg hc, if_neg hc, ih]

theorem wideFrom_append (offset : Nat) (front back : List Char) :
    wideFrom offset (front ++ back) =
      wideFrom offset front ++ wideFrom (offset + byteLength front) back := by
  induction front generalizing offset with
  | nil => rfl
  | cons c front ih =>
    rw [List.cons_append, wideFrom, wideFrom, byteLength, ← Nat.add_assoc]
    by_cases hc : 1 < c.utf8Size
    · rw [if_pos hc, if_pos hc, ih]
      rfl
    · rw [if_neg hc, if_neg hc, ih]

theorem startsFrom_bounds (offset : Nat) (text : List Char) :
    ∀ start ∈ startsFrom offset text, offset < start ∧ start ≤ offset + byteLength text := by
  induction text generalizing offset with
  | nil => simp [startsFrom]
  | cons c text ih =>
    have hpos := c.utf8Size_pos
    intro start hstart
    rw [startsFrom] at hstart
    rw [byteLength]
    split at hstart
    · rcases List.mem_cons.1 hstart with rfl | hstart
      · omega
      · have hbounds := ih _ start hstart
        omega
    · have hbounds := ih _ start hstart
      omega

theorem wideFrom_bounds (offset : Nat) (text : List Char) :
    ∀ w ∈ wideFrom offset text, offset ≤ w.offset ∧ w.offset < offset + byteLength text := by
  induction text generalizing offset with
  | nil => simp [wideFrom]
  | cons c text ih =>
    have hpos := c.utf8Size_pos
    intro w hw
    rw [wideFrom] at hw
    rw [byteLength]
    split at hw
    · rcases List.mem_cons.1 hw with rfl | hw
      · dsimp only
        omega
      · have hbounds := ih _ w hw
        omega
    · have hbounds := ih _ w hw
      omega

theorem length_startsFrom (offset : Nat) (text : List Char) :
    (startsFrom offset text).length = text.count '\n' := by
  induction text generalizing offset with
  | nil => rfl
  | cons c text ih =>
    rw [startsFrom, List.count_cons]
    by_cases hc : c = '\n'
    · simp [hc, ih]
    · simp [hc, ih]

/-- The surplus of the wide characters makes up the difference between bytes and characters. -/
theorem surplus_wideFrom (offset : Nat) (text : List Char) :
    (wideFrom offset text).foldr (fun w total => w.surplus + total) 0 + text.length =
      byteLength text := by
  induction text generalizing offset with
  | nil => rfl
  | cons c text ih =>
    have hpos := c.utf8Size_pos
    have hrest := ih (offset + c.utf8Size)
    rw [wideFrom, byteLength, List.length_cons]
    split
    · rw [List.foldr_cons]
      dsimp only
      omega
    · omega

/-! ## Looking up -/

/-- The line of an offset is known by the newlines in front of it, if no line starts between these and the
offset. -/
theorem lineIndex_ofText {front behind : List Char} {offset : Nat} (hfront : byteLength front ≤ offset)
    (hbehind : ∀ start ∈ startsFrom (byteLength front) behind, offset < start) :
    (ofText (front ++ behind)).lineIndex offset = front.count '\n' := by
  have hstarts : (ofText (front ++ behind)).starts =
      ((0 :: startsFrom 0 front) ++ startsFrom (byteLength front) behind).toArray := by
    rw [ofText, startsFrom_append, Nat.zero_add]
    rfl
  have hpoint := partitionPoint_append (fun start => decide (start ≤ offset)) 0
    (0 :: startsFrom 0 front) (startsFrom (byteLength front) behind)
    (fun start hstart => ?_) (fun start hstart => by simpa using hbehind start hstart)
  · rw [lineIndex]
    unfold lineStart
    rw [hstarts, hpoint, List.length_cons, length_startsFrom, Nat.add_sub_cancel]
  · rcases List.mem_cons.1 hstart with rfl | hstart
    · simp
    · have hbounds := startsFrom_bounds 0 front start hstart
      exact decide_eq_true (by omega)

/-- The wide characters before an offset are those of the text in front of it. -/
theorem wideBefore_ofText {front behind : List Char} {offset : Nat}
    (hfront : ∀ w ∈ wideFrom 0 front, w.offset < offset)
    (hbehind : ∀ w ∈ wideFrom (byteLength front) behind, offset ≤ w.offset) :
    (ofText (front ++ behind)).wideBefore offset = (wideFrom 0 front).length := by
  have hwide : (ofText (front ++ behind)).wide =
      (wideFrom 0 front ++ wideFrom (byteLength front) behind).toArray := by
    rw [ofText, wideFrom_append, Nat.zero_add]
  rw [wideBefore, hwide]
  exact partitionPoint_append (fun w => decide (w.offset < offset)) default
    (wideFrom 0 front) (wideFrom (byteLength front) behind)
    (fun w hw => by simpa using hfront w hw) fun w hw => by simpa using hbehind w hw

/-- Behind the end of a line the next one starts. -/
theorem getElem?_starts {closed : List Char} (hclosed : EndsLine closed) (behind : List Char) :
    (ofText (closed ++ behind)).starts[closed.count '\n']? = some (byteLength closed) := by
  have hstarts : (ofText (closed ++ behind)).starts[closed.count '\n']? =
      ((0 :: startsFrom 0 closed) ++ startsFrom (byteLength closed) behind)[closed.count '\n']? := by
    rw [ofText, startsFrom_append, Nat.zero_add, List.getElem?_toArray]
    rfl
  rw [hstarts]
  rcases hclosed with rfl | ⟨lines, rfl⟩
  · rfl
  · have hlast : startsFrom 0 (lines ++ ['\n']) =
        startsFrom 0 lines ++ [byteLength (lines ++ ['\n'])] := by
      rw [startsFrom_append, byteLength_append, Nat.zero_add]
      rfl
    have hcount : (lines ++ ['\n']).count '\n' = (0 :: startsFrom 0 lines).length := by
      rw [List.count_append, List.length_cons, length_startsFrom]
      rfl
    rw [hcount, hlast, ← List.cons_append, List.append_assoc, List.getElem?_append_right (Nat.le_refl _),
      Nat.sub_self]
    rfl

theorem lineStart_ofText {closed : List Char} (hclosed : EndsLine closed) (behind : List Char) :
    (ofText (closed ++ behind)).lineStart (closed.count '\n') = byteLength closed := by
  rw [lineStart, Array.getD_eq_getD_getElem?, getElem?_starts hclosed]
  rfl

theorem surplusBetween_ofText {closed line behind : List Char} {offset : Nat}
    (hfront : ∀ w ∈ wideFrom 0 (closed ++ line), w.offset < offset)
    (hbehind : ∀ w ∈ wideFrom (byteLength (closed ++ line)) behind, offset ≤ w.offset) :
    (ofText (closed ++ line ++ behind)).surplusBetween (byteLength closed) offset + line.length =
      byteLength line := by
  have hstart : (ofText (closed ++ line ++ behind)).wideBefore (byteLength closed) =
      (wideFrom 0 closed).length := by
    rw [List.append_assoc]
    refine wideBefore_ofText (fun w hw => ?_) fun w hw => (wideFrom_bounds _ _ w hw).1
    have hbounds := wideFrom_bounds 0 closed w hw
    omega
  rw [surplusBetween, hstart, wideBefore_ofText hfront hbehind]
  have hwide : (ofText (closed ++ line ++ behind)).wide.toList = wideFrom 0 closed ++
      (wideFrom (byteLength closed) line ++ wideFrom (byteLength (closed ++ line)) behind) := by
    change wideFrom 0 (closed ++ line ++ behind) = _
    rw [wideFrom_append, wideFrom_append, Nat.zero_add, Nat.zero_add, List.append_assoc]
  rw [Array.toList_extract, hwide, List.extract_eq_take_drop, List.drop_left, wideFrom_append,
    Nat.zero_add, List.length_append, Nat.add_sub_cancel_left, List.take_left]
  exact surplus_wideFrom _ line

/-- The position of an offset behind the front part of a line, from which on no line starts in front of the
offset, and only the characters of `inner` do. -/
theorem position_eq {closed line : List Char} (inner behind : List Char) {offset : Nat}
    (hclosed : EndsLine closed) (hline : '\n' ∉ line) (hsize : offset < wordSize)
    (hreached : byteLength (closed ++ line) ≤ offset)
    (hstarts : ∀ start ∈ startsFrom (byteLength (closed ++ line)) (inner ++ behind), offset < start)
    (hfront : ∀ w ∈ wideFrom 0 (closed ++ (line ++ inner)), w.offset < offset)
    (hbehind : ∀ w ∈ wideFrom (byteLength (closed ++ (line ++ inner))) behind, offset ≤ w.offset) :
    (ofText (closed ++ (line ++ inner) ++ behind)).position offset = ⟨closed.count '\n' + 1,
      offset - byteLength closed + (line ++ inner).length - byteLength (line ++ inner) + 1⟩ := by
  have hparts : closed ++ (line ++ inner) ++ behind = closed ++ line ++ (inner ++ behind) := by simp
  have hindex : (ofText (closed ++ (line ++ inner) ++ behind)).lineIndex offset = closed.count '\n' := by
    rw [hparts, lineIndex_ofText hreached hstarts, List.count_append, List.count_eq_zero.2 hline,
      Nat.add_zero]
  have hstart : (ofText (closed ++ (line ++ inner) ++ behind)).lineStart (closed.count '\n') =
      byteLength closed := by
    rw [List.append_assoc]
    exact lineStart_ofText hclosed _
  have hsurplus := surplusBetween_ofText hfront hbehind
  have hcolumn : offset - byteLength closed - (ofText (closed ++ (line ++ inner) ++ behind)).surplusBetween
      (byteLength closed) offset =
        offset - byteLength closed + (line ++ inner).length - byteLength (line ++ inner) := by
    omega
  rw [position, Nat.mod_eq_of_lt hsize, hindex, hstart, hcolumn]

/-- The position of a boundary is counted from the text in front of it, if its offset fits into a word. -/
theorem position_ofText (front behind : List Char) (hsize : byteLength front < wordSize) :
    (ofText (front ++ behind)).position (byteLength front) = .after front := by
  obtain ⟨closed, line, rfl, hclosed, hline⟩ := exists_lastLine front
  have hposition := position_eq [] behind hclosed hline hsize (Nat.le_refl _)
    (fun start hstart => (startsFrom_bounds _ _ start hstart).1) (fun w hw => ?_) (fun w hw => ?_)
  · rw [List.append_nil] at hposition
    rw [hposition, Position.after_lastLine hclosed hline, byteLength_append, Nat.add_sub_cancel_left,
      Nat.add_sub_cancel_left]
  · rw [List.append_nil] at hw
    have hbounds := wideFrom_bounds 0 _ w hw
    omega
  · rw [List.append_nil] at hw
    exact (wideFrom_bounds _ behind w hw).1

end LineMap

/-- A character of two bytes counts as one column. -/
example : (LineMap.ofText "x\n 'é' + y".toList).position 9 = ⟨2, 7⟩ := by decide +kernel

end TriLang
