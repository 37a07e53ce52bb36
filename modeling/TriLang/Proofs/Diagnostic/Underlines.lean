import Mathlib.Data.List.DropRight
import Mathlib.Data.List.SplitBy
import TriLang.Diagnostic.Rendering

/-! # The rows below a line

The labels of a line are drawn into one row, one over the other. What a place of the row holds in the end is
decided by the annotations that cover it (`Annotation.Covers`, `markRow_getElem?`). If the other labels keep clear
of the primary one, its mark stands where it covers the row and nowhere else (`getElem?_underline`). Behind the
underline, or in rows of their own, come the messages (`AnnotatedLine.below`); without colours nothing else is
written (`annotationRows_plain`). -/
namespace TriLang
set_option autoImplicit false

/-! ## Drawing one annotation -/

theorem length_fillRow {row : List Char} {start stop : Nat} (c : Char) (hle : start ≤ stop)
    (hstop : stop ≤ row.length) : (fillRow row start stop c).length = row.length := by
  simp only [fillRow, List.length_append, List.length_take, List.length_replicate, List.length_drop]
  omega

theorem getElem?_fillRow {row : List Char} {start stop : Nat} (c : Char) (hle : start ≤ stop)
    (hstop : stop ≤ row.length) (i : Nat) :
    (fillRow row start stop c)[i]? = if start ≤ i ∧ i < stop then some c else row[i]? := by
  have hfront : (row.take start).length = start := by
    rw [List.length_take]
    omega
  rw [fillRow, List.append_assoc]
  by_cases hbefore : i < start
  · rw [List.getElem?_append_left (by omega), List.getElem?_take_of_lt hbefore, if_neg (by omega)]
  · rw [List.getElem?_append_right (by omega), hfront]
    by_cases hinside : i < stop
    · rw [List.getElem?_append_left (by rw [List.length_replicate]; omega),
        List.getElem?_replicate_of_lt (by omega), if_pos (by omega)]
    · rw [List.getElem?_append_right (by rw [List.length_replicate]; omega), List.length_replicate,
        List.getElem?_drop, if_neg (by omega), show stop + (i - start - (stop - start)) = i by omega]

namespace Annotation

/-- The annotation is drawn at the place of a row with this index, if the row has one. -/
def Covers (a : Annotation) (i : Nat) : Prop := a.first - 1 ≤ i ∧ i < a.stop - 1

instance (a : Annotation) (i : Nat) : Decidable (a.Covers i) := by
  unfold Covers
  infer_instance

variable (a : Annotation) (width : Nat)

theorem places_ordered : (a.places width).1 ≤ (a.places width).2 := by
  simp only [places]
  omega

theorem places_stop_le : (a.places width).2 ≤ width := by
  simp only [places]
  omega

theorem places_iff {i : Nat} (hi : i < width) :
    (a.places width).1 ≤ i ∧ i < (a.places width).2 ↔ a.Covers i := by
  simp only [places, Covers]
  omega

end Annotation

section
variable (row : List Char) (a : Annotation)

theorem markRow_length : (markRow row a).length = row.length :=
  length_fillRow _ (a.places_ordered _) (a.places_stop_le _)

theorem markRow_getElem? {i : Nat} (hi : i < row.length) :
    (markRow row a)[i]? = if a.Covers i then some a.style.underlineMark else row[i]? := by
  unfold markRow
  rw [getElem?_fillRow _ (a.places_ordered _) (a.places_stop_le _)]
  simp only [a.places_iff _ hi]

theorem markRow_mem {c : Char} (h : c ∈ markRow row a) :
    c ∈ row ∨ c = a.style.underlineMark := by
  simp only [fillRow, markRow, List.mem_append] at h
  rcases h with (h | h) | h
  · exact .inl (List.mem_of_mem_take h)
  · exact .inr (List.eq_of_mem_replicate h)
  · exact .inl (List.mem_of_mem_drop h)

end

/-! ## Drawing all of them -/

section
variable {drawn : List Annotation} {row : List Char} {i : Nat}

theorem foldl_markRow_length (drawn : List Annotation) (row : List Char) :
    (drawn.foldl markRow row).length = row.length := by
  induction drawn generalizing row with
  | nil => rfl
  | cons a drawn ih => rw [List.foldl_cons, ih, markRow_length]

theorem foldl_markRow_mem {c : Char} (h : c ∈ drawn.foldl markRow row) :
    c ∈ row ∨ c = '^' ∨ c = '-' := by
  induction drawn generalizing row with
  | nil => exact .inl h
  | cons a drawn ih =>
    rcases ih h with h | h
    · rcases markRow_mem row a h with h | h
      · exact .inl h
      · cases hstyle : a.style <;> simp [h, hstyle, LabelStyle.underlineMark]
    · exact .inr h

/-- A caret that no other annotation reaches is not drawn over. -/
theorem caret_of_covers {p : Annotation} (hstyle : p.style = .primary) (hp : p.Covers i)
    (hi : i < row.length) (hothers : ∀ a ∈ drawn, a = p ∨ ¬ a.Covers i)
    (hdrawn : p ∈ drawn ∨ row[i]? = some '^') : (drawn.foldl markRow row)[i]? = some '^' := by
  induction drawn generalizing row with
  | nil => exact hdrawn.resolve_left List.not_mem_nil
  | cons a drawn ih =>
    obtain ⟨ha, hrest⟩ := List.forall_mem_cons.1 hothers
    refine ih (by rwa [markRow_length]) hrest ?_
    rw [markRow_getElem? row a hi]
    rcases ha with rfl | ha
    · exact .inr (by rw [if_pos hp, hstyle]; rfl)
    · rw [if_neg ha]
      rcases hdrawn with hmem | hrow
      · rcases List.mem_cons.1 hmem with rfl | hmem
        · exact absurd hp ha
        · exact .inl hmem
      · exact .inr hrow

/-- No caret comes from annotations that are not primary or do not reach a place. -/
theorem not_caret_of_not_covers (hi : i < row.length)
    (h : ∀ a ∈ drawn, a.style = .primary → ¬ a.Covers i) (hrow : row[i]? ≠ some '^') :
    (drawn.foldl markRow row)[i]? ≠ some '^' := by
  induction drawn generalizing row with
  | nil => exact hrow
  | cons a drawn ih =>
    obtain ⟨ha, hrest⟩ := List.forall_mem_cons.1 h
    refine ih (by rwa [markRow_length]) hrest ?_
    rw [markRow_getElem? row a hi]
    split
    · next hcovers =>
      cases hstyle : a.style with
      | primary => exact absurd hcovers (ha hstyle)
      | secondary => simp [LabelStyle.underlineMark]
    · exact hrow

/-- What an annotation has drawn can be drawn over, but it is never blank again. -/
theorem not_blank_of_covers {a : Annotation} (ha : a.Covers i) (hi : i < row.length)
    (hdrawn : a ∈ drawn ∨ row[i]? ≠ some ' ') : (drawn.foldl markRow row)[i]? ≠ some ' ' := by
  induction drawn generalizing row with
  | nil => exact hdrawn.resolve_left List.not_mem_nil
  | cons b drawn ih =>
    refine ih (by rwa [markRow_length]) ?_
    rw [markRow_getElem? row b hi]
    by_cases hb : b.Covers i
    · rw [if_pos hb]
      exact .inr (by cases b.style <;> simp [LabelStyle.underlineMark])
    · rw [if_neg hb]
      rcases hdrawn with hmem | hrow
      · rcases List.mem_cons.1 hmem with rfl | hmem
        · exact absurd ha hb
        · exact .inl hmem
      · exact .inr hrow

end

/-! ## The underline -/

theorem getElem?_trimRow (row : List Char) (i : Nat) {c : Char} (hc : c ≠ ' ') :
    (trimRow row)[i]? = some c ↔ row[i]? = some c := by
  have hsplit : trimRow row ++ row.rtakeWhile (· = ' ') = row := List.rdropWhile_append_rtakeWhile
  constructor
  · intro h
    obtain ⟨hi, -⟩ := List.getElem?_eq_some_iff.1 h
    rw [← hsplit, List.getElem?_append_left hi, h]
  · intro h
    rw [← hsplit] at h
    by_cases hi : i < (trimRow row).length
    · rwa [List.getElem?_append_left hi] at h
    · rw [List.getElem?_append_right (Nat.le_of_not_lt hi)] at h
      have hblank := List.mem_rtakeWhile_imp (List.mem_of_getElem? h)
      exact absurd (by simpa using hblank) hc

theorem mem_underline {l : AnnotatedLine} {c : Char} (h : c ∈ underline l) :
    c = ' ' ∨ c = '^' ∨ c = '-' := by
  have hfront : underline l <+: l.drawingOrder.foldl markRow
      (List.replicate (underlineWidth l.text) ' ') := List.rdropWhile_prefix _ _
  rcases foldl_markRow_mem (hfront.mem h) with h | h
  · exact .inl (List.eq_of_mem_replicate h)
  · exact .inr h

/-- The carets stand under the primary label of a line, if it has one only and the others keep clear of it. -/
theorem getElem?_underline {l : AnnotatedLine} {p : Annotation} (hp : p ∈ l.annotations)
    (hstyle : p.style = .primary) (hroom : p.stop - 1 ≤ underlineWidth l.text)
    (hothers : ∀ a ∈ l.annotations, a = p ∨ a.style = .secondary ∧ ∀ i, p.Covers i → ¬ a.Covers i)
    (i : Nat) : (underline l)[i]? = some '^' ↔ p.Covers i := by
  have hmem : ∀ a, a ∈ l.drawingOrder ↔ a ∈ l.annotations := fun a => List.mem_mergeSort
  rw [underline, getElem?_trimRow _ _ (by decide)]
  by_cases hi : i < underlineWidth l.text
  · have hlength : i < (List.replicate (underlineWidth l.text) ' ').length := by
      rwa [List.length_replicate]
    constructor
    · intro h
      by_contra hcovers
      refine not_caret_of_not_covers hlength (fun a ha hprimary => ?_) ?_ h
      · rcases hothers a ((hmem a).1 ha) with rfl | ⟨hsecondary, -⟩
        · exact hcovers
        · rw [hsecondary] at hprimary
          cases hprimary
      · rw [List.getElem?_replicate_of_lt hi]
        decide
    · intro hcovers
      refine caret_of_covers hstyle hcovers hlength (fun a ha => ?_) (.inl ((hmem p).2 hp))
      exact (hothers a ((hmem a).1 ha)).imp_right fun hclear => hclear.2 i hcovers
  · have hnone : (l.drawingOrder.foldl markRow
        (List.replicate (underlineWidth l.text) ' '))[i]? = none := by
      rw [List.getElem?_eq_none_iff, foldl_markRow_length, List.length_replicate]
      exact Nat.le_of_not_lt hi
    rw [hnone]
    refine iff_of_false (by simp) fun hcovers => hi ?_
    exact Nat.lt_of_lt_of_le hcovers.2 hroom

/-- A row under a line is not blank, if something is drawn in it. -/
theorem underline_ne_nil {l : AnnotatedLine} {a : Annotation} (ha : a ∈ l.annotations) {i : Nat}
    (hcovers : a.Covers i) (hi : i < underlineWidth l.text) : underline l ≠ [] := by
  have hlength : i < (List.replicate (underlineWidth l.text) ' ').length := by
    rwa [List.length_replicate]
  have hdrawn : a ∈ l.drawingOrder := List.mem_mergeSort.2 ha
  have hrow := not_blank_of_covers hcovers hlength (.inl hdrawn)
  have hsome := List.getElem?_eq_getElem
    (Nat.lt_of_lt_of_eq hlength (foldl_markRow_length l.drawingOrder _).symm)
  intro hnil
  rw [hsome] at hrow
  have htrim := (getElem?_trimRow _ i (fun h => hrow (congrArg some h))).2 hsome
  rw [underline] at hnil
  rw [hnil] at htrim
  simp at htrim

/-! ## The rows without colours -/

/-- The rows below a line as they stand behind the margin: the underline, with the message behind it if there
is one only, and else the messages below it, the last one first. -/
def AnnotatedLine.below (l : AnnotatedLine) : List (List Char) :=
  match l.messages with
  | [] => [underline l]
  | [(_, _, message)] => [underline l ++ ' ' :: message.toList]
  | messages => underline l :: messages.reverse.map fun (column, _, message) =>
    List.replicate (column - 1) ' ' ++ message.toList

/-- A row with something in front of the bar and something behind it. -/
def barRow (gutter : Nat) (front : String) (content : List Char) : String :=
  padLeft (gutter + 1) front ++ " | " ++ String.ofList content ++ "\n"

theorem paintUnderline_plain (row : List Char) : paintUnderline false row = String.ofList row := by
  have hruns : paintUnderline false row = String.join ((row.splitBy (· == ·)).map String.ofList) := by
    refine congrArg String.join (List.map_congr_left fun run _ => ?_)
    split <;> rfl
  rw [hruns, ← String.toList_inj, String.toList_join, List.flatMap_map]
  simp only [String.toList_ofList]
  change (row.splitBy (· == ·)).flatMap id = row
  rw [← List.flatten_eq_flatMap, List.flatten_splitBy]

theorem barRow_empty (gutter : Nat) (content : List Char) :
    barRow gutter "" content = margin false gutter ++ " " ++ String.ofList content ++ "\n" := by
  have hbar : " | " = " " ++ "|" ++ " " := rfl
  have hblanks : padLeft (gutter + 1) "" = blanks (gutter + 1) := by simp [padLeft]
  rw [barRow, margin, hbar, hblanks]
  simp only [paint, Bool.false_eq_true, if_false, String.append_assoc]

theorem annotationRows_plain (gutter : Nat) {l : AnnotatedLine} (h : underline l ≠ []) :
    annotationRows false gutter l = String.join (l.below.map (barRow gutter "")) := by
  have hpaint : ∀ (style : LabelStyle) (message : String), style.paint false message = message := by
    intro style message
    cases style <;> rfl
  have hempty : (underline l).isEmpty = false := by simpa using h
  unfold annotationRows AnnotatedLine.below
  simp only [hempty, Bool.false_eq_true, if_false, hpaint, paintUnderline_plain]
  rcases l.messages with _ | ⟨⟨column, style, message⟩, _ | ⟨second, rest⟩⟩
  · simp only [List.map_cons, List.map_nil, String.join_cons, String.join_nil, barRow_empty,
      String.append_empty]
  · have hrow : String.ofList (underline l ++ ' ' :: message.toList) =
        String.ofList (underline l) ++ (" " ++ message) := by
      rw [String.ofList_append, String.ofList_cons, String.ofList_toList]
      rfl
    simp only [List.map_cons, List.map_nil, String.join_cons, String.join_nil, barRow_empty, hrow,
      String.append_assoc, String.append_empty]
  · simp only [List.map_cons, List.map_map, String.join_cons, barRow_empty, Function.comp_def,
      String.ofList_append, String.ofList_toList, blanks, String.append_assoc]

end TriLang
