import TriLang.Source.Slice

/-! # Cutting a text where its parts meet

A text that is put together from parts falls into these parts again when it is cut at the offsets at which
they meet. -/
namespace TriLang.Text
set_option autoImplicit false

theorem byteLength_append (a b : List Char) : byteLength (a ++ b) = byteLength a + byteLength b := by
  induction a with
  | nil => simp [byteLength]
  | cons c a ih =>
    rw [List.cons_append, byteLength, byteLength, ih]
    omega

theorem byteLength_pos {a : List Char} (h : a ≠ []) : 0 < byteLength a := by
  cases a with
  | nil => exact absurd rfl h
  | cons c a =>
    have hc := c.utf8Size_pos
    rw [byteLength]
    omega

/-! ## Cuts behind the first character -/

section
variable (c : Char) (n : Nat) (a : List Char)

theorem drop?_cons : drop? (c.utf8Size + n) (c :: a) = drop? n a := by
  have hc := c.utf8Size_pos
  obtain ⟨m, hm⟩ : ∃ m, c.utf8Size + n = m + 1 := ⟨c.utf8Size + n - 1, by omega⟩
  have hle : c.utf8Size ≤ m + 1 := by omega
  have hrest : m + 1 - c.utf8Size = n := by omega
  rw [hm, drop?, if_pos hle, hrest]

theorem take?_cons : take? (c.utf8Size + n) (c :: a) = (take? n a).map (c :: ·) := by
  have hc := c.utf8Size_pos
  obtain ⟨m, hm⟩ : ∃ m, c.utf8Size + n = m + 1 := ⟨c.utf8Size + n - 1, by omega⟩
  have hle : c.utf8Size ≤ m + 1 := by omega
  have hrest : m + 1 - c.utf8Size = n := by omega
  rw [hm, take?, if_pos hle, hrest]

end

/-! ## Cuts behind the first part -/

theorem drop?_append (a b : List Char) : drop? (byteLength a) (a ++ b) = some b := by
  induction a with
  | nil => simp [byteLength, drop?]
  | cons c a ih => rw [byteLength, List.cons_append, drop?_cons, ih]

theorem take?_append (a b : List Char) : take? (byteLength a) (a ++ b) = some a := by
  induction a with
  | nil => simp [byteLength, take?]
  | cons c a ih =>
    rw [byteLength, List.cons_append, take?_cons, ih]
    rfl

theorem slice?_append (a b c : List Char) :
    slice? (byteLength a) (byteLength a + byteLength b) (a ++ (b ++ c)) = some b := by
  have hle : byteLength a ≤ byteLength a + byteLength b := by omega
  rw [slice?, if_pos hle, drop?_append, Option.bind_some, Nat.add_sub_cancel_left, take?_append]

/-! ## Where a text can be cut -/

/-- At the offset one character of the text ends or another one begins. -/
def IsBoundary (text : List Char) (offset : Nat) : Prop :=
  ∃ front behind, text = front ++ behind ∧ byteLength front = offset

theorem isBoundary_zero (text : List Char) : IsBoundary text 0 := ⟨[], text, rfl, rfl⟩

theorem IsBoundary.le {text : List Char} {offset : Nat} (h : IsBoundary text offset) :
    offset ≤ byteLength text := by
  obtain ⟨front, behind, rfl, rfl⟩ := h
  rw [byteLength_append]
  omega

theorem exists_of_drop? {n : Nat} {text rest : List Char} (h : drop? n text = some rest) :
    ∃ front, text = front ++ rest ∧ byteLength front = n := by
  induction text generalizing n with
  | nil =>
    obtain _ | n := n
    · exact ⟨[], Option.some.inj h, rfl⟩
    · simp [drop?] at h
  | cons c text ih =>
    obtain _ | n := n
    · exact ⟨[], Option.some.inj h, rfl⟩
    · by_cases hle : c.utf8Size ≤ n + 1
      · rw [drop?, if_pos hle] at h
        obtain ⟨front, rfl, hfront⟩ := ih h
        refine ⟨c :: front, rfl, ?_⟩
        rw [byteLength, hfront]
        omega
      · rw [drop?, if_neg hle] at h
        simp at h

theorem exists_of_take? {n : Nat} {text front : List Char} (h : take? n text = some front) :
    ∃ rest, text = front ++ rest ∧ byteLength front = n := by
  induction text generalizing n front with
  | nil =>
    obtain _ | n := n
    · obtain rfl := Option.some.inj h
      exact ⟨[], rfl, rfl⟩
    · simp [take?] at h
  | cons c text ih =>
    obtain _ | n := n
    · obtain rfl := Option.some.inj h
      exact ⟨c :: text, rfl, rfl⟩
    · by_cases hle : c.utf8Size ≤ n + 1
      · rw [take?, if_pos hle, Option.map_eq_some_iff] at h
        obtain ⟨front, h, rfl⟩ := h
        obtain ⟨rest, rfl, hfront⟩ := ih h
        refine ⟨rest, rfl, ?_⟩
        rw [byteLength, hfront]
        omega
      · rw [take?, if_neg hle] at h
        simp at h

/-- What is cut out of a text begins and ends at boundaries. -/
theorem exists_of_slice? {start stop : Nat} {text inside : List Char}
    (h : slice? start stop text = some inside) :
    start ≤ stop ∧ IsBoundary text start ∧ IsBoundary text stop := by
  by_cases hle : start ≤ stop
  · rw [slice?, if_pos hle, Option.bind_eq_some_iff] at h
    obtain ⟨rest, hdrop, htake⟩ := h
    obtain ⟨front, rfl, hfront⟩ := exists_of_drop? hdrop
    obtain ⟨behind, rfl, hinside⟩ := exists_of_take? htake
    refine ⟨hle, ⟨front, _, rfl, hfront⟩, ⟨front ++ inside, behind, by simp, ?_⟩⟩
    rw [byteLength_append, hfront, hinside]
    omega
  · rw [slice?, if_neg hle] at h
    simp at h

end TriLang.Text
