import TriLang.Proofs.Source.Cuts
import TriLang.Token.Lexer

/-! # The longest match

`Munched kind word behind` says what a stretch of text is, given the text behind it: words, numbers,
operators, blanks and comments go on as far as they can (`LongestRun`), a quote takes along what closes it or
else the next character, and any other character stands alone. The lexer decides just that
(`munched_iff_classify`), so a text begins with one such stretch and no other (`Munched.unique`). -/
namespace TriLang
open TriLang.Lexeme TriLang.Text
set_option autoImplicit false

/-! ## Classes of characters that exclude each other -/

theorem isBlank_cases {c : Char} (h : isBlank c = true) : c = ' ' ∨ c = '\t' ∨ c = '\r' ∨ c = '\n' := by
  simpa [isBlank, or_assoc] using h

theorem isOperatorStart_cases {c : Char} (h : isOperatorStart c = true) :
    c = '+' ∨ c = '-' ∨ c = '*' ∨ c = '/' ∨ c = '<' ∨ c = '>' ∨ c = '\\' := by
  simpa [isOperatorStart, or_assoc] using h

/-- A letter or digit is no blank and opens no comment. -/
theorem not_separator_of_isAlphanum {c : Char} (h : c.isAlphanum = true) :
    isBlank c = false ∧ c ≠ '!' := by
  constructor
  · cases hb : isBlank c with
    | false => rfl
    | true => rcases isBlank_cases hb with rfl | rfl | rfl | rfl <;> exact absurd h (by decide)
  · rintro rfl; exact absurd h (by decide)

theorem not_isAlpha_of_isDigit {c : Char} (h : c.isDigit = true) : c.isAlpha = false := by
  have hd : 48 ≤ c.val ∧ c.val ≤ 57 := by simpa [Char.isDigit] using h
  have hu : ¬ 65 ≤ c.val := UInt32.not_le.2 (UInt32.lt_of_le_of_lt hd.2 (by decide))
  have hl : ¬ 97 ≤ c.val := UInt32.not_le.2 (UInt32.lt_of_le_of_lt hd.2 (by decide))
  have hupper : c.isUpper = false := decide_eq_false fun h => hu h.1
  have hlower : c.isLower = false := by
    show (decide (97 ≤ c.val) && decide (c.val ≤ 122)) = false
    rw [decide_eq_false hl, Bool.false_and]
  show (c.isUpper || c.isLower) = false
  rw [hupper, hlower]
  rfl

theorem not_other_of_isOperatorStart {c : Char} (h : isOperatorStart c = true) :
    isBlank c = false ∧ c ≠ '!' ∧ c.isAlpha = false ∧ c.isDigit = false := by
  rcases isOperatorStart_cases h with rfl | rfl | rfl | rfl | rfl | rfl | rfl <;> decide

/-! ## Runs -/

/-- The characters belong to the class, and what stands behind them does not go on with it. -/
structure LongestRun (p : Char → Bool) (run behind : List Char) : Prop where
  inside : ∀ c ∈ run, p c = true
  stop : ∀ c ∈ behind.head?, p c = false

theorem LongestRun.takeWhile_eq {p : Char → Bool} {run behind : List Char} (h : LongestRun p run behind) :
    (run ++ behind).takeWhile p = run := by
  rw [List.takeWhile_append_of_pos h.inside]
  cases behind with
  | nil => simp
  | cons c behind => simp [h.stop c (by simp)]

theorem head_dropWhile {p : Char → Bool} {text : List Char} :
    ∀ c ∈ (text.dropWhile p).head?, p c = false := by
  induction text with
  | nil => simp
  | cons d text ih =>
    intro c hc
    cases hd : p d with
    | true => exact ih c (by simpa [List.dropWhile_cons, hd] using hc)
    | false =>
      obtain rfl : d = c := by simpa [List.dropWhile_cons, hd] using hc
      exact hd

/-- A text begins with a run of each class, which may be empty. -/
theorem longestRun_take (p : Char → Bool) (text : List Char) :
    LongestRun p (text.take (text.takeWhile p).length) (text.drop (text.takeWhile p).length) := by
  have htake : text.take (text.takeWhile p).length = text.takeWhile p :=
    (List.prefix_iff_eq_take.1 (List.takeWhile_prefix p)).symm
  have hdrop : text.drop (text.takeWhile p).length = text.dropWhile p := by
    have hboth : text.take (text.takeWhile p).length ++ text.drop (text.takeWhile p).length =
        text.takeWhile p ++ text.dropWhile p := by
      rw [List.take_append_drop, List.takeWhile_append_dropWhile]
    rw [htake] at hboth
    exact List.append_cancel_left hboth
  rw [htake, hdrop]
  exact ⟨List.all_eq_true.1 List.all_takeWhile, head_dropWhile⟩

/-! ## What a stretch of text is -/

/-- Whether something other than an error begins with the character, or a quote. -/
def opens (c : Char) : Bool :=
  isBlank c || c = '!' || c.isAlpha || c.isDigit || isOperatorStart c || c = '\'' || c = ';' ||
    c = '=' || c = '~' || c = '(' || c = ')'

/-- What the stretch is, given the text behind it. -/
inductive Munched : Lexeme.Class → List Char → List Char → Prop where
  | blanks {c : Char} {tail behind : List Char} (hc : isBlank c = true)
    (hrun : LongestRun isBlank tail behind) : Munched .separator (c :: tail) behind
  /-- A comment goes on to the end of its line. -/
  | comment {tail behind : List Char} (hrun : LongestRun (· ≠ '\n') tail behind) :
    Munched .separator ('!' :: tail) behind
  | keyword {c : Char} {tail behind : List Char} (k : Keyword) (hc : c.isAlpha = true)
    (hrun : LongestRun Char.isAlphanum tail behind) (hk : k.spelling.toList = c :: tail) :
    Munched (.token (.keyword k)) (c :: tail) behind
  | identifier {c : Char} {tail behind : List Char} (hc : c.isAlpha = true)
    (hrun : LongestRun Char.isAlphanum tail behind)
    (hk : ∀ k : Keyword, k.spelling.toList ≠ c :: tail) : Munched (.token .identifier) (c :: tail) behind
  | number {c : Char} {tail behind : List Char} (hc : c.isDigit = true)
    (hrun : LongestRun Char.isDigit tail behind) : Munched (.token .intLiteral) (c :: tail) behind
  | operator {c : Char} {tail behind : List Char} (hc : isOperatorStart c = true)
    (hrun : LongestRun isOperatorRest tail behind) : Munched (.token .operator) (c :: tail) behind
  /-- Any character stands between two quotes, a quote or the end of a line too. -/
  | character (c : Char) (behind : List Char) : Munched (.token .charLiteral) ['\'', c, '\''] behind
  /-- A quote that the next but one character does not close takes the next one along. -/
  | unclosed (c : Char) {behind : List Char} (hstop : behind.head? ≠ some '\'') :
    Munched (.bad .malformedCharLiteral) ['\'', c] behind
  /-- A quote at the end of the text. -/
  | last : Munched (.bad .malformedCharLiteral) ['\''] []
  | semicolon (behind : List Char) : Munched (.token .semicolon) [';'] behind
  | becomes (behind : List Char) : Munched (.token .becomes) ['='] behind
  | is (behind : List Char) : Munched (.token .is) ['~'] behind
  | leftBracket (behind : List Char) : Munched (.token .leftBracket) ['('] behind
  | rightBracket (behind : List Char) : Munched (.token .rightBracket) [')'] behind
  | unexpected {c : Char} (hc : opens c = false) (behind : List Char) :
    Munched (.bad (.unexpectedCharacter c)) [c] behind

/-! ## The lexer -/

theorem wordKind_of_spelling (k : Keyword) : wordKind k.spelling.toList = .keyword k := by
  cases k <;> decide

theorem wordKind_of_forall {word : List Char} (h : ∀ k : Keyword, k.spelling.toList ≠ word) :
    wordKind word = .identifier := by
  have hnone : Keyword.ofSpelling? (String.ofList word) = none := by
    refine List.find?_eq_none.2 fun k _ hk => h k ?_
    have hspelling : k.spelling = String.ofList word := by simpa using hk
    rw [hspelling, String.toList_ofList]
  rw [wordKind, hnone]

theorem wordKind_cases (text : List Char) :
    wordKind text = .identifier ∨ ∃ k : Keyword, wordKind text = .keyword k ∧ k.spelling.toList = text := by
  by_cases h : ∃ k : Keyword, k.spelling.toList = text
  · obtain ⟨k, rfl⟩ := h
    exact .inr ⟨k, wordKind_of_spelling k, rfl⟩
  · exact .inl (wordKind_of_forall (not_exists.1 h))

theorem Munched.word {c : Char} {tail behind : List Char} (hc : c.isAlpha = true)
    (hrun : LongestRun Char.isAlphanum tail behind) :
    Munched (.token (wordKind (c :: tail))) (c :: tail) behind := by
  by_cases h : ∃ k : Keyword, k.spelling.toList = c :: tail
  · obtain ⟨k, hk⟩ := h
    rw [← hk, wordKind_of_spelling, hk]
    exact .keyword k hc hrun hk
  · rw [wordKind_of_forall (not_exists.1 h)]
    exact .identifier hc hrun (not_exists.1 h)

/-- What the lexer takes from the front of a text. -/
theorem munched_of_classify (c : Char) (rest : List Char) :
    Munched (classify c rest).1 (c :: rest.take (classify c rest).2)
      (rest.drop (classify c rest).2) := by
  fun_cases classify c rest with
  | case1 rest hc => exact .blanks hc (longestRun_take isBlank rest)
  | case2 rest _ hc => exact hc ▸ .comment (longestRun_take _ rest)
  | case3 rest _ _ hc tail =>
    have htail : tail = rest.take tail.length := List.prefix_iff_eq_take.1 (List.takeWhile_prefix _)
    have hrun := longestRun_take Char.isAlphanum rest
    rw [← htail] at hrun ⊢
    exact .word hc hrun
  | case4 rest _ _ _ hc => exact .number hc (longestRun_take Char.isDigit rest)
  | case5 rest _ _ _ _ hc => exact .operator hc (longestRun_take isOperatorRest rest)
  | case6 _ _ _ _ _ hc d rest => exact hc ▸ .character d rest
  | case7 _ _ _ _ _ hc d rest hopen =>
    refine hc ▸ .unclosed d fun hstop => ?_
    obtain ⟨more, hmore⟩ := List.head?_eq_some_iff.1 hstop
    exact hopen more hmore
  | case8 _ _ _ _ _ hc => exact hc ▸ .last
  | case9 rest _ _ _ _ _ _ hc => exact hc ▸ .semicolon rest
  | case10 rest _ _ _ _ _ _ _ hc => exact hc ▸ .becomes rest
  | case11 rest _ _ _ _ _ _ _ _ hc => exact hc ▸ .is rest
  | case12 rest _ _ _ _ _ _ _ _ _ hc => exact hc ▸ .leftBracket rest
  | case13 rest _ _ _ _ _ _ _ _ _ _ hc => exact hc ▸ .rightBracket rest
  | case14 rest => exact .unexpected (by simp_all [opens]) rest

theorem Munched.classify {kind : Lexeme.Class} {c : Char} {tail behind : List Char}
    (h : Munched kind (c :: tail) behind) : classify c (tail ++ behind) = (kind, tail.length) := by
  have hletter : c.isAlpha = true → isBlank c = false ∧ c ≠ '!' := fun hc =>
    not_separator_of_isAlphanum (by simp [Char.isAlphanum, hc])
  unfold Lexeme.classify
  cases h with
  | blanks hc hrun => rw [if_pos hc, hrun.takeWhile_eq]
  | comment hrun =>
    rw [if_neg (show ¬ isBlank '!' = true by decide), if_pos rfl, hrun.takeWhile_eq]
  | keyword k hc hrun hk =>
    obtain ⟨hb, hx⟩ := hletter hc
    simp only [hb, hx, hc, hrun.takeWhile_eq, ← hk, wordKind_of_spelling, Bool.false_eq_true, if_false,
      if_true]
  | identifier hc hrun hk =>
    obtain ⟨hb, hx⟩ := hletter hc
    simp only [hb, hx, hc, hrun.takeWhile_eq, wordKind_of_forall hk, Bool.false_eq_true, if_false,
      if_true]
  | number hc hrun =>
    obtain ⟨hb, hx⟩ := not_separator_of_isAlphanum (c := c) (by simp [Char.isAlphanum, hc])
    simp only [hb, hx, hc, not_isAlpha_of_isDigit hc, hrun.takeWhile_eq, Bool.false_eq_true, if_false,
      if_true]
  | operator hc hrun =>
    obtain ⟨hb, hx, ha, hd⟩ := not_other_of_isOperatorStart hc
    simp only [hb, hx, ha, hd, hc, hrun.takeWhile_eq, Bool.false_eq_true, if_false, if_true]
  | unclosed d hstop =>
    cases behind with
    | nil => rfl
    | cons e behind =>
      have he : e ≠ '\'' := by simpa using hstop
      simp [isBlank, isOperatorStart, he]
  | unexpected hc =>
    simp only [opens, Bool.or_eq_false_iff, decide_eq_false_iff_not] at hc
    simp [hc]
  | _ => rfl

theorem munched_iff_classify {kind : Lexeme.Class} {c : Char} {tail behind : List Char} :
    Munched kind (c :: tail) behind ↔ classify c (tail ++ behind) = (kind, tail.length) := by
  refine ⟨Munched.classify, fun h => ?_⟩
  have hmunched := munched_of_classify c (tail ++ behind)
  rwa [h, List.take_left, List.drop_left] at hmunched

theorem Munched.ne_nil {kind : Lexeme.Class} {stretch behind : List Char}
    (h : Munched kind stretch behind) : stretch ≠ [] := by
  cases h <;> exact List.cons_ne_nil _ _

theorem Munched.separator_of_isBlank {kind : Lexeme.Class} {c : Char} {tail behind : List Char}
    (h : Munched kind (c :: tail) behind) (hc : isBlank c = true) : kind = .separator := by
  have hclass := h.classify
  unfold Lexeme.classify at hclass
  rw [if_pos hc] at hclass
  exact (Prod.mk.inj hclass).1.symm

/-- Every text but the empty one begins with a stretch. -/
theorem exists_munched (c : Char) (rest : List Char) :
    ∃ kind tail behind, rest = tail ++ behind ∧ Munched kind (c :: tail) behind :=
  ⟨_, _, _, (List.take_append_drop _ rest).symm, munched_of_classify c rest⟩

/-- A text begins with one stretch only. -/
theorem Munched.unique {kind kind' : Lexeme.Class} {stretch behind stretch' behind' : List Char}
    (h : Munched kind stretch behind) (h' : Munched kind' stretch' behind')
    (htext : stretch ++ behind = stretch' ++ behind') : kind = kind' ∧ stretch = stretch' := by
  obtain ⟨c, tail, rfl⟩ := List.exists_cons_of_ne_nil h.ne_nil
  obtain ⟨d, tail', rfl⟩ := List.exists_cons_of_ne_nil h'.ne_nil
  obtain ⟨rfl, htails⟩ : c = d ∧ tail ++ behind = tail' ++ behind' := by simpa using htext
  have hboth := h.classify
  rw [htails, h'.classify] at hboth
  obtain ⟨rfl, hlength⟩ := Prod.mk.inj hboth
  exact ⟨rfl, congrArg _ (List.append_inj_left htails hlength.symm)⟩

/-! ## Ends of lines -/

section
variable {c : Char} {behind : List Char}

theorem LongestRun.append {p : Char → Bool} {run more : List Char} (h : LongestRun p run behind)
    (hline : p '\n' = false) (hmore : behind ≠ [] ∨ more.head? = some '\n') :
    LongestRun p run (behind ++ more) := by
  refine ⟨h.inside, fun d hd => ?_⟩
  cases behind with
  | nil =>
    obtain rfl : '\n' = d := by simpa [hmore.resolve_left (by simp)] using hd
    exact hline
  | cons e behind => exact h.stop d hd

theorem LongestRun.getLast?_ne {p : Char → Bool} {run : List Char} (h : LongestRun p run behind)
    (hline : p '\n' = false) (hc : isBlank c = false) : (c :: run).getLast? ≠ some '\n' := by
  intro hlast
  rcases List.mem_cons.1 (List.mem_of_getLast? hlast) with rfl | hmem
  · exact absurd hc (by decide)
  · simp [h.inside _ hmem] at hline

variable {kind : Lexeme.Class} {tail more : List Char} (h : Munched kind (c :: tail) behind)
  (hblank : isBlank c = false) (hkind : ∀ cause, kind ≠ .bad cause)
include h hblank hkind

/-- What is no blank and no error stays what it is when the text goes on, if the text goes on already or the
line ends there. -/
theorem Munched.append (hmore : behind ≠ [] ∨ more.head? = some '\n') :
    Munched kind (c :: tail) (behind ++ more) := by
  cases h with
  | blanks hc => simp [hc] at hblank
  | comment hrun => exact .comment (hrun.append (by simp) hmore)
  | keyword k hc hrun hk => exact .keyword k hc (hrun.append (by decide) hmore) hk
  | identifier hc hrun hk => exact .identifier hc (hrun.append (by decide) hmore) hk
  | number hc hrun => exact .number hc (hrun.append (by decide) hmore)
  | operator hc hrun => exact .operator hc (hrun.append (by decide) hmore)
  | character d => exact .character d _
  | semicolon => exact .semicolon _
  | becomes => exact .becomes _
  | is => exact .is _
  | leftBracket => exact .leftBracket _
  | rightBracket => exact .rightBracket _
  | unclosed | last | unexpected => exact absurd rfl (hkind _)

/-- What is no blank and no error ends within a line. -/
theorem Munched.getLast?_ne : (c :: tail).getLast? ≠ some '\n' := by
  cases h with
  | blanks hc => simp [hc] at hblank
  | comment hrun => exact hrun.getLast?_ne (by simp) hblank
  | keyword k hc hrun => exact hrun.getLast?_ne (by decide) hblank
  | identifier hc hrun => exact hrun.getLast?_ne (by decide) hblank
  | number hc hrun => exact hrun.getLast?_ne (by decide) hblank
  | operator hc hrun => exact hrun.getLast?_ne (by decide) hblank
  | unclosed | last | unexpected => exact absurd rfl (hkind _)
  | _ => simp

end

/-! ## Cutting a text -/

theorem split_cons {c : Char} {rest : List Char} {kind : Lexeme.Class} {n : Nat}
    (hc : classify c rest = (kind, n)) (offset : Nat) :
    split offset (c :: rest) = ⟨kind, c :: rest.take n, offset⟩ ::
      split (offset + byteLength (c :: rest.take n)) (rest.drop n) := by
  rw [split, hc]

theorem Munched.split_eq {kind : Lexeme.Class} {stretch behind : List Char}
    (h : Munched kind stretch behind) (offset : Nat) :
    split offset (stretch ++ behind) = ⟨kind, stretch, offset⟩ ::
      split (offset + byteLength stretch) behind := by
  obtain ⟨c, tail, rfl⟩ := List.exists_cons_of_ne_nil h.ne_nil
  rw [List.cons_append, split_cons h.classify, List.take_left, List.drop_left]

/-- Every lexeme stands in the text at its offset, and is what the text begins with there. -/
theorem mem_split {offset : Nat} {text : List Char} :
    ∀ l ∈ split offset text, ∃ front behind, text = front ++ (l.text ++ behind) ∧
      l.start = offset + byteLength front ∧ Munched l.kind l.text behind := by
  induction offset, text using split.induct with
  | case1 offset => rw [split]; simp
  | case2 offset c rest kind extent hc text ih =>
    have hmunched := munched_of_classify c rest
    rw [hc] at hmunched
    rw [split_cons hc]
    intro l hl
    rcases List.mem_cons.1 hl with rfl | hl
    · exact ⟨[], rest.drop extent, by simp, rfl, hmunched⟩
    · obtain ⟨front, behind, htext, hstart, hl⟩ := ih l hl
      refine ⟨text ++ front, behind, ?_, ?_, hl⟩
      · rw [List.append_assoc, ← htext]
        simp [text]
      · rw [hstart, byteLength_append, Nat.add_assoc]

end TriLang
