import TriLang.Proofs.Lexing.Munching

/-! # How tokens are spelled

`Spells kind c tail` says that a token of the kind can be spelled `c :: tail`. What the lexer reads as a
token is a spelling of its kind, and a spelling is read as one token of its kind if nothing behind it goes
on with a word, a number or an operator (`Stops`). -/
namespace TriLang
open TriLang.Lexeme
set_option autoImplicit false

/-! ## Spellings -/

/-- The ways to spell a token of each kind, by the first character and the rest. -/
inductive Spells : Token.Kind → Char → List Char → Prop where
  | word {c : Char} {tail : List Char} (hc : c.isAlpha = true)
    (ht : ∀ d ∈ tail, d.isAlphanum = true) : Spells (wordKind (c :: tail)) c tail
  | number {c : Char} {tail : List Char} (hc : c.isDigit = true)
    (ht : ∀ d ∈ tail, d.isDigit = true) : Spells .intLiteral c tail
  | operator {c : Char} {tail : List Char} (hc : isOperatorStart c = true)
    (ht : ∀ d ∈ tail, isOperatorRest d = true) : Spells .operator c tail
  | character (c : Char) : Spells .charLiteral '\'' [c, '\'']
  | semicolon : Spells .semicolon ';' []
  | becomes : Spells .becomes '=' []
  | is : Spells .is '~' []
  | leftBracket : Spells .leftBracket '(' []
  | rightBracket : Spells .rightBracket ')' []

/-- Whether a token of the kind ends by itself, whatever stands behind it. -/
def Token.Kind.delimited : Token.Kind → Bool
  | charLiteral | semicolon | becomes | is | leftBracket | rightBracket => true
  | _ => false

/-- No word, number or operator goes on with the text. -/
def Stops (text : List Char) : Prop :=
  ∀ c ∈ text.head?, c.isAlphanum = false ∧ isOperatorRest c = false

theorem Spells.ne_endOfText {kind : Token.Kind} {c : Char} {tail : List Char}
    (h : Spells kind c tail) : kind ≠ .endOfText := by
  cases h with
  | word => rcases wordKind_cases (c :: tail) with hk | ⟨k, hk, -⟩ <;> rw [hk] <;> simp
  | _ => simp

/-- What `;` and the brackets begin with stops whatever stands in front of it. -/
theorem Spells.stops {kind : Token.Kind} {c : Char} {tail : List Char} (h : Spells kind c tail)
    (hk : kind = .semicolon ∨ kind = .leftBracket ∨ kind = .rightBracket) :
    c.isAlphanum = false ∧ isOperatorRest c = false := by
  cases h with
  | word => rcases wordKind_cases (c :: tail) with h | ⟨k, h, -⟩ <;> simp [h] at hk
  | semicolon => exact ⟨by decide, by decide⟩
  | leftBracket => exact ⟨by decide, by decide⟩
  | rightBracket => exact ⟨by decide, by decide⟩
  | _ => simp at hk

/-- An identifier is a letter with letters and digits behind it. -/
theorem Spells.letters {c : Char} {tail : List Char} (h : Spells .identifier c tail) :
    c.isAlpha = true ∧ ∀ d ∈ tail, d.isAlphanum = true := by
  generalize hk : Token.Kind.identifier = kind at h
  cases h with
  | word hc ht => exact ⟨hc, ht⟩
  | _ => simp at hk

theorem Spells.operatorStart {c : Char} {tail : List Char} (h : Spells .operator c tail) :
    isOperatorStart c = true := by
  generalize hk : Token.Kind.operator = kind at h
  cases h with
  | word => rcases wordKind_cases (c :: tail) with hword | ⟨k, hword, -⟩ <;> simp [hword] at hk
  | operator hc => exact hc
  | _ => simp at hk

/-- A token of the kind can be spelled like this. -/
def IsSpelling (kind : Token.Kind) (spelling : String) : Prop :=
  ∃ c tail, spelling.toList = c :: tail ∧ Spells kind c tail

theorem isSpelling_keyword (k : Keyword) : IsSpelling (.keyword k) k.spelling := by
  have hword : ∀ {c : Char} {tail : List Char}, c.isAlpha = true →
      tail.all Char.isAlphanum = true → wordKind (c :: tail) = .keyword k →
      Spells (.keyword k) c tail := by
    intro c tail hc ht hk
    exact hk ▸ Spells.word hc (List.all_eq_true.1 ht)
  cases k <;> exact ⟨_, _, rfl, hword (by decide) (by decide) (by decide)⟩

/-! ## Reading a spelling -/

theorem Stops.longestRun {p : Char → Bool} {tail behind : List Char} (h : Stops behind)
    (hp : ∀ c, p c = true → c.isAlphanum = true ∨ isOperatorRest c = true)
    (ht : ∀ d ∈ tail, p d = true) : LongestRun p tail behind := by
  refine ⟨ht, fun d hd => Bool.eq_false_iff.2 fun hpd => ?_⟩
  obtain ⟨hword, hoperator⟩ := h d hd
  rcases hp d hpd with h | h
  · simp [h] at hword
  · simp [h] at hoperator

/-- A spelling is what a text begins with if nothing behind it goes on with it. -/
theorem Spells.munched {kind : Token.Kind} {c : Char} {tail behind : List Char}
    (h : Spells kind c tail) (hr : kind.delimited = true ∨ Stops behind) :
    Munched (.token kind) (c :: tail) behind := by
  cases h with
  | word hc ht =>
    have hstop : Stops behind := by
      rcases hr with hr | hr
      · rcases wordKind_cases (c :: tail) with hk | ⟨k, hk, -⟩ <;> simp [hk, Token.Kind.delimited] at hr
      · exact hr
    exact .word hc (hstop.longestRun (fun _ => .inl) ht)
  | number hc ht =>
    have hstop : Stops behind := by simpa [Token.Kind.delimited] using hr
    exact .number hc (hstop.longestRun (fun d hd => .inl (by simp [Char.isAlphanum, hd])) ht)
  | operator hc ht =>
    have hstop : Stops behind := by simpa [Token.Kind.delimited] using hr
    exact .operator hc (hstop.longestRun (fun _ => .inr) ht)
  | character d => exact .character d behind
  | semicolon => exact .semicolon behind
  | becomes => exact .becomes behind
  | is => exact .is behind
  | leftBracket => exact .leftBracket behind
  | rightBracket => exact .rightBracket behind

/-- A spelling is read as one token of its kind. -/
theorem Spells.classify {kind : Token.Kind} {c : Char} {tail rest : List Char}
    (h : Spells kind c tail) (hr : kind.delimited = true ∨ Stops rest) :
    classify c (tail ++ rest) = (.token kind, tail.length) :=
  (h.munched hr).classify

theorem Munched.spells {kind : Token.Kind} {c : Char} {tail behind : List Char}
    (h : Munched (.token kind) (c :: tail) behind) : Spells kind c tail := by
  cases h with
  | keyword k hc hrun hk =>
    have hword := Spells.word hc hrun.inside
    rwa [← hk, wordKind_of_spelling] at hword
  | identifier hc hrun hk =>
    have hword := Spells.word hc hrun.inside
    rwa [wordKind_of_forall hk] at hword
  | number hc hrun => exact .number hc hrun.inside
  | operator hc hrun => exact .operator hc hrun.inside
  | character d => exact .character d
  | semicolon => exact .semicolon
  | becomes => exact .becomes
  | is => exact .is
  | leftBracket => exact .leftBracket
  | rightBracket => exact .rightBracket

/-- What is read as a token is a spelling of its kind. -/
theorem spells_of_classify {kind : Token.Kind} {c : Char} {rest : List Char} {n : Nat}
    (h : classify c rest = (.token kind, n)) : Spells kind c (rest.take n) := by
  have hmunched := munched_of_classify c rest
  rw [h] at hmunched
  exact hmunched.spells

end TriLang
