import TriLang.Proofs.Lexing.Tiling

/-! # What the tokens of a text are

Each token is the longest match at the place where it begins: `Classifies text lexed` puts together what the
class of a token says about its spelling and about the text behind it, which errors there are, and that
nothing stands outside the tokens but separators. `tokenize_classifies` shows it of every text. -/
namespace TriLang
open TriLang.Lexeme TriLang.Text
set_option autoImplicit false

/-- In the text the token has its spelling under its span, and the rest behind it. -/
def Token.StandsIn (text behind : List Char) (t : Token) : Prop :=
  drop? t.span.start text = some (t.spelling.toList ++ behind) ∧ drop? t.span.stop text = some behind

/-- What the token was read as, if these are the errors. -/
def Token.IsReadAs (errors : List LexError) (t : Token) (kind : Lexeme.Class) : Prop :=
  kind = .token t.kind ∨ t.kind = .error ∧ ∃ cause, kind = .bad cause ∧ ⟨cause, t.span⟩ ∈ errors

/-- The place belongs to the span. -/
def Span.Covers (s : Span) (place : Nat) : Prop := s.start ≤ place ∧ place < s.stop

/-- The tokens and errors say of every place of the text what stands there. -/
structure Classifies (text : List Char) (lexed : Lexed) : Prop where
  /-- A token is as long as its class allows. -/
  tokens : ∀ t ∈ lexed.tokens, t.kind ≠ .error → t.kind ≠ .endOfText →
    ∃ behind, t.StandsIn text behind ∧ Munched (.token t.kind) t.spelling.toList behind
  /-- The errors belong one by one to the error tokens, and say what they are. -/
  errors : List.Forall₂ (fun t e => e.span = t.span ∧ ∃ behind, t.StandsIn text behind ∧
    Munched (.bad e.cause) t.spelling.toList behind) (lexed.tokens.filter (·.kind = .error)) lexed.errors
  /-- Where a token begins, nothing else can be read. -/
  only : ∀ t ∈ lexed.tokens, ∀ kind stretch behind,
    drop? t.span.start text = some (stretch ++ behind) → Munched kind stretch behind →
    t.spelling.toList = stretch ∧ t.IsReadAs lexed.errors kind
  /-- `=` is no token of its own where an operator goes on with it. -/
  apart : ∀ t ∈ lexed.tokens, ∀ u ∈ lexed.tokens, t.kind = .operator → t.span.stop = u.span.start →
    u.kind ≠ .becomes ∧ u.kind ≠ .operator
  /-- Between the tokens there are only separators. -/
  gaps : ∀ g ∈ Token.gaps 0 lexed.tokens, ∃ gap behind,
    slice? g.start g.stop text = some gap ∧ drop? g.stop text = some behind ∧ Separators behind gap
  /-- Every place belongs to a token, or to what is between two of them. -/
  covered : ∀ place < byteLength text, (∃ g ∈ Token.gaps 0 lexed.tokens, g.Covers place) ∨
    ∃ t ∈ lexed.tokens, t.span.Covers place
  /-- A character that nothing begins with is an error by itself, unless it is in a separator or behind a
  quote. -/
  others : ∀ front c behind, text = front ++ c :: behind → opens c = false →
    (∃ g ∈ Token.gaps 0 lexed.tokens, g.Covers (byteLength front)) ∨
    ∃ t ∈ lexed.tokens, t.span.Covers (byteLength front) ∧ (t.kind = .charLiteral ∨ t.kind = .error ∧
      (⟨.malformedCharLiteral, t.span⟩ ∈ lexed.errors ∨ t.spelling.toList = [c] ∧
        t.span.start = byteLength front ∧ ⟨.unexpectedCharacter c, t.span⟩ ∈ lexed.errors))

/-! ## Places -/

theorem Tiles.covered {offset : Nat} {text : List Char} {tokens : List Token} (h : Tiles offset text tokens)
    {place : Nat} (hle : offset ≤ place) (hlt : place < offset + byteLength text) :
    (∃ g ∈ Token.gaps offset tokens, g.Covers place) ∨ ∃ t ∈ tokens, t.span.Covers place := by
  induction h with
  | @stop offset gap t hgap hkind hspelling hspan =>
    refine .inl ⟨_, List.mem_cons_self, hle, ?_⟩
    rw [hspan]
    exact hlt
  | @token offset gap word rest t tokens hgap hword hkind hspelling hspan h ih =>
    rw [byteLength_append, byteLength_append] at hlt
    have hstart : t.span.start = offset + byteLength gap := by rw [hspan]
    have hstop : t.span.stop = offset + byteLength gap + byteLength word := by rw [hspan]
    by_cases hgap : place < t.span.start
    · exact .inl ⟨_, List.mem_cons_self, hle, hgap⟩
    by_cases htoken : place < t.span.stop
    · exact .inr ⟨t, List.mem_cons_self, Nat.not_lt.1 hgap, htoken⟩
    rcases ih (Nat.not_lt.1 htoken) (by omega) with ⟨g, hg, hcovers⟩ | ⟨u, hu, hcovers⟩
    · exact .inl ⟨g, List.mem_cons_of_mem _ hg, hcovers⟩
    · exact .inr ⟨u, List.mem_cons_of_mem t hu, hcovers⟩

/-- Of two ways to cut a text, the one that cuts it further on has more in front. -/
theorem exists_between {front behind front' behind' : List Char} (h : front ++ behind = front' ++ behind')
    (hle : byteLength front' ≤ byteLength front) :
    ∃ between, front = front' ++ between ∧ behind' = between ++ behind := by
  rcases List.append_eq_append_iff.1 h with ⟨between, rfl, rfl⟩ | ⟨between, rfl, rfl⟩
  · obtain rfl : between = [] := by
      by_contra hne
      have hpos := byteLength_pos hne
      rw [byteLength_append] at hle
      omega
    exact ⟨[], by simp, by simp⟩
  · exact ⟨between, rfl, rfl⟩

/-- A character that a stretch of the text covers is in it. -/
theorem exists_inside {front stretch behind front' rest : List Char} {c : Char}
    (h : front' ++ c :: rest = front ++ (stretch ++ behind)) (hle : byteLength front ≤ byteLength front')
    (hlt : byteLength front' < byteLength front + byteLength stretch) :
    ∃ before after, front' = front ++ before ∧ stretch = before ++ c :: after := by
  obtain ⟨before, rfl, hstretch⟩ := exists_between h hle
  rw [byteLength_append] at hlt
  obtain ⟨after, rfl, hrest⟩ := exists_between hstretch (by omega)
  refine ⟨before, ?_⟩
  cases after with
  | nil => simp at hlt
  | cons d after =>
    obtain ⟨rfl, -⟩ := List.cons.inj hrest
    exact ⟨after, rfl, rfl⟩

/-! ## Tokens -/

theorem Token.StandsIn.exists_front {text behind : List Char} {t : Token} (h : t.StandsIn text behind) :
    ∃ front, text = front ++ (t.spelling.toList ++ behind) ∧ byteLength front = t.span.start ∧
      byteLength front + byteLength t.spelling.toList = t.span.stop := by
  obtain ⟨front, htext, hstart⟩ := exists_of_drop? h.1
  obtain ⟨front', htext', hstop⟩ := exists_of_drop? h.2
  refine ⟨front, htext, hstart, ?_⟩
  have hlength := congrArg byteLength (htext.symm.trans htext')
  rw [byteLength_append, byteLength_append, byteLength_append] at hlength
  omega

theorem standsIn_of_mem_split {text : List Char} {l : Lexeme} (hl : l ∈ split 0 text) :
    ∃ behind, Munched l.kind l.text behind ∧ ∀ t : Token, t.spelling = String.ofList l.text →
      t.span = l.span → t.StandsIn text behind := by
  obtain ⟨front, behind, rfl, hstart, hmunched⟩ := mem_split l hl
  refine ⟨behind, hmunched, fun t hspelling hspan => ?_⟩
  have hdrop := drop?_append (front ++ l.text) behind
  rw [byteLength_append, List.append_assoc] at hdrop
  rw [Token.StandsIn, hspelling, hspan, span, hstart, String.toList_ofList, Nat.zero_add]
  exact ⟨drop?_append front _, hdrop⟩

section
variable {text : List Char} {t : Token} (ht : t ∈ (tokenize text).tokens)
include ht

theorem munched_of_mem_tokens : t = endOfTextToken text ∨ ∃ kind behind, t.StandsIn text behind ∧
    Munched kind t.spelling.toList behind ∧ t.IsReadAs (tokenize text).errors kind := by
  rcases List.mem_append.1 ht with ht | ht
  · obtain ⟨l, hl, hlt⟩ := List.mem_filterMap.1 ht
    obtain ⟨behind, hmunched, hstands⟩ := standsIn_of_mem_split hl
    refine .inr ⟨l.kind, behind, ?_⟩
    cases hkind : l.kind with
    | separator => simp [token?, hkind] at hlt
    | token kind =>
      obtain rfl : _ = t := by simpa [token?, hkind] using hlt
      rw [hkind] at hmunched
      exact ⟨hstands _ rfl rfl, by simpa using hmunched, .inl rfl⟩
    | bad cause =>
      obtain rfl : _ = t := by simpa [token?, hkind] using hlt
      rw [hkind] at hmunched
      have herror : ⟨cause, l.span⟩ ∈ (tokenize text).errors :=
        List.mem_filterMap.2 ⟨l, hl, by simp [error?, hkind]⟩
      exact ⟨hstands _ rfl rfl, by simpa using hmunched, .inr ⟨rfl, cause, rfl, herror⟩⟩
  · exact .inl (List.mem_singleton.1 ht)

theorem munched_of_kind (hkind : t.kind ≠ .error) (hstop : t.kind ≠ .endOfText) :
    ∃ behind, t.StandsIn text behind ∧ Munched (.token t.kind) t.spelling.toList behind := by
  rcases munched_of_mem_tokens ht with rfl | ⟨_, behind, hstands, hmunched, rfl | ⟨herror, -⟩⟩
  · exact absurd rfl hstop
  · exact ⟨behind, hstands, hmunched⟩
  · exact absurd herror hkind

end

/-- What is read where a token begins is the token. -/
theorem isReadAs_of_munched {text : List Char} {t : Token} (ht : t ∈ (tokenize text).tokens)
    {kind : Lexeme.Class} {stretch behind : List Char}
    (hdrop : drop? t.span.start text = some (stretch ++ behind)) (h : Munched kind stretch behind) :
    t.spelling.toList = stretch ∧ t.IsReadAs (tokenize text).errors kind := by
  rcases munched_of_mem_tokens ht with rfl | ⟨kind', behind', hstands, hmunched, hread⟩
  · have hend := drop?_append text []
    rw [List.append_nil] at hend
    have hnil : stretch ++ behind = [] := Option.some.inj (hdrop.symm.trans hend)
    exact absurd (List.append_eq_nil_iff.1 hnil).1 h.ne_nil
  · obtain ⟨rfl, hspelling⟩ := hmunched.unique h (Option.some.inj (hstands.1.symm.trans hdrop))
    exact ⟨hspelling, hread⟩

/-- No operator goes on with `=` or another operator. -/
theorem ne_of_operator {text : List Char} {t u : Token} (ht : t ∈ (tokenize text).tokens)
    (hu : u ∈ (tokenize text).tokens) (hkind : t.kind = .operator) (hspan : t.span.stop = u.span.start) :
    u.kind ≠ .becomes ∧ u.kind ≠ .operator := by
  obtain ⟨behind, hstands, hmunched⟩ := munched_of_kind ht (by simp [hkind]) (by simp [hkind])
  have hstop : ∀ c ∈ behind.head?, isOperatorRest c = false := by
    rw [hkind] at hmunched
    generalize t.spelling.toList = spelling at hmunched
    cases hmunched with
    | operator hc hrun => exact hrun.stop
  have hnext : ∀ {kind : Token.Kind}, u.kind = kind → kind ≠ .error → kind ≠ .endOfText →
      ∃ spelling behind', behind = spelling ++ behind' ∧ Munched (.token kind) spelling behind' := by
    rintro kind rfl herror hend
    obtain ⟨behind', hstands', hmunched'⟩ := munched_of_kind hu herror hend
    have hboth := hstands'.1
    rw [← hspan, hstands.2] at hboth
    exact ⟨_, behind', Option.some.inj hboth, hmunched'⟩
  constructor <;> intro hnot <;> obtain ⟨spelling, behind', rfl, h⟩ := hnext hnot (by simp) (by simp)
  · cases h with
    | becomes => exact absurd (hstop '=' rfl) (by decide)
  · cases h with
    | @operator c tail _ hc hrun =>
      have hrest := hstop c rfl
      simp [isOperatorRest, hc] at hrest

/-! ## Characters that nothing begins with -/

theorem opens_of_isAlphanum {c : Char} (h : c.isAlphanum = true) : opens c = true := by
  rcases Bool.or_eq_true_iff.1 h with h | h <;> simp [opens, h]

theorem opens_of_isOperatorRest {c : Char} (h : isOperatorRest c = true) : opens c = true := by
  rcases Bool.or_eq_true_iff.1 h with h | h
  · simp [opens, h]
  · rw [of_decide_eq_true h]
    decide

theorem LongestRun.opens {p : Char → Bool} {c d : Char} {run behind : List Char}
    (h : LongestRun p run behind) (hp : ∀ e, p e = true → opens e = true) (hc : p c = true)
    (hd : d ∈ c :: run) : opens d = true := by
  rcases List.mem_cons.1 hd with rfl | hd
  · exact hp d hc
  · exact hp d (h.inside d hd)

theorem Munched.eq_of_not_opens {kind : Lexeme.Class} {c : Char} {stretch behind : List Char}
    (h : Munched kind stretch behind) (hmem : c ∈ stretch) (hc : TriLang.opens c = false) :
    kind = .separator ∨ kind = .token .charLiteral ∨ kind = .bad .malformedCharLiteral ∨
      kind = .bad (.unexpectedCharacter c) ∧ stretch = [c] := by
  have hnot : ¬ opens c = true := Bool.eq_false_iff.1 hc
  cases h with
  | blanks | comment => exact .inl rfl
  | character => exact .inr (.inl rfl)
  | unclosed | last => exact .inr (.inr (.inl rfl))
  | unexpected =>
    obtain rfl := List.mem_singleton.1 hmem
    exact .inr (.inr (.inr ⟨rfl, rfl⟩))
  | keyword k hd hrun hk =>
    exact absurd (hrun.opens (fun _ => opens_of_isAlphanum) (by simp [Char.isAlphanum, hd]) hmem) hnot
  | identifier hd hrun hk =>
    exact absurd (hrun.opens (fun _ => opens_of_isAlphanum) (by simp [Char.isAlphanum, hd]) hmem) hnot
  | number hd hrun =>
    have hdigit : ∀ e : Char, e.isDigit = true → opens e = true := fun e he =>
      opens_of_isAlphanum (by simp [Char.isAlphanum, he])
    exact absurd (hrun.opens hdigit hd hmem) hnot
  | operator hd hrun =>
    have hrest := hrun.opens (fun _ => opens_of_isOperatorRest) (by simp [isOperatorRest, hd]) hmem
    exact absurd hrest hnot
  | semicolon | becomes | is | leftBracket | rightBracket =>
    obtain rfl := List.mem_singleton.1 hmem
    exact absurd (by decide) hnot

/-- A character that nothing begins with is covered by a separator, by what a quote takes along, or by an error
of its own. -/
theorem covered_of_not_opens {front behind : List Char} {c : Char} (hc : opens c = false) :
    let text := front ++ c :: behind
    (∃ g ∈ Token.gaps 0 (tokenize text).tokens, g.Covers (byteLength front)) ∨
    ∃ t ∈ (tokenize text).tokens, t.span.Covers (byteLength front) ∧
      (t.kind = .charLiteral ∨ t.kind = .error ∧
        (⟨.malformedCharLiteral, t.span⟩ ∈ (tokenize text).errors ∨ t.spelling.toList = [c] ∧
          t.span.start = byteLength front ∧
          ⟨.unexpectedCharacter c, t.span⟩ ∈ (tokenize text).errors)) := by
  intro text
  have hplace : byteLength front < 0 + byteLength text := by
    have hpos := byteLength_pos (List.cons_ne_nil c behind)
    rw [byteLength_append, Nat.zero_add]
    omega
  refine ((tokenize_tiles text).covered (Nat.zero_le _) hplace).imp_right ?_
  rintro ⟨t, ht, hcovers⟩
  refine ⟨t, ht, hcovers, ?_⟩
  rcases munched_of_mem_tokens ht with rfl | ⟨kind, rest, hstands, hmunched, hread⟩
  · exact absurd (Nat.lt_of_le_of_lt hcovers.1 hcovers.2) (Nat.lt_irrefl _)
  obtain ⟨front', htext, hstart, hstop⟩ := hstands.exists_front
  obtain ⟨before, after, hfront, hspelling⟩ := exists_inside htext (by rw [hstart]; exact hcovers.1)
    (by rw [hstop]; exact hcovers.2)
  rcases hmunched.eq_of_not_opens (by simp [hspelling]) hc with rfl | rfl | rfl | ⟨rfl, hsingle⟩
  · rcases hread with hread | ⟨-, cause, hread, -⟩ <;> simp at hread
  · rcases hread with hread | ⟨-, cause, hread, -⟩
    · exact .inl (Class.token.inj hread).symm
    · simp at hread
  · rcases hread with hread | ⟨herror, cause, hread, hmem⟩
    · simp at hread
    · exact .inr ⟨herror, .inl (Class.bad.inj hread ▸ hmem)⟩
  · rcases hread with hread | ⟨herror, cause, hread, hmem⟩
    · simp at hread
    · have hnil : before = [] ∧ after = [] := by
        rw [hsingle] at hspelling
        cases before <;> simp_all
      rw [hfront, hnil.1, List.append_nil]
      exact .inr ⟨herror, .inr ⟨hsingle, hstart.symm, Class.bad.inj hread ▸ hmem⟩⟩

/-! ## The whole text -/

theorem tokenize_classifies (text : List Char) : Classifies text (tokenize text) where
  tokens _ ht herror hend := munched_of_kind ht herror hend
  errors := by
    have herrors := forall₂_errors (LineMap.ofText text) 0 text (R := fun t e => e.span = t.span ∧
      ∃ behind, t.StandsIn text behind ∧ Munched (.bad e.cause) t.spelling.toList behind) ?_
    · rw [tokenize, List.filter_append, List.filter_cons_of_neg (by simp [endOfTextToken]),
        List.filter_nil, List.append_nil]
      exact herrors
    · intro l hl cause hcause
      obtain ⟨behind, hmunched, hstands⟩ := standsIn_of_mem_split hl
      rw [hcause] at hmunched
      exact ⟨rfl, behind, hstands _ rfl rfl, by simpa using hmunched⟩
  only _ ht _ _ _ hdrop h := isReadAs_of_munched ht hdrop h
  apart _ ht _ hu := ne_of_operator ht hu
  gaps := (tokenize_tiles text).gaps [] rfl
  covered place hplace := (tokenize_tiles text).covered (Nat.zero_le _) (by simpa using hplace)
  others := by
    rintro front c behind rfl hc
    exact covered_of_not_opens hc

/-- A quote between two quotes is a literal, and another quote at the end closes nothing. -/
example : (tokenize "12ab<=='''?'".toList).tokens.map (fun t => (t.kind, t.spelling)) =
    [(.intLiteral, "12"), (.identifier, "ab"), (.operator, "<=="), (.charLiteral, "'''"), (.error, "?"),
      (.error, "'"), (.endOfText, "")] := by
  decide +kernel

end TriLang
