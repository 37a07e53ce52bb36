import TriLang.Proofs.Lexing.Spelling

/-! # What the lexer makes of a text

`Lexes text tokens` says that a text is read, without errors, as tokens of the given kinds and spellings.
That is what `tokenize` does (`tokenize_iff_lexes`), apart from where the tokens stand. Blanks in front of a
text change nothing (`Lexes.blank`), and a spelling that ends where a text begins adds its token
(`Lexes.spelling`). -/
namespace TriLang
open TriLang.Lexeme
set_option autoImplicit false

/-- The text is read as tokens of these kinds and spellings, and there are no errors in it. -/
inductive Lexes : List Char → List (Token.Kind × String) → Prop where
  | nil : Lexes [] []
  | separator {c : Char} {rest : List Char} {n : Nat} {tokens : List (Token.Kind × String)}
    (hc : classify c rest = (.separator, n)) (h : Lexes (rest.drop n) tokens) :
    Lexes (c :: rest) tokens
  | token {c : Char} {rest : List Char} {n : Nat} {kind : Token.Kind}
    {tokens : List (Token.Kind × String)} (hc : classify c rest = (.token kind, n))
    (h : Lexes (rest.drop n) tokens) :
    Lexes (c :: rest) ((kind, String.ofList (c :: rest.take n)) :: tokens)

/-! ## Texts put together -/

theorem classify_of_isBlank {c : Char} (hc : isBlank c = true) (rest : List Char) :
    classify c rest = (.separator, (rest.takeWhile isBlank).length) := by
  unfold classify
  rw [if_pos hc]

theorem Lexes.blank {c : Char} {text : List Char} {tokens : List (Token.Kind × String)}
    (hc : isBlank c = true) (h : Lexes text tokens) : Lexes (c :: text) tokens := by
  refine .separator (classify_of_isBlank hc text) ?_
  cases text with
  | nil => exact h
  | cons d rest =>
    cases hd : isBlank d with
    | false => rwa [List.takeWhile_cons_of_neg (by simp [hd])]
    | true =>
      rw [List.takeWhile_cons_of_pos hd, List.length_cons, List.drop_succ_cons]
      -- the blanks that the text begins with are one separator already
      cases h with
      | separator hclass h' =>
        rw [classify_of_isBlank hd] at hclass
        obtain ⟨-, rfl⟩ := Prod.mk.inj hclass
        exact h'
      | token hclass h' =>
        rw [classify_of_isBlank hd] at hclass
        simp at hclass

theorem Lexes.blanks {blanks text : List Char} {tokens : List (Token.Kind × String)}
    (hblanks : ∀ c ∈ blanks, isBlank c = true) (h : Lexes text tokens) :
    Lexes (blanks ++ text) tokens := by
  induction blanks with
  | nil => exact h
  | cons c blanks ih =>
    exact .blank (hblanks c List.mem_cons_self) (ih fun d hd => hblanks d (List.mem_cons_of_mem c hd))

theorem Lexes.spelling {kind : Token.Kind} {spelling : String} {text : List Char}
    {tokens : List (Token.Kind × String)} (hs : IsSpelling kind spelling)
    (hstop : kind.delimited = true ∨ Stops text) (h : Lexes text tokens) :
    Lexes (spelling.toList ++ text) ((kind, spelling) :: tokens) := by
  obtain ⟨c, tail, hspelling, hs⟩ := hs
  have htail : (tail ++ text).take tail.length = tail := List.take_left
  have hrest : (tail ++ text).drop tail.length = text := List.drop_left
  have hlexes := Lexes.token (hs.classify hstop) (hrest.symm ▸ h)
  rwa [htail, ← List.cons_append, ← hspelling, String.ofList_toList] at hlexes

/-- Every token that is read is spelled as its kind says. -/
theorem Lexes.isSpelling {text : List Char} {tokens : List (Token.Kind × String)}
    (h : Lexes text tokens) : ∀ t ∈ tokens, IsSpelling t.1 t.2 := by
  induction h with
  | nil => simp
  | separator _ _ ih => exact ih
  | token hc _ ih =>
    rintro t (_ | ⟨_, ht⟩)
    · exact ⟨_, _, String.toList_ofList, spells_of_classify hc⟩
    · exact ih t ht

/-! ## The lexer -/

def Token.view (t : Token) : Token.Kind × String := (t.kind, t.spelling)

theorem Lexes.split_eq {text : List Char} {tokens : List (Token.Kind × String)}
    (h : Lexes text tokens) (lines : LineMap) (offset : Nat) :
    (split offset text).filterMap error? = [] ∧
      ((split offset text).filterMap (token? lines)).map Token.view = tokens := by
  induction h generalizing offset with
  | nil => rw [split]; exact ⟨rfl, rfl⟩
  | separator hc _ ih =>
    rw [split, hc]
    exact ih _
  | token hc _ ih =>
    rw [split, hc]
    obtain ⟨herrors, htokens⟩ := ih (offset + Text.byteLength _)
    refine ⟨herrors, ?_⟩
    rw [List.filterMap_cons_some (by rfl), List.map_cons, htokens]
    rfl

theorem lexes_of_split (lines : LineMap) (offset : Nat) (text : List Char)
    (h : (split offset text).filterMap error? = []) :
    Lexes text (((split offset text).filterMap (token? lines)).map Token.view) := by
  induction offset, text using split.induct with
  | case1 offset => rw [split]; exact .nil
  | case2 offset c rest kind extent hc text ih =>
    rw [split, hc] at h ⊢
    cases kind with
    | separator => exact .separator hc (ih h)
    | token kind => exact .token hc (ih h)
    | bad cause => simp [error?] at h

/-- The lexer reads a text without errors as these tokens, and the end of the text behind them. -/
theorem tokenize_iff_lexes (text : List Char) (tokens : List (Token.Kind × String)) :
    Lexes text tokens ↔ (tokenize text).errors = [] ∧
      (tokenize text).tokens.map Token.view = tokens ++ [(.endOfText, "")] := by
  constructor
  · intro h
    obtain ⟨herrors, htokens⟩ := h.split_eq (LineMap.ofText text) 0
    refine ⟨herrors, ?_⟩
    rw [tokenize, List.map_append, htokens]
    rfl
  · rintro ⟨herrors, htokens⟩
    rw [tokenize, List.map_append] at htokens
    have hlexes := lexes_of_split (LineMap.ofText text) 0 text herrors
    rwa [List.append_cancel_right htokens] at hlexes

end TriLang
