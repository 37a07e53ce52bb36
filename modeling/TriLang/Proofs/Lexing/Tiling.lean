import TriLang.Proofs.Lexing.Spelling
import TriLang.Proofs.Source.Cuts
import Mathlib.Data.List.Forall2

/-! # The lexer loses nothing

The tokens of a text lie in it side by side, and between them there are only separators: blanks, and
comments that go on to the end of their line. `Tiles offset text tokens` says so of a text that begins at
an offset, one token after the other; `split_tiles` shows it of what the lexer makes of a text. What it
says about the spans of all tokens together follows by induction along the tiling. -/
namespace TriLang
open TriLang.Lexeme TriLang.Text
set_option autoImplicit false

/-! ## Separators -/

/-- The text consists of blanks and comments. A comment runs up to the next newline, or up to the end if
there is none: up to where a newline stands in the separators or in the text behind them. -/
inductive Separators (behind : List Char) : List Char → Prop where
  | nil : Separators behind []
  | blank {c : Char} {gap : List Char} (hc : isBlank c = true) (h : Separators behind gap) :
    Separators behind (c :: gap)
  | comment {body gap : List Char} (hbody : ∀ c ∈ body, c ≠ '\n')
    (hstop : ∀ c ∈ (gap ++ behind).head?, c = '\n') (h : Separators behind gap) :
    Separators behind ('!' :: (body ++ gap))

theorem Separators.blanks {behind blanks gap : List Char} (hblanks : ∀ c ∈ blanks, isBlank c = true)
    (h : Separators behind gap) : Separators behind (blanks ++ gap) := by
  induction blanks with
  | nil => exact h
  | cons c blanks ih =>
    exact .blank (hblanks c List.mem_cons_self) (ih fun d hd => hblanks d (List.mem_cons_of_mem c hd))

theorem Munched.separators {stretch behind gap : List Char}
    (hc : Munched .separator stretch (gap ++ behind)) (h : Separators behind gap) :
    Separators behind (stretch ++ gap) := by
  cases hc with
  | blanks hc hrun => exact .blank hc (h.blanks hrun.inside)
  | comment hrun =>
    refine .comment (fun d hd => ?_) (fun d hd => ?_) h
    · simpa using hrun.inside d hd
    · simpa using hrun.stop d hd

theorem Separators.front {c : Char} {rest gap behind : List Char} {n : Nat}
    (hc : classify c rest = (.separator, n)) (hrest : rest.drop n = gap ++ behind)
    (h : Separators behind gap) : Separators behind (c :: (rest.take n ++ gap)) := by
  have hmunched := munched_of_classify c rest
  rw [hc] at hmunched
  exact Munched.separators (hrest ▸ hmunched) h

/-! ## Tilings -/

/-- From the offset on, the tokens lie in the text side by side, separators between them, and the end of
the text behind them. -/
inductive Tiles : Nat → List Char → List Token → Prop where
  | stop {offset : Nat} {gap : List Char} {t : Token} (hgap : Separators [] gap)
    (hkind : t.kind = .endOfText) (hspelling : t.spelling = "")
    (hspan : t.span = .point (offset + byteLength gap)) : Tiles offset gap [t]
  | token {offset : Nat} {gap word rest : List Char} {t : Token} {tokens : List Token}
    (hgap : Separators (word ++ rest) gap) (hword : word ≠ []) (hkind : t.kind ≠ .endOfText)
    (hspelling : t.spelling = String.ofList word)
    (hspan : t.span = ⟨offset + byteLength gap, offset + byteLength gap + byteLength word⟩)
    (h : Tiles t.span.stop rest tokens) : Tiles offset (gap ++ (word ++ rest)) (t :: tokens)

theorem Tiles.separator {offset : Nat} {c : Char} {rest : List Char} {n : Nat} {tokens : List Token}
    (hc : classify c rest = (.separator, n))
    (h : Tiles (offset + byteLength (c :: rest.take n)) (rest.drop n) tokens) :
    Tiles offset (c :: rest) tokens := by
  have hrest : rest = rest.take n ++ rest.drop n := (List.take_append_drop n rest).symm
  generalize hfollowing : rest.drop n = following at h hrest
  cases h with
  | stop hgap hkind hspelling hspan =>
    have hfront := hgap.front hc (by rw [hfollowing, List.append_nil])
    rw [hrest]
    refine .stop hfront hkind hspelling ?_
    rw [hspan, ← List.cons_append, byteLength_append, Nat.add_assoc]
  | @token _ gap word behind t tokens hgap hword hkind hspelling hspan h =>
    have hfront := hgap.front hc hfollowing
    have hspan' : t.span = ⟨offset + byteLength (c :: (rest.take n ++ gap)),
        offset + byteLength (c :: (rest.take n ++ gap)) + byteLength word⟩ := by
      rw [hspan, ← List.cons_append, byteLength_append, Nat.add_assoc]
    have htiles : Tiles offset _ (t :: tokens) := .token hfront hword hkind hspelling hspan' h
    rw [hrest]
    simpa using htiles

theorem Tiles.cons {offset : Nat} {word rest : List Char} {t : Token} {tokens : List Token}
    (hword : word ≠ []) (hkind : t.kind ≠ .endOfText) (hspelling : t.spelling = String.ofList word)
    (hspan : t.span = ⟨offset, offset + byteLength word⟩)
    (h : Tiles (offset + byteLength word) rest tokens) :
    Tiles offset (word ++ rest) (t :: tokens) := by
  have hspan' : t.span = ⟨offset + byteLength [], offset + byteLength [] + byteLength word⟩ := hspan
  have hrest : Tiles t.span.stop rest tokens := by
    rw [hspan]
    exact h
  exact .token .nil hword hkind hspelling hspan' hrest

theorem split_tiles (lines : LineMap) (offset : Nat) (text : List Char) {stop : Token}
    (hkind : stop.kind = .endOfText) (hspelling : stop.spelling = "")
    (hspan : stop.span = .point (offset + byteLength text)) :
    Tiles offset text ((split offset text).filterMap (token? lines) ++ [stop]) := by
  induction offset, text using split.induct with
  | case1 offset =>
    rw [split]
    exact .stop .nil hkind hspelling hspan
  | case2 offset c rest kind extent hc text ih =>
    have htext : c :: rest = text ++ rest.drop extent := by simp [text]
    have htiles := ih (by rw [hspan, htext, byteLength_append, Nat.add_assoc])
    rw [split_cons hc]
    cases kind with
    | separator => exact htiles.separator hc
    | token kind =>
      have hkind := (spells_of_classify hc).ne_endOfText
      rw [htext]
      exact Tiles.cons (by simp [text]) hkind rfl rfl htiles
    | bad cause =>
      rw [htext]
      exact Tiles.cons (by simp [text]) (by simp) rfl rfl htiles

theorem tokenize_tiles (text : List Char) : Tiles 0 text (tokenize text).tokens :=
  split_tiles (LineMap.ofText text) 0 text rfl rfl (by simp [endOfTextToken])

/-! ## What a tiling says about all its tokens -/

namespace Tiles
variable {offset : Nat} {text : List Char} {tokens : List Token}

/-- Only the last token stands for the end of the text; it is empty, and no other is. -/
theorem exists_words (h : Tiles offset text tokens) :
    ∃ words stop, tokens = words ++ [stop] ∧ stop.kind = .endOfText ∧ stop.spelling = "" ∧
      stop.span = .point (offset + byteLength text) ∧
      ∀ t ∈ words, t.kind ≠ .endOfText ∧ t.span.start < t.span.stop := by
  induction h with
  | @stop offset gap t hgap hkind hspelling hspan =>
    exact ⟨[], t, rfl, hkind, hspelling, hspan, by simp⟩
  | @token offset gap word rest t tokens hgap hword hkind hspelling hspan h ih =>
    obtain ⟨words, stop, rfl, hkind', hspelling', hspan', hwords⟩ := ih
    refine ⟨t :: words, stop, rfl, hkind', hspelling', ?_, ?_⟩
    · have hstop : offset + byteLength gap + byteLength word + byteLength rest =
          offset + byteLength (gap ++ (word ++ rest)) := by
        rw [byteLength_append, byteLength_append]
        omega
      rw [hspan', hspan, ← hstop]
    · intro u hu
      rcases List.mem_cons.1 hu with rfl | hu
      · have hpos := byteLength_pos hword
        refine ⟨hkind, ?_⟩
        rw [hspan]
        dsimp only
        omega
      · exact hwords u hu

theorem le_start (h : Tiles offset text tokens) : ∀ t ∈ tokens, offset ≤ t.span.start := by
  induction h with
  | stop hgap hkind hspelling hspan =>
    intro u hu
    obtain rfl := List.mem_singleton.1 hu
    rw [hspan]
    exact Nat.le_add_right _ _
  | token hgap hword hkind hspelling hspan h ih =>
    intro u hu
    rcases List.mem_cons.1 hu with rfl | hu
    · rw [hspan]
      exact Nat.le_add_right _ _
    · have hstart := ih u hu
      rw [hspan] at hstart
      dsimp only at hstart
      omega

theorem pairwise (h : Tiles offset text tokens) :
    tokens.Pairwise fun t u => t.span.stop ≤ u.span.start := by
  induction h with
  | stop => exact List.pairwise_singleton _ _
  | token hgap hword hkind hspelling hspan h ih => exact List.pairwise_cons.2 ⟨h.le_start, ih⟩

/-- In a text of which the tiled one is the rest, each token is spelled as what stands under its span. -/
theorem slice? (h : Tiles offset text tokens) (front : List Char) (hoffset : byteLength front = offset) :
    ∀ t ∈ tokens, Text.slice? t.span.start t.span.stop (front ++ text) = some t.spelling.toList := by
  induction h generalizing front with
  | @stop offset gap t hgap hkind hspelling hspan =>
    intro u hu
    obtain rfl := List.mem_singleton.1 hu
    have hcut := slice?_append (front ++ gap) [] []
    rw [byteLength_append, hoffset, byteLength, Nat.add_zero] at hcut
    rw [hspan, hspelling]
    simpa [Span.point] using hcut
  | @token offset gap word rest t tokens hgap hword hkind hspelling hspan h ih =>
    have hcut := slice?_append (front ++ gap) word rest
    rw [byteLength_append, hoffset] at hcut
    have hrest := ih (front ++ gap ++ word) (by
      rw [hspan, byteLength_append, byteLength_append, hoffset])
    intro u hu
    rcases List.mem_cons.1 hu with rfl | hu
    · rw [hspan, hspelling, String.toList_ofList]
      simpa using hcut
    · simpa using hrest u hu

end Tiles

/-- The stretches in front of each token, from the end of the one before it; the first one begins at the
offset. -/
def Token.gaps : Nat → List Token → List Span
  | _, [] => []
  | offset, t :: tokens => ⟨offset, t.span.start⟩ :: gaps t.span.stop tokens

theorem Tiles.gaps {offset : Nat} {text : List Char} {tokens : List Token}
    (h : Tiles offset text tokens) (front : List Char) (hoffset : byteLength front = offset) :
    ∀ g ∈ Token.gaps offset tokens, ∃ gap behind, Text.slice? g.start g.stop (front ++ text) = some gap ∧
      drop? g.stop (front ++ text) = some behind ∧ Separators behind gap := by
  induction h generalizing front with
  | @stop offset gap t hgap hkind hspelling hspan =>
    intro g hg
    obtain rfl : g = ⟨offset, t.span.start⟩ := by simpa [Token.gaps] using hg
    have hcut := slice?_append front gap []
    have hdrop := drop?_append (front ++ gap) []
    rw [byteLength_append] at hdrop
    rw [hspan, ← hoffset]
    exact ⟨gap, [], by simpa [Span.point] using hcut, by simpa [Span.point] using hdrop, hgap⟩
  | @token offset gap word rest t tokens hgap hword hkind hspelling hspan h ih =>
    have hcut := slice?_append front gap (word ++ rest)
    have hdrop := drop?_append (front ++ gap) (word ++ rest)
    rw [byteLength_append, List.append_assoc] at hdrop
    have hrest := ih (front ++ gap ++ word) (by
      rw [hspan, byteLength_append, byteLength_append, hoffset])
    intro g hg
    rcases List.mem_cons.1 hg with rfl | hg
    · rw [hspan, ← hoffset]
      exact ⟨gap, word ++ rest, hcut, hdrop, hgap⟩
    · simpa using hrest g hg

/-! ## Errors -/

theorem Spells.ne_error {kind : Token.Kind} {c : Char} {tail : List Char} (h : Spells kind c tail) :
    kind ≠ .error := by
  cases h with
  | word => rcases wordKind_cases (c :: tail) with hk | ⟨k, hk, -⟩ <;> rw [hk] <;> simp
  | _ => simp

/-- The errors belong, one by one and in order, to the stretches that become error tokens. -/
theorem forall₂_errors (lines : LineMap) (offset : Nat) (text : List Char) {R : Token → LexError → Prop}
    (h : ∀ l ∈ split offset text, ∀ cause, l.kind = .bad cause →
      R ⟨.error, String.ofList l.text, l.span, lines.position l.start⟩ ⟨cause, l.span⟩) :
    List.Forall₂ R (((split offset text).filterMap (token? lines)).filter (·.kind = .error))
      ((split offset text).filterMap error?) := by
  induction offset, text using split.induct with
  | case1 offset => rw [split]; exact .nil
  | case2 offset c rest kind extent hc text ih =>
    rw [split_cons hc] at h ⊢
    obtain ⟨hfront, htail⟩ := List.forall_mem_cons.1 h
    have hrest := ih htail
    cases kind with
    | separator => exact hrest
    | token kind =>
      have hkind := (spells_of_classify hc).ne_error
      rw [List.filterMap_cons_none (f := error?) rfl, List.filterMap_cons_some (f := token? lines) rfl,
        List.filter_cons_of_neg (by simpa using hkind)]
      exact hrest
    | bad cause =>
      rw [List.filterMap_cons_some (f := error?) rfl, List.filterMap_cons_some (f := token? lines) rfl,
        List.filter_cons_of_pos (by simp)]
      exact .cons (hfront cause rfl) hrest

/-! ## The whole text -/

/-- The tokens of a text lie in it in order and apart from each other, each spelled as the text under its
span, and all of them hold something but the last one, which alone stands for the end of the text. Between
them and in front of the first one there are only blanks and comments. The errors belong, one by one and in
order, to the error tokens. -/
theorem tokenize_loses_nothing (text : List Char) :
    (∃ words stop, (tokenize text).tokens = words ++ [stop] ∧ stop.kind = .endOfText ∧
      stop.spelling = "" ∧ stop.span = ⟨byteLength text, byteLength text⟩ ∧
      ∀ t ∈ words, t.kind ≠ .endOfText ∧ t.span.start < t.span.stop) ∧
    ((tokenize text).tokens.Pairwise fun t u => t.span.stop ≤ u.span.start) ∧
    (∀ t ∈ (tokenize text).tokens,
      Text.slice? t.span.start t.span.stop text = some t.spelling.toList) ∧
    (∀ g ∈ Token.gaps 0 (tokenize text).tokens, ∃ gap behind,
      Text.slice? g.start g.stop text = some gap ∧ drop? g.stop text = some behind ∧
        Separators behind gap) ∧
    (tokenize text).errors.map LexError.span =
      ((tokenize text).tokens.filter (·.kind = .error)).map Token.span := by
  have htiles := tokenize_tiles text
  obtain ⟨words, stop, htokens, hkind, hspelling, hspan, hwords⟩ := htiles.exists_words
  refine ⟨⟨words, stop, htokens, hkind, hspelling, ?_, hwords⟩, htiles.pairwise,
    htiles.slice? [] rfl, htiles.gaps [] rfl, ?_⟩
  · rw [hspan, Nat.zero_add, Span.point]
  · rw [tokenize, List.filter_append, List.filter_cons_of_neg (by simp [endOfTextToken]), List.filter_nil,
      List.append_nil]
    have hspans := forall₂_errors (LineMap.ofText text) 0 text (R := fun t e => e.span = t.span)
      fun _ _ _ _ => rfl
    rw [← List.forall₂_eq_eq_eq, List.forall₂_map_left_iff, List.forall₂_map_right_iff]
    exact hspans.flip

/-- A quote that opens no literal takes the character behind it along, all its bytes. -/
example : (tokenize "x 'é".toList).tokens.map (fun t => (t.kind, t.spelling, t.span)) =
    [(.identifier, "x", ⟨0, 1⟩), (.error, "'é", ⟨2, 5⟩), (.endOfText, "", ⟨5, 5⟩)] := by
  decide +kernel

end TriLang
