import TriLang.Proofs.Lexing.Reading
import TriLang.Proofs.Lexing.Tiling

/-! # Reading whole lines

`Lexeme.words` are the lexemes of a text that are no separators; tokens and errors are made from them. No word
goes on behind the end of a line, but for a stretch that is no token. So a text without errors is read by
itself whatever follows, if its last line has ended (`words_append`), and lines that are comments hold no
words at all (`words_comments`). -/
namespace TriLang.Lexeme
open TriLang.Text
set_option autoImplicit false

/-- The lexemes of a text that are no separators. -/
def words (offset : Nat) (text : List Char) : List Lexeme :=
  (split offset text).filter fun l => l.kind ≠ .separator

theorem token?_words (lines : LineMap) (offset : Nat) (text : List Char) :
    (words offset text).filterMap (token? lines) = (split offset text).filterMap (token? lines) := by
  rw [words, List.filterMap_filter]
  congr 1
  funext l
  by_cases hl : l.kind = .separator
  · simp [token?, hl]
  · simp [hl]

theorem error?_words (offset : Nat) (text : List Char) :
    (words offset text).filterMap error? = (split offset text).filterMap error? := by
  rw [words, List.filterMap_filter]
  congr 1
  funext l
  by_cases hl : l.kind = .separator
  · simp [error?, hl]
  · simp [hl]

/-! ## Separators -/

section
variable {stretch behind : List Char}

theorem words_separator (h : Munched .separator stretch behind) (offset : Nat) :
    words offset (stretch ++ behind) = words (offset + byteLength stretch) behind := by
  rw [words, h.split_eq, List.filter_cons_of_neg (by simp), words]

theorem words_cons {kind : Class} (h : Munched kind stretch behind) (hkind : kind ≠ .separator)
    (offset : Nat) :
    words offset (stretch ++ behind) = ⟨kind, stretch, offset⟩ ::
      words (offset + byteLength stretch) behind := by
  rw [words, h.split_eq, List.filter_cons_of_pos (by simpa using hkind), words]

end

theorem words_blank {c : Char} (hc : isBlank c = true) (offset : Nat) (text : List Char) :
    words offset (c :: text) = words (offset + c.utf8Size) text := by
  obtain ⟨blanks, behind, rfl, hrun⟩ : ∃ blanks behind, text = blanks ++ behind ∧
      LongestRun isBlank blanks behind :=
    ⟨_, _, (List.take_append_drop _ text).symm, longestRun_take isBlank text⟩
  rw [← List.cons_append, words_separator (.blanks hc hrun)]
  cases blanks with
  | nil => rfl
  | cons d blanks =>
    -- the blanks that the text begins with are one separator already
    have hd := hrun.inside d List.mem_cons_self
    have hrun' : LongestRun isBlank blanks _ :=
      ⟨fun e he => hrun.inside e (List.mem_cons_of_mem d he), hrun.stop⟩
    rw [words_separator (.blanks hd hrun'), byteLength, Nat.add_assoc]

/-- A line with `!` in front is a comment. -/
def comment (body : List Char) : List Char := '!' :: (body ++ ['\n'])

theorem words_comment {body : List Char} (hbody : '\n' ∉ body) (offset : Nat) (text : List Char) :
    words offset (comment body ++ text) = words (offset + byteLength (comment body)) text := by
  have hrun : LongestRun (· ≠ '\n') body ('\n' :: text) := by
    refine ⟨fun d hd => ?_, by simp⟩
    have hne : d ≠ '\n' := fun h => hbody (h ▸ hd)
    simpa using hne
  have htext : comment body ++ text = '!' :: body ++ '\n' :: text := by simp [comment]
  have hlength : byteLength (comment body) = byteLength ('!' :: body) + '\n'.utf8Size := by
    rw [comment, ← List.cons_append, byteLength_append]
    rfl
  rw [htext, words_separator (.comment hrun), words_blank rfl, hlength, Nat.add_assoc]

theorem words_comments {lines : List (List Char)} (h : ∀ body ∈ lines, '\n' ∉ body) (offset : Nat) :
    words offset (lines.flatMap comment) = [] := by
  induction lines generalizing offset with
  | nil => rw [words, List.flatMap_nil, split]; rfl
  | cons body lines ih =>
    obtain ⟨hbody, hlines⟩ := List.forall_mem_cons.1 h
    rw [List.flatMap_cons, words_comment hbody, ih hlines]

/-! ## Lines -/

/-- The text consists of whole lines. -/
def Closed (text : List Char) : Prop := text = [] ∨ text.getLast? = some '\n'

theorem Closed.behind (front : List Char) {behind : List Char} (h : Closed (front ++ behind)) : Closed behind := by
  cases behind with
  | nil => exact .inl rfl
  | cons d behind =>
    have hlast := h.resolve_left (by simp)
    rw [List.getLast?_append, List.getLast?_cons, Option.some_or] at hlast
    exact .inr (by rw [List.getLast?_cons, hlast])

/-- A text without errors is read by itself if it consists of whole lines, or if its last line ends where
the other text begins. -/
theorem words_append {text more : List Char} (hends : Closed text ∨ more.head? = some '\n') (offset : Nat)
    (herrors : (words offset text).filterMap error? = []) :
    words offset (text ++ more) = words offset text ++ words (offset + byteLength text) more := by
  induction hn : text.length using Nat.strongRecOn generalizing text offset with
  | _ n ih =>
    cases text with
    | nil =>
      have hnil : words offset [] = [] := by rw [words, split]; rfl
      simp [hnil, byteLength]
    | cons c rest =>
      by_cases hblank : isBlank c = true
      · rw [words_blank hblank] at herrors
        rw [List.cons_append, words_blank hblank, words_blank hblank, byteLength, ← Nat.add_assoc]
        exact ih rest.length (by simp [← hn]) (hends.imp_left (Closed.behind [c])) _ herrors rfl
      rw [Bool.not_eq_true] at hblank
      obtain ⟨kind, tail, behind, rfl, hmunched⟩ := exists_munched c rest
      rw [← List.cons_append] at hends herrors ⊢
      have hgood : ∀ cause, kind ≠ .bad cause := by
        rintro cause rfl
        rw [words_cons hmunched (by simp)] at herrors
        simp [error?] at herrors
      have hgoes : behind ≠ [] ∨ more.head? = some '\n' := by
        refine hends.imp_left fun hclosed => ?_
        rintro rfl
        rw [List.append_nil] at hclosed
        exact hmunched.getLast?_ne hblank hgood (hclosed.resolve_left (by simp))
      have hmore := hmunched.append hblank hgood hgoes
      have hshorter : behind.length < n := by
        simp only [List.length_append, List.length_cons] at hn
        omega
      have hrest : Closed behind ∨ more.head? = some '\n' := hends.imp_left (Closed.behind _)
      rw [List.append_assoc, byteLength_append, ← Nat.add_assoc]
      by_cases hkind : kind = .separator
      · subst hkind
        rw [words_separator hmunched] at herrors
        rw [words_separator hmore, words_separator hmunched]
        exact ih _ hshorter hrest _ herrors rfl
      · rw [words_cons hmunched hkind] at herrors
        have hbehind := (List.forall_mem_cons.1 (List.filterMap_eq_nil_iff.1 herrors)).2
        rw [words_cons hmore hkind, words_cons hmunched hkind, List.cons_append,
          ih _ hshorter hrest _ (List.filterMap_eq_nil_iff.2 hbehind) rfl]

/-- In whole lines without errors no word reaches to their end. -/
theorem words_stop {text : List Char} (hclosed : Closed text) (offset : Nat)
    (herrors : (words offset text).filterMap error? = []) :
    ∀ l ∈ words offset text, l.span.stop < offset + byteLength text := by
  intro l hl
  obtain ⟨hsplit, hkind⟩ := List.mem_filter.1 hl
  obtain ⟨front, behind, rfl, hstart, hmunched⟩ := mem_split l hsplit
  have hgood : ∀ cause, l.kind ≠ .bad cause := by
    intro cause hcause
    have hnone := List.filterMap_eq_nil_iff.1 herrors l hl
    simp [error?, hcause] at hnone
  have hpos : 0 < byteLength behind := by
    refine byteLength_pos ?_
    rintro rfl
    obtain ⟨c, tail, htext⟩ := List.exists_cons_of_ne_nil hmunched.ne_nil
    rw [htext, List.append_nil] at hclosed
    rw [htext] at hmunched
    have hblank : isBlank c = false :=
      Bool.eq_false_iff.2 fun hc => absurd (hmunched.separator_of_isBlank hc) (by simpa using hkind)
    exact hmunched.getLast?_ne hblank hgood (hclosed.behind.resolve_left (by simp))
  rw [span, hstart, byteLength_append, byteLength_append]
  dsimp only
  omega

end TriLang.Lexeme
